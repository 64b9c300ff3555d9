/-
DeclLint/Main.lean

The command `dts-lint`.  The files that a run may look at are read into a
file tree first: the working directory, the directories that the command
names, the configuration files in the directories above those, and the
scripts of the installed compilers.  The request is then carried out on the
tree, and what it ends in is printed.

No program is started from here: a compiler that is found counts as one that
cannot be launched, and a run that needs its answer ends in that error.
-/
import DeclLint.CommandLine.Execute

namespace DeclLint.CommandLine

/-! ### Reading files into a tree -/

/-- How many directories below each other are read at most. -/
def readingDepth : Nat := 64

/-- A place as the machine writes it. -/
def machineName (place : Place) : String :=
  (Config.pathOf place).toString

/-- Adds the file at a place, unless it cannot be read. -/
def addFile (t : FileTree) (place : Place) : IO FileTree :=
  try
    let bytes ← IO.FS.readBinFile (machineName place)
    return t.writeFile place bytes.toList
  catch _ => return t

/-- The names in the directory at a place, none if there is no such directory. -/
def namesIn (place : Place) : IO (List String) :=
  try
    let here ← IO.currentDir
    let entries ← (here / machineName place).readDir
    return (entries.map (·.fileName)).toList
  catch _ => return []

/-- What the machine has at a place, where links to directories count as nothing. -/
def kindOf (place : Place) : IO (Option IO.FS.FileType) :=
  try
    let here ← IO.currentDir
    let found := here / machineName place
    match (← found.symlinkMetadata).type with
    | .symlink =>
      match (← found.metadata).type with
      | .file => return some .file
      | _ => return none
    | kind => return some kind
  catch _ => return none

/-- Adds everything at a place, as deep as the first argument tells. -/
def addAll : Nat → FileTree → Place → IO FileTree
  | 0, t, _ => return t
  | depth + 1, t, place => do
    match ← kindOf place with
    | some .file => addFile t place
    | some .dir =>
      (← namesIn place).foldlM (fun t name => addAll depth t (place ++ [name])) (t.makeDirs place)
    | _ => return t

/-- Adds the JSON files of a directory. -/
def addJsonFiles (t : FileTree) (directory : Place) : IO FileTree := do
  let names := (← namesIn directory).filter (·.endsWith ".json")
  names.foldlM (fun t name => addFile t (directory ++ [name])) t

/-- Adds a directory and the JSON files of the directories above it. -/
def addDirectory (t : FileTree) (place : Place) : IO FileTree := do
  let t ← (List.range place.length).foldlM (fun t n => addJsonFiles t (place.take n)) t
  addAll readingDepth t place

/-! ### The surroundings of a run -/

/-- The directories that the words of a command name. -/
def namedDirectories (words : List String) : List String :=
  match Words.scan words with
  | .ok w => w.others ++ (w.value? .localBuild).toList
  | .error _ => []

/-- The environment variables that a run looks at, as far as they are set. -/
def readEnvironment : IO (Table String String) :=
  ["HOME", Release.installsVariable, levelVariable].foldlM (fun t name => do
    match ← IO.getEnv name with
    | some value => return t.put name value
    | none => return t) []

/-- The scripts of the installed compilers. -/
def compilerScripts (w : Workspace) : List Place :=
  (Release.allShipped ++ [Release.latest]).filterMap fun r =>
    match Release.installPath w r.name none with
    | .ok install => some (w.resolve (Compiler.scriptPath install.toString)).segments
    | .error _ => none

/-- What a command sees of the machine. -/
def readWorkspace (words : List String) : IO Workspace := do
  let cwd := Path.ofString (← IO.currentDir).toString
  let environment ← readEnvironment
  let start : Workspace :=
    { tree := Config.Bundled.install FileTree.empty
      cwd := cwd.segments
      environment := environment }
  let directories := (namedDirectories words).map fun s =>
    (start.resolve (Path.ofString s)).segments
  let tree ← (cwd.segments :: directories).foldlM addDirectory start.tree
  let tree ← (compilerScripts start).foldlM addFile tree
  return { start with tree := tree }

/-- Carries out the command that words make: its exit code. -/
def runCommand (words : List String) : IO UInt32 := do
  let workspace ← readWorkspace words
  let host : Host := ⟨workspace, fun _ => .noLauncher⟩
  match parse (leadsToFile workspace) words with
  | .error _ =>
    IO.eprintln usage
    return 2
  | .ok request =>
    let outcome := (execute .piped host request).1
    IO.print outcome.stdout
    IO.eprint (outcome.stderr.getD "")
    return UInt32.ofNat outcome.exitCode

end DeclLint.CommandLine

/-- Runs the command. -/
def main (words : List String) : IO UInt32 :=
  DeclLint.CommandLine.runCommand words
