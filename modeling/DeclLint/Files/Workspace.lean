/-
DeclLint/Files/Workspace.lean

What a run sees of its surroundings: the file tree, the directory it was
started in, the environment variables, the home directory of the account that
it belongs to, and how deep it may nest things.  Paths are followed segment by
segment, so a double dot is taken after the directory before it was found.
Reading a file as text decodes it and unifies its line endings.
-/
import DeclLint.Files.Tree
import DeclLint.Limit
import DeclLint.Path.Normal
import DeclLint.Text.Encoding
import DeclLint.Text.Quoted

namespace DeclLint

/-- Why a path leads to no file. -/
inductive AccessFault where
  /-- Some segment of the path does not exist. -/
  | missing
  /-- The path leads on from a file. -/
  | throughFile
  /-- The path leads to a directory. -/
  | isDirectory
  /-- The path holds the character NUL. -/
  | nulCharacter
  /-- A segment of the path, or the whole path, is too long. -/
  | nameTooLong
deriving DecidableEq, Repr

/-- The explanation of a fault at a path. -/
def AccessFault.message (p : Path) : AccessFault → String
  | .missing => "[Errno 2] No such file or directory: " ++ Text.quoted p.toString
  | .throughFile => "[Errno 20] Not a directory: " ++ Text.quoted p.toString
  | .isDirectory => "[Errno 21] Is a directory: " ++ Text.quoted p.toString
  | .nulCharacter => "embedded null byte"
  | .nameTooLong => "[Errno 36] File name too long: " ++ Text.quoted p.toString

namespace FileTree

/-- Follows segments from a place. -/
def walk (t : FileTree) : Place → List String → Except AccessFault Place
  | here, [] => .ok here
  | here, s :: rest =>
    match t.node? here with
    | some .dir =>
      if s = ".." then walk t here.dropLast rest
      else if segmentLimit < s.utf8ByteSize then .error .nameTooLong
      else if (t.node? (here ++ [s])).isSome then walk t (here ++ [s]) rest
      else .error .missing
    | some (.file _) => .error .throughFile
    | none => .error .missing

end FileTree

/-- The file tree, the working directory and the environment variables of a run. -/
structure Workspace where
  tree : FileTree
  cwd : Place
  environment : Table String String
  /-- The home directory of the account, if the account is known. -/
  accountHome : Option String := none
  room : Room := {}

namespace Workspace

/-- The working directory as a path. -/
def cwdPath (w : Workspace) : Path :=
  ⟨.single, w.cwd⟩

/-- The absolute path of `p`. -/
def absolute (w : Workspace) (p : Path) : Path :=
  Path.absolute w.cwdPath p

/-- The place that `p` names when double dots are cancelled in the text of the path. -/
def resolve (w : Workspace) (p : Path) : Path :=
  Path.resolve w.cwdPath p

/-- The path holds the character NUL, which no file name does. -/
def hasNul (p : Path) : Bool :=
  p.segments.any fun s => s.toList.contains '\x00'

/-- The place that a path leads to. -/
def locate (w : Workspace) (p : Path) : Except AccessFault Place :=
  if hasNul p then .error .nulCharacter
  else if pathLimit < p.toString.utf8ByteSize then .error .nameTooLong
  else w.tree.walk [] (w.absolute p).segments

/-- What a path leads to, if it leads to anything.  A path that is too long is a fault. -/
def node? (w : Workspace) (p : Path) : Except AccessFault (Option Node) :=
  match w.locate p with
  | .ok place => .ok (w.tree.node? place)
  | .error .nameTooLong => .error .nameTooLong
  | .error _ => .ok none

/-- The path leads to something. -/
def pathExists (w : Workspace) (p : Path) : Except AccessFault Bool :=
  (w.node? p).map Option.isSome

/-- The path leads to a file. -/
def isFile (w : Workspace) (p : Path) : Except AccessFault Bool :=
  (w.node? p).map fun
    | some (.file _) => true
    | _ => false

/-- The path leads to a directory. -/
def isDir (w : Workspace) (p : Path) : Except AccessFault Bool :=
  (w.node? p).map fun n => n = some .dir

/-- The bytes of the file that a path leads to. -/
def readBytes (w : Workspace) (p : Path) : Except AccessFault (List UInt8) :=
  match w.locate p with
  | .error f => .error f
  | .ok place =>
    match w.tree.node? place with
    | some (.file bytes) => .ok bytes
    | some .dir => .error .isDirectory
    | none => .error .missing

/-- The names in the directory that a path leads to. -/
def list (w : Workspace) (p : Path) : Except AccessFault (List String) :=
  match w.locate p with
  | .error f => .error f
  | .ok place =>
    match w.tree.node? place with
    | some .dir => .ok (w.tree.children place)
    | some (.file _) => .error .throughFile
    | none => .error .missing

/-- The value of an environment variable that is set and not empty. -/
def setting? (w : Workspace) (name : String) : Option String :=
  match w.environment.get? name with
  | some "" => none
  | v => v

end Workspace

end DeclLint
