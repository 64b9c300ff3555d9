/-
DeclLint/Project/Program.lean

Programs: the source files of a project with their texts.  A program is
built from the tsconfig.json of its project; files that cannot be read are
left out.
-/
import DeclLint.Files.Text
import DeclLint.Project.Files

namespace DeclLint

/-- A source file: its name and its text. -/
structure SourceFile where
  name : String
  text : String
deriving DecidableEq, Repr

/-- The source files of a project in the order of the project, and the names of those that
belong to the compiler. -/
structure Program where
  files : List SourceFile
  defaultLibrary : List String
deriving DecidableEq, Repr

/-- The file belongs to the compiler. -/
def Program.isDefaultLibrary (p : Program) (f : SourceFile) : Bool :=
  p.defaultLibrary.contains f.name

namespace Project

/-- The name of the file that describes a project. -/
def descriptionFile : String := "tsconfig.json"

/-- The JSON object in a tsconfig.json. -/
def readDescription (w : Workspace) (file : Path) : Except LintError Json :=
  match w.readBytes file with
  | .error .missing => .error (.project (.absent file))
  | .error .nulCharacter => .error .nulInPath
  | .error fault => .error (.project (.unreadable file fault))
  | .ok bytes =>
    match Files.markedUtf8Text bytes with
    | .error fault => .error (.undecodable fault)
    | .ok cs =>
      match Json.read w.room.documents cs with
      | .error (.malformed fault) => .error (.project (.malformed file fault))
      | .error (.excess e) => .error (.excess e)
      | .ok (.obj fields) => .ok (.obj fields)
      | .ok _ => .error (.project (.notObject file))

/-- A list of strings under a key, if there is one. -/
def stringsUnder (file : Path) (document : Json) (key : String) :
    Except LintError (Option (List LooseText)) :=
  match document.fieldOrNull key with
  | .null => .ok none
  | v =>
    match v.looseTexts? with
    | some names => .ok (some names)
    | none => .error (.project (.notStrings key file))

/-- What a tsconfig.json says about the files of its project. -/
def selectionOf (file : Path) (document : Json) : Except LintError Selection := do
  let files ← stringsUnder file document "files"
  let includes ← stringsUnder file document "include"
  let excludes ← stringsUnder file document "exclude"
  return ⟨files, includes, excludes⟩

/-- The texts of files, without those that cannot be read. -/
def readSources (w : Workspace) : List Path → Traced (List SourceFile)
  | [] => return []
  | p :: ps => do
    let text ← Files.readSource w p
    let more ← readSources w ps
    return match text with
      | some text => ⟨p.toString, text⟩ :: more
      | none => more

/-- The program that a tsconfig.json describes. -/
def build (w : Workspace) (file : Path) : Traced Program := do
  let document ← Traced.ofExcept (readDescription w file)
  let selection ← Traced.ofExcept (selectionOf file document)
  let paths ← Traced.ofExcept (collect w file.parent selection)
  let files ← readSources w paths
  Traced.log .debug .program
    ("Program for " ++ file.toString ++ " has " ++ toString files.length ++ " source files")
  return ⟨files, []⟩

end Project

end DeclLint
