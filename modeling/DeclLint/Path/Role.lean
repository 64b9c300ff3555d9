/-
DeclLint/Path/Role.lean

What the place of a file says about it: it belongs to an installed
dependency, or it lives in a folder of the project root that is meant for
older compilers (`ts3.8`) and has a pass of its own.  Both are read off the
normal form of the path.
-/
import DeclLint.Path.Normal
import DeclLint.Text.Digit
import DeclLint.Text.Search

namespace DeclLint.Path

/-- The folder that installed dependencies live in. -/
def dependencyFolder : String := "node_modules"

/-- The file lies in the folder of installed dependencies. -/
def isDependency (file : String) : Bool :=
  (resolution file).segments.contains dependencyFolder

/-- A version number at the start of a text, digits and a point and digits, and the rest. -/
def versionNumber? (cs : List Char) : Option (List Char × List Char) :=
  let major := cs.takeWhile Text.isDigit
  match cs.dropWhile Text.isDigit with
  | '.' :: r =>
    let minor := r.takeWhile Text.isDigit
    if major.isEmpty || minor.isEmpty then none
    else some (major ++ '.' :: minor, r.dropWhile Text.isDigit)
  | _ => none

/-- The version that the start of a text names as a folder (`ts3.8`), and the rest. -/
def versionFolder? : List Char → Option (List Char × List Char)
  | 't' :: 's' :: cs => versionNumber? cs
  | _ => none

/-- The version that a whole folder name stands for. -/
def folderVersion? (name : String) : Option String :=
  match versionFolder? name.toList with
  | some (v, []) => some (String.ofList v)
  | _ => none

/-- The text below a root starts with a version folder that holds something. -/
def startsInVersionFolder : List Char → Bool
  | '/' :: cs =>
    match versionFolder? cs with
    | some (_, '/' :: _) => true
    | _ => false
  | _ => false

/-- The file lies in a version folder directly below the root. -/
def isVersionPinned (file root : String) : Bool :=
  match Text.afterPrefix? (normalForm root).toList (normalForm file).toList with
  | some below => startsInVersionFolder below
  | none => false

end DeclLint.Path
