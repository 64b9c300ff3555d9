/-
DeclLint/Compiler/Diagnostic.lean

The errors that a compiler prints.  A line `file(line,character): error
TSn: message` is about a place in a file, a line `error TSn: message` about
the whole project; a line that starts with two blanks continues the message
before it.  Everything else is passed over.  `parse` gives the errors in the
order of the output; `read` does the same and refuses an output whose line or
character numbers have too many digits.
-/
import DeclLint.Limit
import DeclLint.Path.Normal
import DeclLint.Text.Blank
import DeclLint.Text.Digit
import DeclLint.Text.Line
import DeclLint.Text.Search

namespace DeclLint

/-- A compiler error; the file is absent where the error is about the project, and positions
count from zero. -/
structure Diagnostic where
  file : Option String
  line : Int
  character : Int
  code : String
  message : String
deriving DecidableEq, Repr

namespace Diagnostic

/-- A row of decimal digits at the start of a text, and the rest. -/
def digits? (cs : List Char) : Option (List Char × List Char) :=
  let ds := cs.takeWhile Text.isDigit
  if ds.isEmpty then none else some (ds, cs.dropWhile Text.isDigit)

/-- What a printed error says after its place: the code and the message. -/
structure Report where
  code : List Char
  message : List Char
deriving DecidableEq, Repr

/-- A text of the form `error TSn: message`. -/
def report? (cs : List Char) : Option Report := do
  let afterWord ← Text.afterPrefix? "error TS".toList cs
  let (number, rest) ← digits? afterWord
  let message ← Text.afterPrefix? ": ".toList rest
  return ⟨"TS".toList ++ number, message⟩

/-- The place of an error as it is printed: the digits of its line and of its character. -/
structure PrintedPlace where
  line : List Char
  character : List Char
deriving DecidableEq, Repr

/-- A text of the form `(line,character): error TSn: message`: the place and what follows it. -/
def located? (cs : List Char) : Option (PrintedPlace × Report) := do
  let cs ← Text.afterPrefix? ['('] cs
  let (line, cs) ← digits? cs
  let cs ← Text.afterPrefix? [','] cs
  let (character, cs) ← digits? cs
  let cs ← Text.afterPrefix? "): ".toList cs
  let report ← report? cs
  return (⟨line, character⟩, report)

/-- What one line of output is. -/
inductive Line where
  | inFile (file : List Char) (place : PrintedPlace) (report : Report)
  | inProject (report : Report)
  | continuation (text : List Char)
  | other
deriving DecidableEq, Repr

/-- The shortest file name in front of a place: at least one character, and the first split of the
line at which a place follows. -/
def splitFile? : List Char → Option (List Char × PrintedPlace × Report)
  | [] => none
  | c :: cs =>
    match located? cs with
    | some (place, report) => some ([c], place, report)
    | none => (splitFile? cs).map fun (file, rest) => (c :: file, rest)

/-- What a line of output is. -/
def classify (cs : List Char) : Line :=
  match splitFile? cs with
  | some (file, place, report) => .inFile file place report
  | none =>
    match report? cs with
    | some report => .inProject report
    | none =>
      match cs with
      | ' ' :: ' ' :: _ => .continuation (Text.strip cs)
      | _ => .other

/-- The file that a diagnostic is about: its name seen from the directory that the compiler ran
in, in normal form. -/
def fileName (directory : Path) (file : List Char) : String :=
  Path.normalForm (directory.child (String.ofList file)).toString

/-- The diagnostic with one more line of message. -/
def continued (d : Diagnostic) (text : List Char) : Diagnostic :=
  { d with message := d.message ++ "\n" ++ String.ofList text }

/-- The diagnostics found so far, the last one first, with one more line of output. -/
def step (directory : Path) (found : List Diagnostic) (cs : List Char) : List Diagnostic :=
  match classify cs with
  | .inFile file place report =>
    ⟨some (fileName directory file), (Text.numeral place.line : Int) - 1,
      (Text.numeral place.character : Int) - 1, String.ofList report.code,
      String.ofList report.message⟩ :: found
  | .inProject report =>
    ⟨none, 0, 0, String.ofList report.code, String.ofList report.message⟩ :: found
  | .continuation text =>
    match found with
    | d :: rest => d.continued text :: rest
    | [] => []
  | .other => found

/-- The diagnostics in the output of a compiler that ran in `directory`. -/
def parse (directory : Path) (output : String) : List Diagnostic :=
  ((Text.lines output.toList).foldl (step directory) []).reverse

/-- The excess of a numeral that has too many digits. -/
def digitExcess? (ds : List Char) : Option Excess :=
  if digitLimit < ds.length then some (.digits ds.length) else none

/-- The excess of the numerals in a line of output. -/
def lineExcess? (cs : List Char) : Option Excess :=
  match classify cs with
  | .inFile _ place _ => (digitExcess? place.line).or (digitExcess? place.character)
  | _ => none

/-- The diagnostics in an output, unless one of its numerals exceeds the limit. -/
def read (directory : Path) (output : String) : Except Excess (List Diagnostic) :=
  match (Text.lines output.toList).findSome? lineExcess? with
  | some e => .error e
  | none => .ok (parse directory output)

/-- The line starts a diagnostic. -/
def startsDiagnostic (cs : List Char) : Bool :=
  match classify cs with
  | .inFile .. => true
  | .inProject _ => true
  | _ => false

/-- The output holds a diagnostic. -/
def occursIn (output : String) : Bool :=
  (Text.lines output.toList).any startsDiagnostic

end Diagnostic

end DeclLint
