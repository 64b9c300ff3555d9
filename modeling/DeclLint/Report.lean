/-
DeclLint/Report.lean

Reports.  A banned directive is reported on a line of its own.  Failures of
rules are reported for people, in blocks by file, or as JSON with a summary.
A run has nothing to report, or a report that is not empty.
-/
import DeclLint.Json.Printer
import DeclLint.Limit
import DeclLint.Rule.Basic
import DeclLint.Text.Upper

namespace DeclLint.Report

/-! ### Banned directives -/

/-- The report of a banned directive at a place in a file. -/
def directiveLine (file : String) (line character : Int) (message : String) : String :=
  "At " ++ file ++ ":" ++
    Json.compact (.object [("line", .int line), ("character", .int character)]) ++ ": " ++ message

/-! ### Blocks by file -/

/-- The line of a failure.  Positions are shown from one. -/
def entry (f : Failure) : String :=
  String.ofList (Text.upper f.severity.toList) ++ ": " ++ toString (f.line + 1) ++ ":" ++
    toString (f.character + 1) ++ "  " ++ f.rule ++ "  " ++ f.message

/-- One more failure in the table of failures by file. -/
def enter (t : Table String (List Failure)) (f : Failure) : Table String (List Failure) :=
  t.put f.file ((t.get? f.file).getD [] ++ [f])

/-- The failures by file, in the order in which the files first come up. -/
def byFile (fs : List Failure) : Table String (List Failure) :=
  fs.foldl enter []

/-- The block of a file: its name and the lines of its failures. -/
def block (file : String) (fs : List Failure) : String :=
  "\n".intercalate (file :: fs.map entry)

/-- The report for people: the blocks of the files, with an empty line between them. -/
def stylish (fs : List Failure) : String :=
  "\n\n".intercalate ((byFile fs).map fun e => block e.1 e.2)

/-- The report for people, unless a position in it has too many digits to be written. -/
def writtenStylish (fs : List Failure) : Except Excess String := do
  fs.forM fun f => do
    let _ ← wholeText (f.line + 1)
    let _ ← wholeText (f.character + 1)
  return stylish fs

/-! ### JSON -/

/-- How many failures there are. -/
structure Summary where
  total : Nat
  errors : Nat
  warnings : Nat
  files : Nat
deriving DecidableEq, Repr

/-- The number of failures of a severity. -/
def countOf (s : Severity) (fs : List Failure) : Nat :=
  fs.countP fun f => f.severity = s.name

/-- The summary of failures. -/
def summarize (fs : List Failure) : Summary :=
  ⟨fs.length, countOf .error fs, countOf .warning fs, (fs.map (·.file)).eraseDups.length⟩

/-- The fields of a failure. -/
inductive Field where
  | file
  | rule
  | severity
  | line
  | character
  | message
deriving DecidableEq, Repr

namespace Field

/-- The order in which the fields of a failure are written. -/
def standard : List Field := [.file, .rule, .severity, .line, .character, .message]

/-- The key of a field. -/
def key : Field → String
  | .file => "file"
  | .rule => "rule"
  | .severity => "severity"
  | .line => "line"
  | .character => "character"
  | .message => "message"

/-- The value of a field. -/
def value (f : Failure) : Field → Json
  | .file => .text f.file
  | .rule => .text f.rule
  | .severity => .text f.severity
  | .line => .int f.line
  | .character => .int f.character
  | .message => .text f.message

end Field

/-- A failure as a JSON object with its fields in a given order. -/
def failureObject (order : List Field) (f : Failure) : Json :=
  .object (order.map fun field => (field.key, field.value f))

/-- A summary as a JSON object. -/
def summaryObject (s : Summary) : Json :=
  .object [("total_failures", .int s.total), ("errors", .int s.errors),
    ("warnings", .int s.warnings), ("files_with_failures", .int s.files)]

/-- The report as a JSON object. -/
def object (order : List Field) (fs : List Failure) : Json :=
  .object [("failures", .arr (fs.map (failureObject order))),
    ("summary", summaryObject (summarize fs))]

/-- The report as JSON text. -/
def json (order : List Field) (fs : List Failure) : String :=
  Json.indented (object order fs)

/-- The report as JSON text, unless an integer in it has too many digits to be written. -/
def writtenJson (order : List Field) (fs : List Failure) : Except Excess String :=
  Json.written (object order fs)

/-! ### Formats -/

/-- The formats of a report. -/
inductive Format where
  | json
  | stylish
deriving DecidableEq, Repr

namespace Format

/-- All formats in the order of their names. -/
def all : List Format := [.json, .stylish]

/-- The name of a format. -/
def name : Format → String
  | .json => "json"
  | .stylish => "stylish"

/-- The format with a given name. -/
def ofName? (s : String) : Option Format :=
  all.find? (·.name = s)

/-- The report of failures in a format, if their places can be written. -/
def render : Format → List Failure → Except Excess String
  | .json, fs => writtenJson Field.standard fs
  | .stylish, fs => writtenStylish fs

end Format

/-- The exit code for a report: whether there is anything to report. -/
def exitCode : Option String → Nat
  | none => 0
  | some "" => 0
  | some _ => 1

end DeclLint.Report
