/-
DeclLint/Json/Display.lean

How messages show a value that they complain about: words for the constants,
quoted strings, and lists and tables in brackets with a blank after every
separator.
-/
import DeclLint.Json.Basic
import DeclLint.Decimal.Shortest

namespace DeclLint.Json

mutual

/-- A value inside a message. -/
def display : Json → String
  | .null => "None"
  | .bool b => if b then "True" else "False"
  | .int n => toString n
  | .float x => x.text
  | .str s => s.quoted
  | .arr items => "[" ++ displayItems items ++ "]"
  | .obj fields => "\x7b" ++ displayFields fields ++ "\x7d"

/-- The items of an array inside a message. -/
def displayItems : List Json → String
  | [] => ""
  | [v] => display v
  | v :: vs => display v ++ ", " ++ displayItems vs

/-- The members of an object inside a message. -/
def displayFields : List (LooseText × Json) → String
  | [] => ""
  | [(k, v)] => k.quoted ++ ": " ++ display v
  | (k, v) :: fs => k.quoted ++ ": " ++ display v ++ ", " ++ displayFields fs

end

end DeclLint.Json
