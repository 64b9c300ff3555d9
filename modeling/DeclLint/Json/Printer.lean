/-
DeclLint/Json/Printer.lean

Writing JSON in ASCII.  Characters outside ASCII and control characters are
escaped, those beyond the basic plane as surrogate pairs, and surrogates that
stand alone.  `compact` writes
a value on one line without blanks, `indented` writes every item of a
non-empty array or object on a line of its own, two blanks further in.  An
integer with too many digits is not written, nor is a value that holds one.
-/
import DeclLint.Json.Basic
import DeclLint.Decimal.Shortest
import DeclLint.Limit

namespace DeclLint.Json

/-- The escape of one UTF-16 unit. -/
def unitEscape (n : Nat) : List Char :=
  ['\\', 'u'] ++ Text.hex 4 n

/-- One character inside a JSON string. -/
def escapeChar (c : Char) : List Char :=
  if c = '"' then ['\\', '"']
  else if c = '\\' then ['\\', '\\']
  else if c = '\n' then ['\\', 'n']
  else if c = '\r' then ['\\', 'r']
  else if c = '\t' then ['\\', 't']
  else if c = '\x08' then ['\\', 'b']
  else if c = '\x0c' then ['\\', 'f']
  else if 0x20 ≤ c.toNat ∧ c.toNat ≤ 0x7E then [c]
  else if c.toNat < 0x10000 then unitEscape c.toNat
  else
    unitEscape (0xD800 + (c.toNat - 0x10000) / 0x400) ++
      unitEscape (0xDC00 + (c.toNat - 0x10000) % 0x400)

/-- One code point inside a JSON string. -/
def escapePoint : Text.CodePoint → List Char
  | .char c => escapeChar c
  | p => unitEscape p.toNat

/-- A JSON string. -/
def stringText (s : LooseText) : List Char :=
  ['"'] ++ s.flatMap escapePoint ++ ['"']

/-- An integer. -/
def intText (n : Int) : List Char :=
  if n < 0 then '-' :: Nat.toDigits 10 n.natAbs else Nat.toDigits 10 n.natAbs

/-- A number that is no integer. -/
def floatText : Decimal.Binary64 → List Char
  | .nan => "NaN".toList
  | .infinite s => if s then "-Infinity".toList else "Infinity".toList
  | x => x.text.toList

/-- A value that has no parts. -/
def scalarText : Json → List Char
  | .null => "null".toList
  | .bool b => if b then "true".toList else "false".toList
  | .int n => intText n
  | .float x => floatText x
  | .str s => stringText s
  | _ => []

mutual

/-- A value on one line. -/
def compactText : Json → List Char
  | .arr items => ['['] ++ compactItems items ++ [']']
  | .obj fields => ['{'] ++ compactFields fields ++ ['}']
  | v => scalarText v

/-- The items of an array, separated by commas. -/
def compactItems : List Json → List Char
  | [] => []
  | [v] => compactText v
  | v :: vs => compactText v ++ [','] ++ compactItems vs

/-- The members of an object, separated by commas. -/
def compactFields : List (LooseText × Json) → List Char
  | [] => []
  | [(k, v)] => stringText k ++ [':'] ++ compactText v
  | (k, v) :: fs => stringText k ++ [':'] ++ compactText v ++ [','] ++ compactFields fs

end

/-- A line break and the indentation of the given depth. -/
def newLine (depth : Nat) : List Char :=
  '\n' :: List.replicate (2 * depth) ' '

mutual

/-- A value whose parts stand on lines of their own, inside `depth` others. -/
def indentedText (depth : Nat) : Json → List Char
  | .arr [] => ['[', ']']
  | .arr items => ['['] ++ indentedItems (depth + 1) items ++ newLine depth ++ [']']
  | .obj [] => ['{', '}']
  | .obj fields => ['{'] ++ indentedFields (depth + 1) fields ++ newLine depth ++ ['}']
  | v => scalarText v

/-- The items of an array, each on its own line. -/
def indentedItems (depth : Nat) : List Json → List Char
  | [] => []
  | [v] => newLine depth ++ indentedText depth v
  | v :: vs => newLine depth ++ indentedText depth v ++ [','] ++ indentedItems depth vs

/-- The members of an object, each on its own line. -/
def indentedFields (depth : Nat) : List (LooseText × Json) → List Char
  | [] => []
  | [(k, v)] => newLine depth ++ stringText k ++ [':', ' '] ++ indentedText depth v
  | (k, v) :: fs =>
    newLine depth ++ stringText k ++ [':', ' '] ++ indentedText depth v ++ [','] ++
      indentedFields depth fs

end

/-- A value on one line, as a string. -/
def compact (v : Json) : String :=
  String.ofList (compactText v)

/-- A value over several lines, as a string. -/
def indented (v : Json) : String :=
  String.ofList (indentedText 0 v)

mutual

/-- No integer in the value has too many digits to be written. -/
def isWritable : Json → Bool
  | .int n => (wholeText n).isOk
  | .arr items => areWritable items
  | .obj fields => areWritableFields fields
  | _ => true

/-- No integer in the values has too many digits to be written. -/
def areWritable : List Json → Bool
  | [] => true
  | v :: vs => isWritable v && areWritable vs

/-- No integer in the members has too many digits to be written. -/
def areWritableFields : List (LooseText × Json) → Bool
  | [] => true
  | (_, v) :: fs => isWritable v && areWritableFields fs

end

/-- A value over several lines, if its integers can be written. -/
def written (v : Json) : Except Excess String :=
  if isWritable v then .ok (indented v) else .error .writing

end DeclLint.Json
