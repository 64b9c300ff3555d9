/-
DeclLint/Limit.lean

Limits.  A numeral of too many digits is neither read nor written, neither the
segments of a path nor a whole path may be too long, and nothing is followed
into too deep a nesting.  How deep that is depends on how deeply nested the
caller is already, so the surroundings of a run tell it (`Room`).
-/

namespace DeclLint

/-- The number of digits that a numeral may have. -/
def digitLimit : Nat := 4300

/-- The depth of nesting that a run usually has room for. -/
def usualDepth : Nat := 985

/-- How much room there is for things that are nested in each other. -/
structure Room where
  /-- The arrays and objects of a document. -/
  documents : Nat := usualDepth
  /-- The parts of a pattern that is matched. -/
  patterns : Nat := usualDepth
  /-- Configurations that extend each other. -/
  chains : Nat := usualDepth
  /-- Directories that are searched. -/
  directories : Nat := usualDepth
deriving DecidableEq, Repr

/-- The number of bytes that a segment of a path may have. -/
def segmentLimit : Nat := 255

/-- The number of bytes that a path may have. -/
def pathLimit : Nat := 4095

/-- What is nested. -/
inductive Nesting where
  | array
  | object
  | pattern
  | chain
  | directory
deriving DecidableEq, Repr

/-- What goes beyond a limit. -/
inductive Excess where
  /-- A numeral with the given number of digits. -/
  | digits (count : Nat)
  /-- A nesting that is too deep. -/
  | nesting (parts : Nesting)
  /-- A whole number with too many digits to be written. -/
  | writing
  /-- A whole number that no binary one comes near. -/
  | magnitude
deriving DecidableEq, Repr

/-- The explanation of an excess. -/
def Excess.message : Excess → String
  | .digits count =>
    "Exceeds the limit (" ++ toString digitLimit ++ " digits) for integer string conversion: " ++
      "value has " ++ toString count ++
      " digits; use sys.set_int_max_str_digits() to increase the limit"
  | .writing =>
    "Exceeds the limit (" ++ toString digitLimit ++ " digits) for integer string conversion; " ++
      "use sys.set_int_max_str_digits() to increase the limit"
  | .magnitude => "int too large to convert to float"
  | .nesting .array =>
    "maximum recursion depth exceeded while decoding a JSON array from a unicode string"
  | .nesting .object =>
    "maximum recursion depth exceeded while decoding a JSON object from a unicode string"
  | .nesting .pattern => "maximum recursion depth exceeded in comparison"
  | .nesting .chain => "maximum recursion depth exceeded while calling a Python object"
  | .nesting .directory => "maximum recursion depth exceeded"

/-- The text of a whole number. -/
def wholeText (n : Int) : Except Excess String :=
  if digitLimit < (toString n.natAbs).length then .error .writing else .ok (toString n)

end DeclLint
