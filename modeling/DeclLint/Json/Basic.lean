/-
DeclLint/Json/Basic.lean

JSON values.  Integers are unbounded, other numbers are 64-bit floats,
objects keep the order of their keys, and surrogates may stand alone in
strings and keys.
-/
import DeclLint.Decimal.Binary64
import DeclLint.Table
import DeclLint.Text.Loose

namespace DeclLint

/-- A JSON value. -/
inductive Json where
  | null
  | bool (b : Bool)
  | int (n : Int)
  | float (x : Decimal.Binary64)
  | str (s : LooseText)
  | arr (items : List Json)
  | obj (fields : List (LooseText × Json))
deriving Repr, Inhabited

namespace Json

/-- A string as a value. -/
def text (s : String) : Json :=
  .str (LooseText.ofString s)

/-- An object with strings as keys. -/
def object (fields : List (String × Json)) : Json :=
  .obj (fields.map fun e => (LooseText.ofString e.1, e.2))

/-- The value of a key in a list of fields. -/
def valueOf? (fields : List (LooseText × Json)) (key : String) : Option Json :=
  Table.get? fields (LooseText.ofString key)

/-- The value of a key of an object. -/
def field? (key : String) : Json → Option Json
  | .obj fields => valueOf? fields key
  | _ => none

/-- The value of a key, `null` where it is missing. -/
def fieldOrNull (key : String) (v : Json) : Json :=
  (v.field? key).getD .null

/-- The text of a string value. -/
def loose? : Json → Option LooseText
  | .str s => some s
  | _ => none

/-- The string that a value is. -/
def str? (v : Json) : Option String :=
  v.loose?.bind LooseText.toString?

/-- The texts of an array of strings. -/
def looseTexts? : Json → Option (List LooseText)
  | .arr items => items.mapM loose?
  | _ => none

@[simp] theorem str?_text (s : String) : (text s).str? = some s := by
  simp [text, str?, loose?]

end Json

end DeclLint
