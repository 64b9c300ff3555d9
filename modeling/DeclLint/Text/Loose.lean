/-
DeclLint/Text/Loose.lean

Loose texts, in which surrogates may stand alone.  An escape in a JSON string
can name half of a surrogate pair without the other half; such a string is a
list of code points but no string of characters.  `ofString` embeds the
strings, and `toString?` is its inverse where there is one.
-/
import DeclLint.Text.Quoted

namespace DeclLint

namespace Text

/-- A code point: a character, or a surrogate that stands alone, counted from U+D800. -/
inductive CodePoint where
  | char (c : Char)
  | surrogate (index : Fin 0x800)
deriving DecidableEq, Repr

namespace CodePoint

/-- The number of a code point. -/
def toNat : CodePoint → Nat
  | .char c => c.toNat
  | .surrogate i => 0xD800 + i.val

/-- The character that a code point is. -/
def toChar? : CodePoint → Option Char
  | .char c => some c
  | .surrogate _ => none

/-- The code point that a code unit of sixteen bits stands for alone. -/
def ofUnit (n : Nat) : CodePoint :=
  if h : 0xD800 ≤ n ∧ n < 0xE000 then .surrogate ⟨n - 0xD800, by omega⟩ else .char (Char.ofNat n)

/-- The escape of a surrogate; a character stands for itself. -/
def escaped : CodePoint → List Char
  | .char c => [c]
  | .surrogate i => ['\\', 'u'] ++ hex 4 (0xD800 + i.val)

/-- A code point inside a quotation with the given mark. -/
def quoted (mark : Char) : CodePoint → List Char
  | .char c => quoteChar mark c
  | p => p.escaped

/-- A surrogate that stands for a single byte in the name of a file. -/
def isByte : CodePoint → Bool
  | .char _ => false
  | .surrogate i => decide (0xDC80 ≤ 0xD800 + i.val) && decide (0xD800 + i.val ≤ 0xDCFF)

end CodePoint

end Text

/-- A text in which surrogates may stand alone. -/
abbrev LooseText := List Text.CodePoint

namespace LooseText

/-- A string as a loose text. -/
def ofString (s : String) : LooseText :=
  s.toList.map .char

/-- The string that a text is, if no surrogate stands alone in it. -/
def toString? (t : LooseText) : Option String :=
  (t.mapM Text.CodePoint.toChar?).map String.ofList

/-- The text with an escape for every surrogate that stands alone. -/
def escaped (t : LooseText) : String :=
  String.ofList (t.flatMap Text.CodePoint.escaped)

/-- The quotation of a text. -/
def quoted (t : LooseText) : String :=
  let mark := Text.quoteMark (t.filterMap Text.CodePoint.toChar?)
  String.ofList ([mark] ++ t.flatMap (Text.CodePoint.quoted mark) ++ [mark])

/-- The text can be part of a file's name: every surrogate in it stands for a byte. -/
def isFileName (t : LooseText) : Bool :=
  t.all fun p => p.toChar?.isSome || p.isByte

theorem mapM_toChar?_map_char (cs : List Char) :
    (cs.map Text.CodePoint.char).mapM Text.CodePoint.toChar? = some cs := by
  induction cs with
  | nil => rfl
  | cons c cs ih => simp [List.mapM_cons, Text.CodePoint.toChar?, ih]

@[simp] theorem toString?_ofString (s : String) : (ofString s).toString? = some s := by
  rw [toString?, ofString, mapM_toChar?_map_char, Option.map_some, String.ofList_toList]

@[simp] theorem escaped_ofString (s : String) : (ofString s).escaped = s := by
  have h : ∀ cs : List Char, (cs.map Text.CodePoint.char).flatMap Text.CodePoint.escaped = cs := by
    intro cs
    induction cs with
    | nil => rfl
    | cons c cs ih => simpa [Text.CodePoint.escaped] using ih
  rw [escaped, ofString, h, String.ofList_toList]

theorem ofString_injective {s t : String} (h : ofString s = ofString t) : s = t :=
  Option.some.inj (by rw [← toString?_ofString s, h, toString?_ofString])

theorem eq_ofString {t : LooseText} {s : String} (h : t.toString? = some s) :
    t = ofString s := by
  have hchars : ∀ {t : LooseText} {cs : List Char},
      t.mapM Text.CodePoint.toChar? = some cs → t = cs.map .char := by
    intro t
    induction t with
    | nil =>
      intro cs h
      obtain rfl := Option.some.inj h
      rfl
    | cons p t ih =>
      intro cs h
      rw [List.mapM_cons] at h
      obtain ⟨c, hc, h⟩ := Option.bind_eq_some_iff.mp h
      obtain ⟨cs', hcs, h⟩ := Option.bind_eq_some_iff.mp h
      obtain rfl := Option.some.inj h
      rw [List.map_cons, ← ih hcs]
      cases p with
      | char c' => rw [Option.some.inj hc]
      | surrogate i => cases hc
  obtain ⟨cs, hcs, rfl⟩ := Option.map_eq_some_iff.mp h
  rw [ofString, String.toList_ofList]
  exact hchars hcs

end LooseText

end DeclLint
