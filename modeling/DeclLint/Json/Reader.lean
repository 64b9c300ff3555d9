/-
DeclLint/Json/Reader.lean

Reading JSON.  The grammar is the standard one with three additions: the
names `NaN`, `Infinity` and `-Infinity` are numbers, a repeated key keeps its
first place and its last value, and an escape may name half of a surrogate
pair alone.  The first fault found from left to right is reported with its
place.  Integers with too many digits and too deep a nesting end the reading
where they are met.

Every reading function returns what is left of the text together with the
fact that it is shorter, which is why reading ends.
-/
import DeclLint.Json.Basic
import DeclLint.Limit
import DeclLint.Text.Position
import DeclLint.Text.Search

namespace DeclLint.Json

/-- What is wrong with a text that is no JSON. -/
inductive FaultKind where
  | value
  | propertyName
  | colon
  | comma
  | extraData
  | unterminated
  | control
  | escape
  | unicodeEscape
  | byteOrderMark
deriving Repr, DecidableEq

/-- What ends the reading of a text. -/
inductive Fault where
  /-- A fault, with the number of characters from its place to the end of the text. -/
  | malformed (kind : FaultKind) (left : Nat)
  /-- A limit that is exceeded. -/
  | excess (e : Excess)
deriving Repr, DecidableEq

/-- What a reading function leaves of the text `s`. -/
abbrev Rest (s : List Char) := { r : List Char // r.length < s.length }

/-- A shorter rest of a shorter text. -/
def Rest.ofShorter {s t : List Char} (h : t.length < s.length) (r : Rest t) : Rest s :=
  ⟨r.1, Nat.lt_trans r.2 h⟩

/-! ### Blanks -/

/-- The blanks of JSON. -/
def isSpace (c : Char) : Bool :=
  c = ' ' || c = '\t' || c = '\n' || c = '\r'

/-- The text from its first character that is no blank. -/
def skipSpace (s : List Char) : List Char :=
  s.dropWhile isSpace

theorem length_skipSpace_le (s : List Char) : (skipSpace s).length ≤ s.length :=
  (List.dropWhile_sublist _).length_le

/-! ### Strings -/

/-- The value of a hexadecimal digit. -/
def hexValue? (c : Char) : Option Nat :=
  if '0' ≤ c ∧ c ≤ '9' then some (c.toNat - '0'.toNat)
  else if 'a' ≤ c ∧ c ≤ 'f' then some (c.toNat - 'a'.toNat + 10)
  else if 'A' ≤ c ∧ c ≤ 'F' then some (c.toNat - 'A'.toNat + 10)
  else none

/-- The number that four hexadecimal digits write. -/
def hex4? (a b c d : Char) : Option Nat := do
  let a ← hexValue? a
  let b ← hexValue? b
  let c ← hexValue? c
  let d ← hexValue? d
  return ((a * 16 + b) * 16 + c) * 16 + d

/-- The character that a letter stands for after a backslash. -/
def escaped? : Char → Option Char
  | '"' => some '"'
  | '\\' => some '\\'
  | '/' => some '/'
  | 'b' => some '\x08'
  | 'f' => some '\x0c'
  | 'n' => some '\n'
  | 'r' => some '\r'
  | 't' => some '\t'
  | _ => none

/-- A code unit that opens a surrogate pair. -/
def isHighSurrogate (n : Nat) : Bool :=
  decide (0xD800 ≤ n) && decide (n ≤ 0xDBFF)

/-- A code unit that closes a surrogate pair. -/
def isLowSurrogate (n : Nat) : Bool :=
  decide (0xDC00 ≤ n) && decide (n ≤ 0xDFFF)

/-- The character of a surrogate pair. -/
def joinSurrogates (hi lo : Nat) : Char :=
  Char.ofNat (0x10000 + (hi - 0xD800) * 0x400 + (lo - 0xDC00))

/-- The second half of a surrogate pair, if the text goes on with an escape for one: the unit
and what follows.  Something has to follow, and digits that are not hexadecimal are a fault. -/
def lowHalf (s : List Char) : Except Fault (Option (Nat × Rest s)) :=
  match s with
  | '\\' :: 'u' :: a :: b :: c :: d :: x :: r =>
    match hex4? a b c d with
    | none => .error (.malformed .unicodeEscape (r.length + 6))
    | some n =>
      if isLowSurrogate n then .ok (some (n, ⟨x :: r, by simp⟩)) else .ok none
  | _ => .ok none

/-- What follows a backslash and `u`: a code point and the rest.  The four digits may not end
the text. -/
def unicodeEscape (s : List Char) : Except Fault (Text.CodePoint × Rest s) :=
  match s with
  | a :: b :: c :: d :: x :: r =>
    match hex4? a b c d with
    | none => .error (.malformed .unicodeEscape (r.length + 6))
    | some n =>
      if isHighSurrogate n then
        match lowHalf (x :: r) with
        | .error f => .error f
        | .ok (some (lo, r₁)) => .ok (.char (joinSurrogates n lo), r₁.ofShorter (by simp))
        | .ok none => .ok (.ofUnit n, ⟨x :: r, by simp⟩)
      else .ok (.ofUnit n, ⟨x :: r, by simp⟩)
  | s => .error (.malformed .unicodeEscape (s.length + 1))

/-- The rest of a string after its opening quote, which stood `opened` characters before the
end of the text. -/
def stringBody (opened : Nat) (s : List Char) : Except Fault (LooseText × Rest s) :=
  match s with
  | [] => .error (.malformed .unterminated opened)
  | '"' :: r => .ok ([], ⟨r, by simp⟩)
  | '\\' :: 'u' :: r =>
    match unicodeEscape r with
    | .error f => .error f
    | .ok (c, r₁) =>
      match stringBody opened r₁.1 with
      | .error f => .error f
      | .ok (cs, r₂) =>
        .ok (c :: cs, r₂.ofShorter (Nat.lt_trans r₁.2 (by simp only [List.length_cons]; omega)))
  | '\\' :: e :: r =>
    match escaped? e with
    | none => .error (.malformed .escape (r.length + 2))
    | some c =>
      match stringBody opened r with
      | .error f => .error f
      | .ok (cs, r₁) =>
        .ok (.char c :: cs, r₁.ofShorter (by simp only [List.length_cons]; omega))
  | ['\\'] => .error (.malformed .unterminated opened)
  | c :: r =>
    if c.toNat ≤ 0x1F then .error (.malformed .control (r.length + 1))
    else
      match stringBody opened r with
      | .error f => .error f
      | .ok (cs, r₁) => .ok (.char c :: cs, r₁.ofShorter (by simp))
termination_by s.length
decreasing_by
  · simp only [List.length_cons]; have := r₁.2; omega
  · simp only [List.length_cons]; omega
  · simp

/-! ### Numbers -/

/-- A digit of a JSON number. -/
def isDigit (c : Char) : Bool :=
  decide ('0' ≤ c) && decide (c ≤ '9')

/-- The number that a row of digits writes. -/
def digitsValue (ds : List Char) : Nat :=
  ds.foldl (fun n c => 10 * n + (c.toNat - '0'.toNat)) 0

/-- A fraction: a point and at least one digit.  Without one nothing is taken. -/
def fraction (s : List Char) : List Char × List Char :=
  match s with
  | '.' :: r =>
    if (r.takeWhile isDigit).isEmpty then ([], s)
    else (r.takeWhile isDigit, r.dropWhile isDigit)
  | _ => ([], s)

/-- The exponent behind its letter: an optional sign and at least one digit. -/
def signedDigits? (s : List Char) : Option (Int × List Char) :=
  let (negative, r) :=
    match s with
    | '-' :: r => (true, r)
    | '+' :: r => (false, r)
    | r => (false, r)
  let ds := r.takeWhile isDigit
  if ds.isEmpty then none
  else
    let n : Int := digitsValue ds
    some (if negative then -n else n, r.dropWhile isDigit)

/-- An exponent.  Without one nothing is taken. -/
def exponent (s : List Char) : Option Int × List Char :=
  match s with
  | c :: r =>
    if c = 'e' || c = 'E' then
      match signedDigits? r with
      | some (e, r₁) => (some e, r₁)
      | none => (none, s)
    else (none, s)
  | [] => (none, [])

/-- The whole part of a number: a zero alone, or digits that start with another one. -/
def wholePart (s : List Char) : Option (List Char × List Char) :=
  match s with
  | '0' :: r => some (['0'], r)
  | c :: r => if isDigit c then some (c :: r.takeWhile isDigit, r.dropWhile isDigit) else none
  | [] => none

/-- A number without its sign: its value and the rest. -/
def unsigned (negative : Bool) (s : List Char) : Option (Json × List Char) :=
  match wholePart s with
  | none => none
  | some (whole, r) =>
    let (part, r₁) := fraction r
    let (e, r₂) := exponent r₁
    if part.isEmpty && e.isNone then
      let n : Int := digitsValue whole
      some (.int (if negative then -n else n), r₂)
    else
      let x := Decimal.Binary64.ofDecimal negative (digitsValue (whole ++ part))
        (e.getD 0 - part.length)
      some (.float x, r₂)

theorem length_fraction_le (s : List Char) : (fraction s).2.length ≤ s.length := by
  unfold fraction
  split
  · next r =>
    split
    · simp
    · have := (List.dropWhile_sublist (l := r) isDigit).length_le
      simp
      omega
  · simp

theorem length_signedDigits?_le {s r : List Char} {e : Int} (h : signedDigits? s = some (e, r)) :
    r.length ≤ s.length := by
  unfold signedDigits? at h
  split at h
  next negative t heq =>
  have ht : t.length ≤ s.length := by
    split at heq <;> cases heq <;> simp
  simp only at h
  split at h
  · cases h
  · cases h
    exact Nat.le_trans (List.dropWhile_sublist (l := t) isDigit).length_le ht

theorem length_exponent_le (s : List Char) : (exponent s).2.length ≤ s.length := by
  unfold exponent
  split
  · next c r =>
    split
    · split
      · next h => exact Nat.le_trans (length_signedDigits?_le h) (by simp)
      · simp
    · simp
  · simp

theorem length_wholePart_lt {s ds r : List Char} (h : wholePart s = some (ds, r)) :
    r.length < s.length := by
  unfold wholePart at h
  split at h
  · cases h
    simp
  · next c t _ =>
    split at h
    · cases h
      have := (List.dropWhile_sublist (l := t) isDigit).length_le
      simp
      omega
    · cases h
  · cases h

theorem length_unsigned_lt {negative : Bool} {s r : List Char} {v : Json}
    (h : unsigned negative s = some (v, r)) : r.length < s.length := by
  unfold unsigned at h
  split at h
  · cases h
  · next whole t hw =>
    have h₁ := length_wholePart_lt hw
    have h₂ := length_fraction_le t
    have h₃ := length_exponent_le (fraction t).2
    simp only at h
    split at h <;> cases h <;> omega

/-- A number without its sign, where what is left is known to be shorter. -/
def unsignedRest (negative : Bool) (s : List Char) : Option (Json × Rest s) :=
  match h : unsigned negative s with
  | some (v, r) => some (v, ⟨r, length_unsigned_lt h⟩)
  | none => none

/-- A number with its sign. -/
def signed (s : List Char) : Option (Json × Rest s) :=
  match s with
  | '-' :: r => (unsignedRest true r).map fun p => (p.1, p.2.ofShorter (by simp))
  | s => unsignedRest false s

/-- A number, or a fault at its first character.  An integer is one without fraction and exponent,
and the limit on digits is for those, if there is one. -/
def number (limit : Option Nat) (s : List Char) : Except Fault (Json × Rest s) :=
  match signed s with
  | some (.int n, r) =>
    let digits := s.length - r.1.length - (if s.head? = some '-' then 1 else 0)
    if limit.any (· < digits) then .error (.excess (.digits digits)) else .ok (.int n, r)
  | some p => .ok p
  | none => .error (.malformed .value s.length)

/-! ### Values -/

/-- The fixed names and the values they stand for. -/
def names : List (List Char × Json) := [
  ("null".toList, .null), ("true".toList, .bool true), ("false".toList, .bool false),
  ("NaN".toList, .float .nan), ("Infinity".toList, .float (.infinite false)),
  ("-Infinity".toList, .float (.infinite true))]

/-- The fixed name that a text starts with. -/
def name? (s : List Char) : Option (Json × Rest s) :=
  names.findSome? fun e =>
    match h : Text.afterPrefix? e.1 s with
    | some r =>
      if hw : 0 < e.1.length then
        some (e.2, ⟨r, by rw [Text.afterPrefix?_eq_some_iff.1 h]; simp; omega⟩)
      else none
    | none => none

/-- The text after a character that follows blanks is shorter. -/
theorem length_lt_of_skipSpace {r t : List Char} {c : Char} (h : skipSpace r = c :: t) :
    t.length < r.length := by
  have := length_skipSpace_le r
  rw [h] at this
  exact this

/-- The rest after a given character, if that is what stands after the blanks. -/
def next? (c : Char) (s : List Char) : Option (Rest s) :=
  match h : skipSpace s with
  | x :: t => if x = c then some ⟨t, length_lt_of_skipSpace h⟩ else none
  | [] => none

mutual

/-- A value at the very start of the text, where `depth` more arrays and objects may be opened
inside each other. -/
def value (limit : Option Nat) (depth : Nat) (s : List Char) : Except Fault (Json × Rest s) :=
  match s with
  | '"' :: r =>
    match stringBody (r.length + 1) r with
    | .error f => .error f
    | .ok (cs, t) => .ok (.str cs, t.ofShorter (by simp))
  | '{' :: r =>
    if depth = 0 then .error (.excess (.nesting .object))
    else
      match next? '}' r with
      | some t => .ok (.obj [], t.ofShorter (by simp))
      | none =>
        have h : (skipSpace r).length < r.length + 1 := Nat.lt_succ_of_le (length_skipSpace_le r)
        match members limit (depth - 1) (skipSpace r) with
        | .error f => .error f
        | .ok (fields, t) => .ok (.obj (Table.ofPairs fields), t.ofShorter h)
  | '[' :: r =>
    if depth = 0 then .error (.excess (.nesting .array))
    else
      match next? ']' r with
      | some t => .ok (.arr [], t.ofShorter (by simp))
      | none =>
        have h : (skipSpace r).length < r.length + 1 := Nat.lt_succ_of_le (length_skipSpace_le r)
        match elements limit (depth - 1) (skipSpace r) with
        | .error f => .error f
        | .ok (items, t) => .ok (.arr items, t.ofShorter h)
  | s =>
    match name? s with
    | some (v, r) => .ok (v, r)
    | none => number limit s
termination_by 2 * s.length
decreasing_by all_goals (simp; omega)

/-- The elements of an array from the first one to the closing bracket. -/
def elements (limit : Option Nat) (depth : Nat) (s : List Char) :
    Except Fault (List Json × Rest s) :=
  match value limit depth s with
  | .error f => .error f
  | .ok (v, r) =>
    match next? ']' r.1 with
    | some t => .ok ([v], t.ofShorter r.2)
    | none =>
      match next? ',' r.1 with
      | none => .error (.malformed .comma (skipSpace r.1).length)
      | some t =>
        have h : (skipSpace t.1).length < s.length :=
          Nat.lt_of_le_of_lt (length_skipSpace_le t.1) (Nat.lt_trans t.2 r.2)
        match elements limit depth (skipSpace t.1) with
        | .error f => .error f
        | .ok (vs, t) => .ok (v :: vs, t.ofShorter h)
termination_by 2 * s.length + 1

/-- The members of an object from the first key to the closing brace. -/
def members (limit : Option Nat) (depth : Nat) (s : List Char) :
    Except Fault (List (LooseText × Json) × Rest s) :=
  match s with
  | '"' :: k =>
    match stringBody (k.length + 1) k with
    | .error f => .error f
    | .ok (key, r) =>
      match next? ':' r.1 with
      | none => .error (.malformed .colon (skipSpace r.1).length)
      | some r₁ =>
        have h₁ : (skipSpace r₁.1).length < k.length :=
          Nat.lt_of_le_of_lt (length_skipSpace_le r₁.1) (Nat.lt_trans r₁.2 r.2)
        match value limit depth (skipSpace r₁.1) with
        | .error f => .error f
        | .ok (v, r₂) =>
          have h₂ : r₂.1.length < k.length := Nat.lt_trans r₂.2 h₁
          match next? '}' r₂.1 with
          | some t => .ok ([(key, v)], t.ofShorter (Nat.lt_succ_of_lt h₂))
          | none =>
            match next? ',' r₂.1 with
            | none => .error (.malformed .comma (skipSpace r₂.1).length)
            | some t =>
              have h₃ : (skipSpace t.1).length < k.length :=
                Nat.lt_of_le_of_lt (length_skipSpace_le t.1) (Nat.lt_trans t.2 h₂)
              match members limit depth (skipSpace t.1) with
              | .error f => .error f
              | .ok (fields, t) =>
                .ok ((key, v) :: fields, t.ofShorter (Nat.lt_succ_of_lt h₃))
  | s => .error (.malformed .propertyName s.length)
termination_by 2 * s.length + 1
decreasing_by all_goals (simp; omega)

end

/-! ### Whole texts -/

/-- A whole text: blanks, a value, blanks, and nothing after them. -/
def document (limit : Option Nat) (depth : Nat) (s : List Char) : Except Fault Json :=
  if s.head? = some '\uFEFF' then .error (.malformed .byteOrderMark s.length)
  else
    match value limit depth (skipSpace s) with
    | .error f => .error f
    | .ok (v, r) =>
      let t := skipSpace r.1
      if t.isEmpty then .ok v else .error (.malformed .extraData t.length)

/-- A fault and its place in the text: the offset, and the line and column from one. -/
structure Misspelling where
  kind : FaultKind
  offset : Nat
  line : Nat
  column : Nat
deriving Repr, DecidableEq

/-- Why a text is not read. -/
inductive ReadError where
  /-- The text is no JSON. -/
  | malformed (m : Misspelling)
  /-- A limit is exceeded. -/
  | excess (e : Excess)
deriving Repr, DecidableEq

/-- A fault with its place in the text that was read. -/
def Fault.locate (s : List Char) : Fault → ReadError
  | .malformed kind left =>
    let offset := s.length - left
    let p := Text.position s offset
    .malformed ⟨kind, offset, p.line + 1, p.character.toNat + 1⟩
  | .excess e => .excess e

/-- Reads a text as JSON with room for some nesting, and with a limit on the digits of integers or
without one. -/
def readWithin (limit : Option Nat) (depth : Nat) (s : List Char) : Except ReadError Json :=
  (document limit depth s).mapError (·.locate s)

/-- Reads a text as JSON with room for some nesting. -/
def read (depth : Nat) (s : List Char) : Except ReadError Json :=
  readWithin (some digitLimit) depth s

/-- What a fault is called. -/
def FaultKind.text : FaultKind → String
  | .value => "Expecting value"
  | .propertyName => "Expecting property name enclosed in double quotes"
  | .colon => "Expecting ':' delimiter"
  | .comma => "Expecting ',' delimiter"
  | .extraData => "Extra data"
  | .unterminated => "Unterminated string starting at"
  | .control => "Invalid control character at"
  | .escape => "Invalid \\escape"
  | .unicodeEscape => "Invalid \\uXXXX escape"
  | .byteOrderMark => "Unexpected UTF-8 BOM (decode using utf-8-sig)"

/-- A fault with its place. -/
def Misspelling.message (e : Misspelling) : String :=
  e.kind.text ++ ": line " ++ toString e.line ++ " column " ++ toString e.column ++
    " (char " ++ toString e.offset ++ ")"

/-- The explanation of what ended the reading. -/
def ReadError.message : ReadError → String
  | .malformed m => m.message
  | .excess e => e.message

end DeclLint.Json
