/-
DeclLint/Proofs/Json/Scalar.lean

Strings and integers are read as what they were written for.  A string is read one
character after the other (`reads_stringBody`), and each character may be written in four
ways, of which the pair of two escapes for one beyond the basic plane is the only one that
looks ahead (`EscapedAs`).  An integer is read up to its last digit, whatever may follow a
value that was written, unless it has more digits than a limit allows (`reads_number`).

The reading functions return what is left together with the fact that it is shorter;
`Reads` says that, so that no later proof has to look into it.
-/
import DeclLint.Json.Printer
import DeclLint.Json.Reader

namespace DeclLint.Json

/-- A reading function has taken `a` from a text and left `r`. -/
def Reads {α : Type} {s : List Char} (result : Except Fault (α × Rest s)) (a : α)
    (r : List Char) : Prop :=
  ∃ h : r.length < s.length, result = .ok (a, ⟨r, h⟩)

/-- Nothing is taken from the empty text. -/
theorem Reads.exists_cons {α : Type} {s r : List Char} {result : Except Fault (α × Rest s)} {a : α}
    (h : Reads result a r) : ∃ c t, s = c :: t := by
  obtain ⟨hlt, -⟩ := h
  exact List.exists_cons_of_length_pos (Nat.zero_lt_of_lt hlt)

/-- A reading function takes one thing only. -/
theorem Reads.unique {α : Type} {s r t : List Char} {result : Except Fault (α × Rest s)} {a b : α}
    (ha : Reads result a r) (hb : Reads result b t) : a = b ∧ r = t := by
  obtain ⟨hr, ha⟩ := ha
  obtain ⟨ht, hb⟩ := hb
  obtain ⟨hab, hrest⟩ := Prod.mk.inj (Except.ok.inj (ha.symm.trans hb))
  exact ⟨hab, congrArg Subtype.val hrest⟩

variable {opened : Nat} {r s t : List Char} {cs : LooseText} {c : Char}

/-! ### Escapes -/

theorem hexValue?_hexDigit : ∀ d < 16, hexValue? (Text.hexDigit d) = some d := by
  decide +kernel

/-- The digits of an escape. -/
theorem hex_four (n : Nat) : Text.hex 4 n =
    [Text.hexDigit (n / 16 / 16 / 16 % 16), Text.hexDigit (n / 16 / 16 % 16),
      Text.hexDigit (n / 16 % 16), Text.hexDigit (n % 16)] := rfl

theorem hex4?_hexDigit {n : Nat} (h : n < 0x10000) :
    hex4? (Text.hexDigit (n / 16 / 16 / 16 % 16)) (Text.hexDigit (n / 16 / 16 % 16))
      (Text.hexDigit (n / 16 % 16)) (Text.hexDigit (n % 16)) = some n := by
  rw [hex4?, hexValue?_hexDigit _ (by omega), hexValue?_hexDigit _ (by omega),
    hexValue?_hexDigit _ (by omega), hexValue?_hexDigit _ (by omega)]
  simp only [Option.bind_eq_bind, Option.bind_some]
  exact congrArg some (by omega)

theorem reads_unicodeEscape {n : Nat} (h : n < 0x10000) (hn : isHighSurrogate n = false) (x : Char)
    (r : List Char) :
    Reads (unicodeEscape (Text.hex 4 n ++ x :: r)) (.ofUnit n) (x :: r) := by
  rw [hex_four]
  refine ⟨by simp, ?_⟩
  simp [unicodeEscape, hex4?_hexDigit h, hn]

theorem isHighSurrogate_iff {n : Nat} : isHighSurrogate n = true ↔ 0xD800 ≤ n ∧ n ≤ 0xDBFF := by
  rw [isHighSurrogate, Bool.and_eq_true, decide_eq_true_iff, decide_eq_true_iff]

theorem isLowSurrogate_iff {n : Nat} : isLowSurrogate n = true ↔ 0xDC00 ≤ n ∧ n ≤ 0xDFFF := by
  rw [isLowSurrogate, Bool.and_eq_true, decide_eq_true_iff, decide_eq_true_iff]

theorem lowHalf_unitEscape {n : Nat} (h : isLowSurrogate n = true) (x : Char) (r : List Char) :
    ∃ hlt, lowHalf (unitEscape n ++ x :: r) = .ok (some (n, ⟨x :: r, hlt⟩)) := by
  have hn := (isLowSurrogate_iff.mp h).2
  rw [unitEscape, hex_four]
  refine ⟨by simp, ?_⟩
  simp [lowHalf, hex4?_hexDigit (Nat.lt_of_le_of_lt hn (by decide)), h]

/-- Two escapes for the halves of a pair are read as one character. -/
theorem reads_surrogates {hi lo : Nat} (hhi : isHighSurrogate hi = true)
    (hlo : isLowSurrogate lo = true) (x : Char) (r : List Char) :
    Reads (unicodeEscape (Text.hex 4 hi ++ (unitEscape lo ++ x :: r)))
      (.char (joinSurrogates hi lo)) (x :: r) := by
  have hn : hi < 0x10000 := Nat.lt_of_le_of_lt (isHighSurrogate_iff.mp hhi).2 (by decide)
  obtain ⟨h, hlow⟩ := lowHalf_unitEscape hlo x r
  rw [hex_four]
  refine ⟨by simp; omega, ?_⟩
  simp only [unitEscape, List.cons_append, List.nil_append] at hlow ⊢
  simp [unicodeEscape, hex4?_hexDigit hn, hhi, hlow, Rest.ofShorter]

/-- A character is no surrogate. -/
theorem toNat_cases (c : Char) : c.toNat < 0xD800 ∨ 0xDFFF < c.toNat ∧ c.toNat < 0x110000 :=
  c.valid

theorem isHighSurrogate_toNat (c : Char) : isHighSurrogate c.toNat = false := by
  have := toNat_cases c
  refine Bool.eq_false_iff.mpr (mt isHighSurrogate_iff.mp ?_)
  omega

theorem ofUnit_toNat (c : Char) : Text.CodePoint.ofUnit c.toNat = .char c := by
  have := toNat_cases c
  rw [Text.CodePoint.ofUnit, dif_neg (by omega), Char.ofNat_toNat]

/-- The halves of the pair that a character beyond the basic plane is written as. -/
theorem joinSurrogates_toNat {c : Char} (hc : 0x10000 ≤ c.toNat) :
    joinSurrogates (0xD800 + (c.toNat - 0x10000) / 0x400)
      (0xDC00 + (c.toNat - 0x10000) % 0x400) = c := by
  rw [joinSurrogates, Nat.add_sub_cancel_left, Nat.add_sub_cancel_left, Nat.add_assoc,
    Nat.div_add_mod', Nat.add_sub_cancel' hc, Char.ofNat_toNat]

theorem isHighSurrogate_toNat_div (c : Char) :
    isHighSurrogate (0xD800 + (c.toNat - 0x10000) / 0x400) = true := by
  have := toNat_cases c
  exact isHighSurrogate_iff.mpr (by omega)

theorem isLowSurrogate_mod (n : Nat) : isLowSurrogate (0xDC00 + n % 0x400) = true :=
  isLowSurrogate_iff.mpr (by omega)

/-! ### Strings -/

theorem reads_stringBody_quote (opened : Nat) (r : List Char) :
    Reads (stringBody opened ('"' :: r)) [] r := by
  refine ⟨by simp, ?_⟩
  rw [stringBody]

theorem reads_stringBody_unit {p : Text.CodePoint} (hp : Reads (unicodeEscape s) p t)
    (h : Reads (stringBody opened t) cs r) :
    Reads (stringBody opened ('\\' :: 'u' :: s)) (p :: cs) r := by
  obtain ⟨hlt, hp⟩ := hp
  obtain ⟨hlt', h⟩ := h
  refine ⟨by simp; omega, ?_⟩
  rw [stringBody, hp]
  dsimp only
  rw [h]
  rfl

theorem reads_stringBody_short {x : Char} (hx : escaped? x = some c)
    (h : Reads (stringBody opened s) cs r) :
    Reads (stringBody opened ('\\' :: x :: s)) (.char c :: cs) r := by
  obtain ⟨hlt, h⟩ := h
  have hu : x ≠ 'u' := by
    rintro rfl
    cases hx
  refine ⟨by simp; omega, ?_⟩
  rw [stringBody.eq_def]
  simp [hx, h, Rest.ofShorter]

theorem reads_stringBody_plain (hquote : c ≠ '"') (hback : c ≠ '\\') (hc : 0x20 ≤ c.toNat)
    (h : Reads (stringBody opened s) cs r) :
    Reads (stringBody opened (c :: s)) (.char c :: cs) r := by
  obtain ⟨hlt, h⟩ := h
  have hcontrol : ¬ c.toNat ≤ 0x1F := by omega
  refine ⟨by simp; omega, ?_⟩
  rw [stringBody.eq_def]
  simp [hback, hcontrol, h, Rest.ofShorter]

/-- How a character is written: with a letter, as it is, with its number, or as a pair. -/
inductive EscapedAs (c : Char) : List Char → Prop
  | letter {x : Char} (hx : escaped? x = some c) (hascii : x.toNat < 0x80) : EscapedAs c ['\\', x]
  | plain (hquote : c ≠ '"') (hback : c ≠ '\\') (hrange : 0x20 ≤ c.toNat ∧ c.toNat ≤ 0x7E) :
    EscapedAs c [c]
  | unit (h : c.toNat < 0x10000) : EscapedAs c (unitEscape c.toNat)
  | pair (h : 0x10000 ≤ c.toNat) :
    EscapedAs c (unitEscape (0xD800 + (c.toNat - 0x10000) / 0x400) ++
      unitEscape (0xDC00 + (c.toNat - 0x10000) % 0x400))

theorem escapedAs_escapeChar (c : Char) : EscapedAs c (escapeChar c) := by
  have hletter : ∀ {x d : Char}, c = d → escaped? x = some d → x.toNat < 0x80 →
      EscapedAs c ['\\', x] := fun hc hx => .letter (hc ▸ hx)
  unfold escapeChar
  split
  · next hc => exact hletter hc rfl (by decide)
  split
  · next hc => exact hletter hc rfl (by decide)
  split
  · next hc => exact hletter hc rfl (by decide)
  split
  · next hc => exact hletter hc rfl (by decide)
  split
  · next hc => exact hletter hc rfl (by decide)
  split
  · next hc => exact hletter hc rfl (by decide)
  split
  · next hc => exact hletter hc rfl (by decide)
  split
  · next hquote hback _ _ _ _ _ hrange => exact .plain hquote hback hrange
  split
  · next hunit => exact .unit hunit
  · next hpair => exact .pair (Nat.le_of_not_lt hpair)

theorem unitEscape_append (n : Nat) (s : List Char) :
    unitEscape n ++ s = '\\' :: 'u' :: (Text.hex 4 n ++ s) := rfl

/-- A character is read back, however it is written. -/
theorem EscapedAs.reads_stringBody {w : List Char} (hc : EscapedAs c w)
    (h : Reads (stringBody opened s) cs r) :
    Reads (stringBody opened (w ++ s)) (.char c :: cs) r := by
  -- an escape with a number is only read where something follows it
  obtain ⟨x, s, rfl⟩ := h.exists_cons
  cases hc with
  | letter hx => exact reads_stringBody_short hx h
  | plain hquote hback hrange => exact reads_stringBody_plain hquote hback hrange.1 h
  | unit hsmall =>
    have hunit := reads_unicodeEscape hsmall (isHighSurrogate_toNat c) x s
    rw [ofUnit_toNat] at hunit
    exact reads_stringBody_unit hunit h
  | pair hlarge =>
    have hpair := reads_surrogates (isHighSurrogate_toNat_div c)
      (isLowSurrogate_mod (c.toNat - 0x10000)) x s
    rw [joinSurrogates_toNat hlarge] at hpair
    rw [List.append_assoc, unitEscape_append]
    exact reads_stringBody_unit hpair h

/-- **A string is read back.** -/
theorem reads_stringBody (opened : Nat) (t : String) (r : List Char) :
    Reads (stringBody opened ((LooseText.ofString t).flatMap escapePoint ++ '"' :: r))
      (LooseText.ofString t) r := by
  unfold LooseText.ofString
  induction t.toList with
  | nil => exact reads_stringBody_quote opened r
  | cons c cs ih =>
    rw [List.map_cons, List.flatMap_cons, List.append_assoc]
    exact (escapedAs_escapeChar c).reads_stringBody ih

/-! ### Numbers -/

theorem isDigit_digitChar : ∀ d < 10, isDigit (Nat.digitChar d) = true := by
  decide +kernel

theorem toNat_digitChar : ∀ d < 10, (Nat.digitChar d).toNat - '0'.toNat = d := by
  decide +kernel

theorem digitsValue_concat (ds : List Char) (d : Char) :
    digitsValue (ds ++ [d]) = 10 * digitsValue ds + (d.toNat - '0'.toNat) := by
  rw [digitsValue, List.foldl_append]
  rfl

/-- The decimal digits of a number are digits, they write the number, and a zero stands at their
start only alone. -/
theorem digits_toDigits (n : Nat) :
    (∀ c ∈ Nat.toDigits 10 n, isDigit c = true) ∧ digitsValue (Nat.toDigits 10 n) = n ∧
      ∃ c cs, Nat.toDigits 10 n = c :: cs ∧ (c = '0' → cs = []) := by
  induction n using Nat.strongRecOn with
  | ind n ih =>
    rcases Nat.lt_or_ge n 10 with hlt | hle
    · rw [Nat.toDigits_of_lt_base hlt]
      refine ⟨?_, ?_, _, [], rfl, fun _ => rfl⟩
      · exact List.forall_mem_singleton.mpr (isDigit_digitChar n hlt)
      · rw [← List.nil_append [_], digitsValue_concat, toNat_digitChar n hlt]
        exact Nat.zero_add n
    · obtain ⟨hdigits, hvalue, c, cs, hcs, hzero⟩ := ih (n / 10) (by omega)
      rw [Nat.toDigits_of_base_le (by decide) hle]
      refine ⟨?_, ?_, c, cs ++ [Nat.digitChar (n % 10)], by rw [hcs]; rfl, ?_⟩
      · rw [List.forall_mem_append]
        exact ⟨hdigits, List.forall_mem_singleton.mpr (isDigit_digitChar _ (by omega))⟩
      · rw [digitsValue_concat, hvalue, toNat_digitChar _ (by omega)]
        omega
      · -- a longer numeral that starts with a zero would write less than ten
        intro hc
        rw [hcs, hzero hc, hc] at hvalue
        have : n / 10 = 0 := hvalue.symm
        omega

/-- What may follow a value that was written: nothing, a comma or a line break. -/
def IsBehind (r : List Char) : Prop :=
  ∀ c ∈ r.head?, c = ',' ∨ c = '\n'

theorem takeWhile_isDigit_append {ds : List Char} (h : ∀ c ∈ ds, isDigit c = true)
    (hr : IsBehind r) : (ds ++ r).takeWhile isDigit = ds ∧ (ds ++ r).dropWhile isDigit = r := by
  have hstop : r.takeWhile isDigit = [] ∧ r.dropWhile isDigit = r := by
    cases r with
    | nil => exact ⟨rfl, rfl⟩
    | cons c r =>
      have hc : isDigit c = false := by
        rcases hr c rfl with rfl | rfl
        · rfl
        · rfl
      rw [List.takeWhile_cons, List.dropWhile_cons, hc]
      exact ⟨rfl, rfl⟩
  rw [List.takeWhile_append_of_pos h, List.dropWhile_append_of_pos h, hstop.1, hstop.2,
    List.append_nil]
  exact ⟨rfl, rfl⟩

theorem wholePart_toDigits (n : Nat) (hr : IsBehind r) :
    wholePart (Nat.toDigits 10 n ++ r) = some (Nat.toDigits 10 n, r) := by
  obtain ⟨hdigits, -, c, cs, hcs, hzero⟩ := digits_toDigits n
  rw [hcs] at hdigits ⊢
  obtain ⟨hc, hrest⟩ := List.forall_mem_cons.mp hdigits
  obtain ⟨htake, hdrop⟩ := takeWhile_isDigit_append hrest hr
  rw [List.cons_append]
  unfold wholePart
  split
  · next heq =>
    obtain ⟨rfl, rfl⟩ := List.cons.inj heq
    rw [hzero rfl]
    rfl
  · next heq =>
    obtain ⟨rfl, rfl⟩ := List.cons.inj heq
    rw [if_pos hc, htake, hdrop]
  · next heq => cases heq

theorem fraction_of_isBehind (hr : IsBehind r) : fraction r = ([], r) := by
  unfold fraction
  split
  · rcases hr '.' rfl with h | h
    · cases h
    · cases h
  · rfl

theorem exponent_of_isBehind (hr : IsBehind r) : exponent r = (none, r) := by
  unfold exponent
  split
  · next c r =>
    rcases hr c rfl with rfl | rfl
    · rfl
    · rfl
  · rfl

theorem unsigned_toDigits (negative : Bool) (n : Nat) (hr : IsBehind r) :
    unsigned negative (Nat.toDigits 10 n ++ r) =
      some (.int (if negative then -n else n), r) := by
  rw [unsigned, wholePart_toDigits n hr]
  simp only [fraction_of_isBehind hr, exponent_of_isBehind hr, (digits_toDigits n).2.1]
  rfl

variable {limit : Option Nat} {m n : Int}

/-- An integer has no more digits than a limit allows, if there is one. -/
def IsWithin (limit : Option Nat) (n : Int) : Prop :=
  ∀ l ∈ limit, (Nat.toDigits 10 n.natAbs).length ≤ l

theorem not_any_lt (h : IsWithin limit n) :
    limit.any (· < (Nat.toDigits 10 n.natAbs).length) = false := by
  cases limit with
  | none => rfl
  | some l => simpa using h l rfl

theorem unsignedRest_of_unsigned {negative : Bool} {v : Json}
    (h : unsigned negative s = some (v, r)) :
    unsignedRest negative s = some (v, ⟨r, length_unsigned_lt h⟩) := by
  unfold unsignedRest
  split
  · next h' =>
    rw [h] at h'
    obtain ⟨rfl, rfl⟩ := Prod.mk.inj (Option.some.inj h')
    rfl
  · next h' =>
    rw [h] at h'
    cases h'

theorem reads_number_minus (hu : unsigned true s = some (.int n, r))
    (hlimit : limit.any (· < s.length - r.length) = false) :
    Reads (number limit ('-' :: s)) (.int n) r := by
  have hcount : s.length + 1 - r.length - 1 = s.length - r.length := by omega
  refine ⟨Nat.lt_succ_of_lt (length_unsigned_lt hu), ?_⟩
  rw [number, signed, unsignedRest_of_unsigned hu]
  simp [Rest.ofShorter, hcount, hlimit]

theorem reads_number_plain (hs : s.head? ≠ some '-')
    (hu : unsigned false s = some (.int n, r))
    (hlimit : limit.any (· < s.length - r.length) = false) :
    Reads (number limit s) (.int n) r := by
  refine ⟨length_unsigned_lt hu, ?_⟩
  have hsigned : signed s = unsignedRest false s := by
    unfold signed
    split
    · exact absurd rfl hs
    · rfl
  rw [number, hsigned, unsignedRest_of_unsigned hu]
  simp [hs, hlimit]

/-- **An integer is read back**, if it has not too many digits. -/
theorem reads_number (h : IsWithin limit n) (hr : IsBehind r) :
    Reads (number limit (intText n ++ r)) (.int n) r := by
  have hlimit : limit.any (· < (Nat.toDigits 10 n.natAbs ++ r).length - r.length) = false := by
    rw [List.length_append, Nat.add_sub_cancel]
    exact not_any_lt h
  rcases Int.lt_or_le n 0 with hn | hn
  · have hu := unsigned_toDigits true n.natAbs hr
    rw [if_pos rfl, Int.ofNat_natAbs_of_nonpos (by omega), Int.neg_neg] at hu
    rw [intText, if_pos hn]
    exact reads_number_minus hu hlimit
  · have hu := unsigned_toDigits false n.natAbs hr
    rw [if_neg Bool.false_ne_true, Int.natAbs_of_nonneg hn] at hu
    rw [intText, if_neg (by omega)]
    refine reads_number_plain ?_ hu hlimit
    obtain ⟨hdigits, -, c, cs, hcs, -⟩ := digits_toDigits n.natAbs
    rw [hcs] at hdigits ⊢
    rintro ⟨⟩
    cases hdigits _ List.mem_cons_self

/-- An integer and what follows it are known from the whole text. -/
theorem intText_append_inj (hr : IsBehind r) (hs : IsBehind s)
    (h : intText m ++ r = intText n ++ s) : m = n ∧ r = s := by
  have hlimit : ∀ k, IsWithin none k := fun _ _ h => nomatch h
  have hm := reads_number (hlimit m) hr
  have hn := reads_number (hlimit n) hs
  rw [h] at hm
  obtain ⟨hmn, hrs⟩ := hm.unique hn
  exact ⟨Json.int.inj hmn, hrs⟩

/-- Integers are written in JSON as they are shown. -/
theorem toList_toString (n : Int) : (toString n).toList = intText n := by
  rw [Int.toString_eq_repr, intText]
  cases n with
  | ofNat n =>
    have hn : ¬ Int.ofNat n < 0 := Int.not_lt.mpr (Int.natCast_nonneg n)
    rw [if_neg hn]
    exact String.toList_ofList
  | negSucc n =>
    rw [if_pos (Int.negSucc_lt_zero n), Int.repr, String.toList_append]
    exact congrArg ('-' :: ·) String.toList_ofList

end DeclLint.Json
