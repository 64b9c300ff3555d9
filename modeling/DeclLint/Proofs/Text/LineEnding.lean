/-
DeclLint/Proofs/Text/LineEnding.lean

Other line endings.  Bytes in which every newline is replaced, by a carriage
return or by a carriage return and a newline, decode to the text in which this
has been done, in UTF-8 (`chars?_inBytes`) and in Latin-1
(`decodeLatin1_inBytes`).  For UTF-8 the reason is that neither of the two bytes
can continue a character, so that the rows that can be decoded are the same and
a row that cannot stays one.  Unifying the line endings undoes the replacement
where there was no carriage return before (`unifyNewlines_inText`).

How many bytes stand in front plays no part here: `chars?` forgets what a decoder
says of a fault.
-/
import DeclLint.Proofs.Text.Encoding

namespace DeclLint.Text

variable {b : UInt8} {bs : List UInt8} {c : Char} {cs : List Char} {n : Nat}

/-! ### Unified line endings -/

theorem unifyNewlines_cons_of_ne (h : c ≠ '\r') (cs : List Char) :
    unifyNewlines (c :: cs) = c :: unifyNewlines cs := by
  rw [unifyNewlines, if_neg h]
  rintro ds rfl
  exact absurd rfl h

theorem unifyNewlines_return (h : cs.head? ≠ some '\n') :
    unifyNewlines ('\r' :: cs) = '\n' :: unifyNewlines cs := by
  rw [unifyNewlines, if_pos rfl]
  rintro ds - rfl
  exact h rfl

theorem unifyNewlines_of_notMem (h : '\r' ∉ cs) : unifyNewlines cs = cs := by
  induction cs with
  | nil => rfl
  | cons c cs ih =>
    obtain ⟨hc, hcs⟩ := not_or.mp (mt List.mem_cons.mpr h)
    rw [unifyNewlines_cons_of_ne (Ne.symm hc), ih hcs]

/-- No carriage return is left. -/
theorem return_notMem_unifyNewlines (cs : List Char) : '\r' ∉ unifyNewlines cs := by
  fun_induction unifyNewlines cs with
  | case1 => exact List.not_mem_nil
  | case2 cs ih => exact List.not_mem_cons_of_ne_of_not_mem (by decide) ih
  | case3 c cs _ ih =>
    refine List.not_mem_cons_of_ne_of_not_mem ?_ ih
    split
    · decide
    · next hc => exact Ne.symm hc

/-! ### Replacing newlines -/

/-- A line ending other than a newline. -/
inductive LineEnding where
  | carriageReturn
  | returnAndNewline
deriving DecidableEq, Repr

namespace LineEnding

/-- The characters of a line ending. -/
def chars : LineEnding → List Char
  | carriageReturn => ['\r']
  | returnAndNewline => ['\r', '\n']

/-- The bytes of a line ending. -/
def bytes : LineEnding → List UInt8
  | carriageReturn => [0x0D]
  | returnAndNewline => [0x0D, 0x0A]

/-- The text with this line ending for every newline. -/
def inText (e : LineEnding) (cs : List Char) : List Char :=
  cs.flatMap fun c => if c = '\n' then e.chars else [c]

/-- The bytes with this line ending for every newline. -/
def inBytes (e : LineEnding) (bs : List UInt8) : List UInt8 :=
  bs.flatMap fun b => if b = 0x0A then e.bytes else [b]

theorem exists_bytes (e : LineEnding) : ∃ rest, e.bytes = 0x0D :: rest := by
  cases e with
  | carriageReturn => exact ⟨[], rfl⟩
  | returnAndNewline => exact ⟨[0x0A], rfl⟩

end LineEnding

open LineEnding (inText inBytes)

variable {e : LineEnding}

@[simp] theorem inText_nil : inText e [] = [] := rfl

@[simp] theorem inBytes_nil : inBytes e [] = [] := rfl

theorem inText_newline (cs : List Char) : inText e ('\n' :: cs) = e.chars ++ inText e cs := rfl

theorem inBytes_newline (bs : List UInt8) : inBytes e (0x0A :: bs) = e.bytes ++ inBytes e bs := rfl

theorem inText_cons_of_ne (h : c ≠ '\n') (cs : List Char) :
    inText e (c :: cs) = c :: inText e cs := by
  rw [inText, List.flatMap_cons, if_neg h]
  rfl

theorem inBytes_cons_of_ne (h : b ≠ 0x0A) (bs : List UInt8) :
    inBytes e (b :: bs) = b :: inBytes e bs := by
  rw [inBytes, List.flatMap_cons, if_neg h]
  rfl

/-- Every newline has a carriage return in front. -/
theorem head?_inText_ne (cs : List Char) : (inText e cs).head? ≠ some '\n' := by
  cases cs with
  | nil => exact nofun
  | cons c cs =>
    by_cases hc : c = '\n'
    · subst hc
      cases e <;> exact fun h => absurd (Option.some.inj h) (by decide)
    · rw [inText_cons_of_ne hc]
      exact fun h => hc (Option.some.inj h)

/-- **Unifying line endings undoes the replacement.** -/
theorem unifyNewlines_inText (h : '\r' ∉ cs) : unifyNewlines (inText e cs) = unifyNewlines cs := by
  induction cs with
  | nil => rfl
  | cons c cs ih =>
    obtain ⟨hc, hcs⟩ := not_or.mp (mt List.mem_cons.mpr h)
    rw [unifyNewlines_cons_of_ne (Ne.symm hc), ← ih hcs]
    by_cases hn : c = '\n'
    · subst hn
      rw [inText_newline]
      cases e with
      | carriageReturn => exact unifyNewlines_return (head?_inText_ne cs)
      | returnAndNewline => rw [LineEnding.chars, List.cons_append, List.cons_append, unifyNewlines,
          List.nil_append]
    · rw [inText_cons_of_ne hn, unifyNewlines_cons_of_ne (Ne.symm hc)]

/-! ### Latin-1 -/

theorem ofNat_toNat_eq_newline_iff : Char.ofNat b.toNat = '\n' ↔ b = 0x0A :=
  ⟨fun h => byte_eq_of_ofNat_eq (b := 0x0A) h, fun h => h ▸ rfl⟩

theorem decodeLatin1_inBytes (bs : List UInt8) :
    decodeLatin1 (inBytes e bs) = inText e (decodeLatin1 bs) := by
  induction bs with
  | nil => rfl
  | cons b bs ih =>
    by_cases hb : b = 0x0A
    · subst hb
      rw [inBytes_newline, decodeLatin1, List.map_append]
      have hchars : decodeLatin1 e.bytes = e.chars := by
        cases e <;> rfl
      exact congrArg₂ (· ++ ·) hchars ih
    · have hc : Char.ofNat b.toNat ≠ '\n' := mt ofNat_toNat_eq_newline_iff.mp hb
      rw [inBytes_cons_of_ne hb]
      exact (congrArg (_ :: ·) ih).trans (inText_cons_of_ne hc _).symm

theorem return_notMem_decodeLatin1 (h : 0x0D ∉ bs) : '\r' ∉ decodeLatin1 bs := by
  intro hmem
  obtain ⟨b, hb, hbr⟩ := List.mem_map.mp hmem
  exact h (byte_eq_of_ofNat_eq (b := 0x0D) hbr ▸ hb)

/-! ### UTF-8 -/

/-- The text that bytes write in UTF-8, if they write any. -/
def chars? (bs : List UInt8) : Option (List Char) :=
  (decodeUtf8 bs).toOption

theorem toOption_decodeUtf8From_cons (start : Nat) (b : UInt8) (bs : List UInt8) :
    (decodeUtf8From start (b :: bs)).toOption =
      match firstChar b bs with
      | .ok (c, n) => (decodeUtf8From (start + 1 + n) (bs.drop n)).toOption.map (c :: ·)
      | .error _ => none := by
  rw [decodeUtf8From]
  rcases firstChar b bs with fault | ⟨c, n⟩
  · rfl
  · dsimp only
    rcases decodeUtf8From (start + 1 + n) (bs.drop n) with fault | cs
    · rfl
    · rfl

theorem toOption_decodeUtf8From (start : Nat) (bs : List UInt8) :
    (decodeUtf8From start bs).toOption = chars? bs := by
  suffices h : ∀ start start', (decodeUtf8From start bs).toOption =
      (decodeUtf8From start' bs).toOption from h start 0
  induction hl : bs.length using Nat.strongRecOn generalizing bs with
  | _ l ih =>
    intro start start'
    cases bs with
    | nil => rw [decodeUtf8From, decodeUtf8From]
    | cons b bs =>
      rw [toOption_decodeUtf8From_cons, toOption_decodeUtf8From_cons]
      split
      · next c n _ =>
        have hlt : (bs.drop n).length < l := by
          rw [← hl, List.length_cons, List.length_drop]
          omega
        rw [ih _ hlt _ rfl (start + 1 + n) (start' + 1 + n)]
      · rfl

theorem chars?_nil : chars? [] = some [] := by
  rw [chars?, decodeUtf8, decodeUtf8From]
  rfl

theorem chars?_cons (b : UInt8) (bs : List UInt8) :
    chars? (b :: bs) =
      match firstChar b bs with
      | .ok (c, n) => (chars? (bs.drop n)).map (c :: ·)
      | .error _ => none := by
  rw [chars?, decodeUtf8, toOption_decodeUtf8From_cons]
  simp only [toOption_decodeUtf8From]

theorem chars?_cons_of_ok (h : firstChar b bs = .ok (c, n)) :
    chars? (b :: bs) = (chars? (bs.drop n)).map (c :: ·) := by
  rw [chars?_cons, h]

theorem chars?_cons_of_ascii (h : b.toNat < 0x80) (bs : List UInt8) :
    chars? (b :: bs) = (chars? bs).map (Char.ofNat b.toNat :: ·) := by
  have hfirst : firstChar b bs = .ok (Char.ofNat b.toNat, 0) := by
    rw [firstChar, if_pos h]
  exact chars?_cons_of_ok hfirst

/-- A first character is one byte below 0x80, or it lies above with all of its bytes. -/
theorem firstChar_bounds (h : firstChar b bs = .ok (c, n)) :
    b.toNat < 0x80 ∧ c = Char.ofNat b.toNat ∧ n = 0 ∨
      0x80 ≤ b.toNat ∧ 0x80 ≤ c.toNat ∧ ∀ x ∈ bs.take n, 0x80 ≤ x.toNat := by
  unfold firstChar at h
  split at h
  · next hb =>
    obtain ⟨rfl, rfl⟩ := Prod.mk.inj (Except.ok.inj h)
    exact .inl ⟨hb, rfl, rfl⟩
  · next hb =>
    split at h
    · cases h
    · next l hl =>
      split at h
      · next code hcode =>
        obtain ⟨rfl, rfl⟩ := Prod.mk.inj (Except.ok.inj h)
        obtain ⟨hlow, hvalid, hbs⟩ := lead?_code hl hcode
        rw [toNat_ofNat_of_isValidChar hvalid]
        exact .inr ⟨Nat.le_of_not_lt hb, hlow, hbs⟩
      · cases h

theorem return_notMem_of_chars? (h : chars? bs = some cs) (hbs : 0x0D ∉ bs) : '\r' ∉ cs := by
  induction hl : bs.length using Nat.strongRecOn generalizing bs cs with
  | _ l ih =>
    cases bs with
    | nil =>
      rw [chars?_nil] at h
      exact Option.some.inj h ▸ List.not_mem_nil
    | cons b bs =>
      rcases hfirst : firstChar b bs with fault | ⟨c, n⟩
      · rw [chars?_cons, hfirst] at h
        cases h
      · rw [chars?_cons_of_ok hfirst] at h
        obtain ⟨ds, hds, rfl⟩ := Option.map_eq_some_iff.mp h
        obtain ⟨hb, hrest⟩ := not_or.mp (mt List.mem_cons.mpr hbs)
        have hlt : (bs.drop n).length < l := by
          rw [← hl, List.length_cons, List.length_drop]
          omega
        have hdrop : 0x0D ∉ bs.drop n := fun hmem => hrest (List.mem_of_mem_drop hmem)
        refine List.not_mem_cons_of_ne_of_not_mem ?_ (ih _ hlt hds hdrop rfl)
        rintro rfl
        rcases firstChar_bounds hfirst with ⟨-, hc, -⟩ | ⟨-, hc, -⟩
        · exact hb (byte_eq_of_ofNat_eq (a := 0x0D) hc)
        · exact absurd hc (by decide)

theorem lead?_least {l : Lead} (h : lead? b = some l) : 0x80 ≤ l.least := by
  unfold lead? at h
  grind

/-- Neither byte of a line ending continues a character. -/
theorem following_inBytes {code least greatest : Nat} (hleast : 0x80 ≤ least) (bs : List UInt8) :
    following n code least greatest (inBytes e bs) = following n code least greatest bs := by
  induction n generalizing code least greatest bs with
  | zero => rfl
  | succ n ih =>
    cases bs with
    | nil => rfl
    | cons b bs =>
      by_cases hb : b = 0x0A
      · subst hb
        have hnewline : ¬ (least ≤ 0x0A ∧ 0x0A ≤ greatest) := by omega
        have hreturn : ¬ (least ≤ 0x0D ∧ 0x0D ≤ greatest) := by omega
        obtain ⟨rest, hrest⟩ := e.exists_bytes
        rw [inBytes_newline, hrest, List.cons_append, following, following]
        exact (if_neg hreturn).trans (if_neg hnewline).symm
      · rw [inBytes_cons_of_ne hb, following, following, ih (Nat.le_refl _)]

theorem firstChar_inBytes (b : UInt8) (bs : List UInt8) :
    firstChar b (inBytes e bs) = firstChar b bs := by
  unfold firstChar
  split
  · rfl
  · split
    · rfl
    · next hl => rw [following_inBytes (lead?_least hl)]

theorem drop_inBytes (h : ∀ x ∈ bs.take n, x ≠ 0x0A) :
    (inBytes e bs).drop n = inBytes e (bs.drop n) := by
  induction n generalizing bs with
  | zero => rfl
  | succ n ih =>
    cases bs with
    | nil => rfl
    | cons b bs =>
      rw [List.take_succ_cons, List.forall_mem_cons] at h
      rw [inBytes_cons_of_ne h.1, List.drop_succ_cons, List.drop_succ_cons, ih h.2]

/-- **Bytes with other line endings decode to the text with these**, and if they are no UTF-8
before, they are none after. -/
theorem chars?_inBytes (bs : List UInt8) : chars? (inBytes e bs) = (chars? bs).map (inText e) := by
  induction hl : bs.length using Nat.strongRecOn generalizing bs with
  | _ l ih =>
    cases bs with
    | nil =>
      rw [inBytes_nil, chars?_nil]
      rfl
    | cons b bs =>
      by_cases hb : b = 0x0A
      · subst hb
        have hlt : bs.length < l := by
          rw [← hl]
          exact Nat.lt_succ_self _
        have hchars : ∀ rest, chars? (e.bytes ++ rest) = (chars? rest).map (e.chars ++ ·) := by
          intro rest
          cases e with
          | carriageReturn => exact chars?_cons_of_ascii (by decide) rest
          | returnAndNewline =>
            rw [LineEnding.bytes, List.cons_append, List.cons_append, List.nil_append,
              chars?_cons_of_ascii (by decide), chars?_cons_of_ascii (by decide), Option.map_map]
            rfl
        rw [inBytes_newline, hchars, ih _ hlt bs rfl, chars?_cons_of_ascii (by decide),
          Option.map_map, Option.map_map]
        rfl
      · rw [inBytes_cons_of_ne hb]
        rcases hfirst : firstChar b bs with fault | ⟨c, n⟩
        · rw [chars?_cons, chars?_cons, firstChar_inBytes, hfirst]
          rfl
        · have hbounds := firstChar_bounds hfirst
          have hc : c ≠ '\n' := by
            rintro rfl
            rcases hbounds with ⟨-, hc, -⟩ | ⟨-, hc, -⟩
            · exact hb (ofNat_toNat_eq_newline_iff.mp hc.symm)
            · exact absurd hc (by decide)
          have htaken : ∀ x ∈ bs.take n, x ≠ 0x0A := by
            rintro x hx rfl
            rcases hbounds with ⟨-, -, rfl⟩ | ⟨-, -, hall⟩
            · exact absurd hx (by simp)
            · exact absurd (hall _ hx) (by decide)
          have hlt : (bs.drop n).length < l := by
            rw [← hl, List.length_cons, List.length_drop]
            omega
          rw [chars?_cons_of_ok ((firstChar_inBytes b bs).trans hfirst), chars?_cons_of_ok hfirst,
            drop_inBytes htaken, ih _ hlt _ rfl, Option.map_map, Option.map_map]
          refine congrArg (Option.map · _) (funext fun ds => ?_)
          exact (inText_cons_of_ne hc ds).symm

end DeclLint.Text
