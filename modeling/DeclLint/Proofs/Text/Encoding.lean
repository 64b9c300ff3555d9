/-
DeclLint/Proofs/Text/Encoding.lean

What a decoder keeps of the bytes.  The byte of an ASCII character other than
a line ending stands for this character in UTF-8 and in Latin-1 alike, and no
other character is written with it.  Texts and bytes therefore agree character
by character wherever a byte is *plain*, and whatever lies between is neither
plain here nor there (`Spells`).  Decoding in UTF-8 gives a text that the bytes
spell, so does decoding in Latin-1, and unifying line endings keeps it so.

What follows is that searching for a word of plain characters is the same in
bytes and in text: the word stands at corresponding places, and what follows it
corresponds again (`Spells.word_of_bytes`, `Spells.word_of_text`).  A byte order
mark in front, or the beginning of one, changes nothing of this
(`exists_spells_sourceText`).
-/
import DeclLint.Files.Text
import Mathlib.Algebra.Group.Nat.Defs

namespace DeclLint.Text

/-! ### Plain bytes and what they spell -/

/-- The number of an ASCII character that is no line ending. -/
def IsPlain (n : Nat) : Prop :=
  n < 0x80 ∧ n ≠ 0x0A ∧ n ≠ 0x0D

instance (n : Nat) : Decidable (IsPlain n) :=
  inferInstanceAs (Decidable (n < 0x80 ∧ n ≠ 0x0A ∧ n ≠ 0x0D))

/-- Bytes and a text agree on what is plain: a plain byte stands for the character of its number,
and any other character for a block of bytes none of which is plain. -/
inductive Spells : List UInt8 → List Char → Prop
  | nil : Spells [] []
  | plain {b : UInt8} {bs : List UInt8} {cs : List Char} (hb : IsPlain b.toNat)
      (h : Spells bs cs) : Spells (b :: bs) (Char.ofNat b.toNat :: cs)
  | other {block bs : List UInt8} {c : Char} {cs : List Char} (hne : block ≠ [])
      (hblock : ∀ b ∈ block, ¬ IsPlain b.toNat) (hc : ¬ IsPlain c.toNat) (h : Spells bs cs) :
      Spells (block ++ bs) (c :: cs)

theorem toNat_ofNat_of_isValidChar {n : Nat} (h : n.isValidChar) : (Char.ofNat n).toNat = n := by
  rw [Char.ofNat, dif_pos h]
  rfl

theorem toNat_ofNat_byte (b : UInt8) : (Char.ofNat b.toNat).toNat = b.toNat :=
  toNat_ofNat_of_isValidChar (.inl (Nat.lt_trans b.toNat_lt (by decide)))

theorem byte_eq_of_ofNat_eq {a b : UInt8} (h : Char.ofNat a.toNat = Char.ofNat b.toNat) :
    a = b := by
  rw [← UInt8.toNat_inj, ← toNat_ofNat_byte a, h, toNat_ofNat_byte]

/-- Bytes that are not plain, in front of others, are in front of any plain byte. -/
theorem eq_append_of_block {block bs before after : List UInt8} {b : UInt8}
    (hblock : ∀ x ∈ block, ¬ IsPlain x.toNat) (hb : IsPlain b.toNat)
    (h : block ++ bs = before ++ b :: after) :
    ∃ between, before = block ++ between ∧ bs = between ++ b :: after := by
  rcases List.append_eq_append_iff.mp h with ⟨between, hbefore, hbs⟩ | ⟨rest, hrest, hbs⟩
  · exact ⟨between, hbefore, hbs⟩
  · cases rest with
    | nil => exact ⟨[], by simpa using hrest.symm, hbs.symm⟩
    | cons x rest =>
      -- the plain byte would be one of the block
      obtain ⟨rfl, -⟩ := List.cons.inj hbs
      exact absurd hb (hblock b (hrest ▸ List.mem_append_right before List.mem_cons_self))

namespace Spells

variable {bs before after word : List UInt8} {cs start rest : List Char} {b : UInt8} {c : Char}

/-! ### The same words -/

theorem at_byte (h : Spells (before ++ b :: after) cs) (hb : IsPlain b.toNat) :
    ∃ start rest, cs = start ++ Char.ofNat b.toNat :: rest ∧ Spells before start ∧
      Spells after rest := by
  generalize hbs : before ++ b :: after = bs at h
  induction h generalizing before with
  | nil => simp at hbs
  | @plain x xs ds hx h ih =>
    cases before with
    | nil =>
      obtain ⟨rfl, rfl⟩ := List.cons.inj hbs
      exact ⟨[], ds, rfl, nil, h⟩
    | cons y before =>
      obtain ⟨rfl, hxs⟩ := List.cons.inj hbs
      obtain ⟨start, rest, rfl, hstart, hrest⟩ := ih hxs
      exact ⟨_ :: start, rest, rfl, plain hx hstart, hrest⟩
  | @other block xs d ds hne hblock hd h ih =>
    obtain ⟨between, rfl, hxs⟩ := eq_append_of_block hblock hb hbs.symm
    obtain ⟨start, rest, rfl, hstart, hrest⟩ := ih hxs.symm
    exact ⟨d :: start, rest, rfl, other hne hblock hd hstart, hrest⟩

theorem at_char (h : Spells bs (start ++ c :: rest)) (hc : IsPlain c.toNat) :
    ∃ before b after, bs = before ++ b :: after ∧ Char.ofNat b.toNat = c ∧
      Spells before start ∧ Spells after rest := by
  generalize hcs : start ++ c :: rest = cs at h
  induction h generalizing start with
  | nil => simp at hcs
  | @plain x xs ds hx h ih =>
    cases start with
    | nil =>
      obtain ⟨rfl, rfl⟩ := List.cons.inj hcs
      exact ⟨[], x, xs, rfl, rfl, nil, h⟩
    | cons d start =>
      obtain ⟨rfl, hds⟩ := List.cons.inj hcs
      obtain ⟨before, b, after, rfl, hb, hbefore, hafter⟩ := ih hds
      exact ⟨x :: before, b, after, rfl, hb, plain hx hbefore, hafter⟩
  | @other block xs d ds hne hblock hd h ih =>
    cases start with
    | nil =>
      obtain ⟨rfl, -⟩ := List.cons.inj hcs
      exact absurd hc hd
    | cons d start =>
      obtain ⟨rfl, hds⟩ := List.cons.inj hcs
      obtain ⟨before, b, after, rfl, hb, hbefore, hafter⟩ := ih hds
      exact ⟨block ++ before, b, after, by simp, hb, other hne hblock hd hbefore, hafter⟩

theorem text_eq_nil (h : Spells [] cs) : cs = [] := by
  generalize hbs : ([] : List UInt8) = bs at h
  cases h with
  | nil => rfl
  | plain => cases hbs
  | other hne => exact absurd (List.append_eq_nil_iff.mp hbs.symm).1 hne

theorem bytes_eq_nil (h : Spells bs []) : bs = [] := by
  cases h
  rfl

/-- A text starts with the word that its bytes start with. -/
theorem text_append (hword : ∀ b ∈ word, IsPlain b.toNat) (h : Spells (word ++ after) cs) :
    ∃ rest, cs = decodeLatin1 word ++ rest ∧ Spells after rest := by
  induction word generalizing cs with
  | nil => exact ⟨cs, rfl, h⟩
  | cons b word ih =>
    obtain ⟨hb, hword⟩ := List.forall_mem_cons.mp hword
    obtain ⟨start, rest, rfl, hstart, hrest⟩ :=
      at_byte (show Spells ([] ++ b :: (word ++ after)) cs from h) hb
    obtain rfl := text_eq_nil hstart
    obtain ⟨rest, rfl, hafter⟩ := ih hword hrest
    exact ⟨rest, rfl, hafter⟩

/-- Bytes start with the word that their text starts with. -/
theorem bytes_append (hword : ∀ b ∈ word, IsPlain b.toNat)
    (h : Spells bs (decodeLatin1 word ++ rest)) :
    ∃ after, bs = word ++ after ∧ Spells after rest := by
  induction word generalizing bs with
  | nil => exact ⟨bs, rfl, h⟩
  | cons b word ih =>
    obtain ⟨hb, hw⟩ := List.forall_mem_cons.mp hword
    have hc : IsPlain (Char.ofNat b.toNat).toNat := by
      rw [toNat_ofNat_byte]
      exact hb
    obtain ⟨before, b', after, rfl, hb', hbefore, hafter⟩ :=
      at_char (show Spells bs ([] ++ Char.ofNat b.toNat :: (decodeLatin1 word ++ rest)) from h) hc
    obtain rfl := bytes_eq_nil hbefore
    obtain rfl := byte_eq_of_ofNat_eq hb'
    obtain ⟨after, rfl, hrest⟩ := ih hw hafter
    exact ⟨after, rfl, hrest⟩

/-- **A word in the bytes is a word in the text.** -/
theorem word_of_bytes (hne : word ≠ []) (hword : ∀ b ∈ word, IsPlain b.toNat)
    (h : Spells (before ++ word ++ after) cs) :
    ∃ start rest, cs = start ++ decodeLatin1 word ++ rest ∧ Spells after rest := by
  cases word with
  | nil => exact absurd rfl hne
  | cons b word =>
    obtain ⟨hb, hw⟩ := List.forall_mem_cons.mp hword
    rw [List.append_assoc, List.cons_append] at h
    obtain ⟨start, rest, rfl, -, hrest⟩ := at_byte h hb
    obtain ⟨rest, rfl, hafter⟩ := text_append hw hrest
    exact ⟨start, rest, by simp [decodeLatin1], hafter⟩

/-- **A word in the text is a word in the bytes.** -/
theorem word_of_text (hne : word ≠ []) (hword : ∀ b ∈ word, IsPlain b.toNat)
    (h : Spells bs (start ++ decodeLatin1 word ++ rest)) :
    ∃ before after, bs = before ++ word ++ after ∧ Spells after rest := by
  cases word with
  | nil => exact absurd rfl hne
  | cons b word =>
    obtain ⟨hb, hw⟩ := List.forall_mem_cons.mp hword
    have hc : IsPlain (Char.ofNat b.toNat).toNat := by
      rw [toNat_ofNat_byte]
      exact hb
    rw [List.append_assoc] at h
    obtain ⟨before, b', after, rfl, hb', -, hafter⟩ := at_char h hc
    obtain rfl := byte_eq_of_ofNat_eq hb'
    obtain ⟨after, rfl, hrest⟩ := bytes_append hw hafter
    exact ⟨before, after, by simp, hrest⟩

/-- What comes next is the same in the bytes and in the text. -/
theorem head?_eq_iff (h : Spells bs cs) (hb : IsPlain b.toNat) :
    bs.head? = some b ↔ cs.head? = some (Char.ofNat b.toNat) := by
  have hword : ∀ x ∈ [b], IsPlain x.toNat := List.forall_mem_singleton.mpr hb
  rw [List.head?_eq_some_iff, List.head?_eq_some_iff]
  constructor
  · rintro ⟨bs, rfl⟩
    obtain ⟨rest, hcs, -⟩ := text_append hword h
    exact ⟨rest, hcs⟩
  · rintro ⟨cs, rfl⟩
    obtain ⟨after, hbs, -⟩ := bytes_append hword h
    exact ⟨after, hbs⟩

/-! ### Line endings -/

/-- A character that is not plain is written with bytes of its own. -/
theorem of_cons_other (h : Spells bs (c :: cs)) (hc : ¬ IsPlain c.toNat) :
    ∃ block rest, bs = block ++ rest ∧ block ≠ [] ∧ (∀ b ∈ block, ¬ IsPlain b.toNat) ∧
      Spells rest cs := by
  cases h with
  | plain hb h =>
    rw [toNat_ofNat_byte] at hc
    exact absurd hb hc
  | other hne hblock _ h => exact ⟨_, _, rfl, hne, hblock, h⟩

theorem unifyNewlines (h : Spells bs cs) : Spells bs (Text.unifyNewlines cs) := by
  fun_induction Text.unifyNewlines cs generalizing bs with
  | case1 => exact h
  | case2 cs ih =>
    -- both characters of the line ending have their own bytes, the newline takes all of them
    obtain ⟨block, rest, rfl, hne, hblock, h⟩ := h.of_cons_other (by decide)
    obtain ⟨block', rest, rfl, -, hblock', h⟩ := h.of_cons_other (by decide)
    rw [← List.append_assoc]
    refine other (by simp [hne]) ?_ (by decide) (ih h)
    rw [List.forall_mem_append]
    exact ⟨hblock, hblock'⟩
  | case3 c cs _ ih =>
    by_cases hc : c = '\r'
    · subst hc
      obtain ⟨block, rest, rfl, hne, hblock, h⟩ := h.of_cons_other (by decide)
      exact other hne hblock (by decide) (ih h)
    · rw [if_neg hc]
      cases h with
      | plain hb h => exact plain hb (ih h)
      | other hne hblock hother h => exact other hne hblock hother (ih h)

end Spells

/-! ### Decoding -/

theorem spells_decodeLatin1 (bs : List UInt8) : Spells bs (decodeLatin1 bs) := by
  induction bs with
  | nil => exact .nil
  | cons b bs ih =>
    by_cases hb : IsPlain b.toNat
    · exact .plain hb ih
    · have hc : ¬ IsPlain (Char.ofNat b.toNat).toNat := by
        rw [toNat_ofNat_byte]
        exact hb
      exact .other (List.cons_ne_nil b []) (List.forall_mem_singleton.mpr hb) hc ih

theorem following_succ {n code least greatest c : Nat} {bs : List UInt8}
    (h : following (n + 1) code least greatest bs = .ok c) :
    ∃ b rest, bs = b :: rest ∧ least ≤ b.toNat ∧ b.toNat ≤ greatest ∧
      following n (64 * code + (b.toNat - 0x80)) 0x80 0xBF rest = .ok c := by
  cases bs with
  | nil => cases h
  | cons b rest =>
    rw [following] at h
    split at h
    · next hbounds =>
      split at h
      · next c' hc =>
        obtain rfl := Except.ok.inj h
        exact ⟨b, rest, rfl, hbounds.1, hbounds.2, hc⟩
      · cases h
    · cases h

/-- The code point lies between those that the least and the greatest second byte begin, and
every byte read is one that only continues a character. -/
theorem following_bounds {n bits least greatest code : Nat} {bs : List UInt8}
    (hleast : 0x80 ≤ least) (h : following (n + 1) bits least greatest bs = .ok code) :
    64 ^ n * (64 * bits + (least - 0x80)) ≤ code ∧
      code < 64 ^ n * (64 * bits + (greatest - 0x80) + 1) ∧
      ∀ b ∈ bs.take (n + 1), 0x80 ≤ b.toNat := by
  induction n generalizing bits least greatest bs with
  | zero =>
    obtain ⟨b, rest, rfl, hb, hb', h⟩ := following_succ h
    obtain rfl := Except.ok.inj h
    rw [List.take_succ_cons, List.take_zero, List.forall_mem_singleton]
    omega
  | succ n ih =>
    obtain ⟨b, rest, rfl, hb, hb', h⟩ := following_succ h
    obtain ⟨hlow, hhigh, hrest⟩ := ih (Nat.le_refl _) h
    refine ⟨Nat.le_trans ?_ hlow, Nat.lt_of_lt_of_le hhigh ?_, ?_⟩
    · rw [Nat.pow_succ, Nat.mul_assoc]
      exact Nat.mul_le_mul_left _ (by omega)
    · rw [Nat.pow_succ, Nat.mul_assoc]
      exact Nat.mul_le_mul_left _ (by omega)
    · rw [List.take_succ_cons, List.forall_mem_cons]
      exact ⟨Nat.le_trans hleast hb, hrest⟩

/-- The bounds of a second byte leave no code point that a shorter form writes, no surrogate and
none beyond the last one. -/
theorem lead?_code {b : UInt8} {l : Lead} {bs : List UInt8} {code : Nat} (hl : lead? b = some l)
    (h : following l.follow l.bits l.least l.greatest bs = .ok code) :
    0x80 ≤ code ∧ code.isValidChar ∧ ∀ x ∈ bs.take l.follow, 0x80 ≤ x.toNat := by
  unfold lead? at hl
  dsimp only at hl
  split at hl
  · obtain rfl := Option.some.inj hl
    dsimp only at h ⊢
    obtain ⟨hlow, hhigh, hbs⟩ := following_bounds (by omega) h
    exact ⟨by omega, .inl (by omega), hbs⟩
  · split at hl
    · obtain rfl := Option.some.inj hl
      dsimp only at h ⊢
      obtain ⟨hlow, hhigh, hbs⟩ := following_bounds (by split <;> omega) h
      refine ⟨by split at hlow <;> omega, ?_, hbs⟩
      -- the surrogates are what the bound after the byte 0xED leaves out
      by_cases hED : b.toNat ≤ 0xED
      · exact .inl (by split at hhigh <;> omega)
      · exact .inr ⟨by split at hlow <;> omega, by split at hhigh <;> omega⟩
    · split at hl
      · obtain rfl := Option.some.inj hl
        dsimp only at h ⊢
        obtain ⟨hlow, hhigh, hbs⟩ := following_bounds (by split <;> omega) h
        exact ⟨by split at hlow <;> omega,
          .inr ⟨by split at hlow <;> omega, by split at hhigh <;> omega⟩, hbs⟩
      · cases hl

/-- The first character is the one that its only byte stands for, or neither it nor any of its
bytes is plain. -/
theorem firstChar_cases {b : UInt8} {bs : List UInt8} {c : Char} {n : Nat}
    (h : firstChar b bs = .ok (c, n)) :
    c = Char.ofNat b.toNat ∧ n = 0 ∨
      ¬ IsPlain c.toNat ∧ ∀ x ∈ b :: bs.take n, ¬ IsPlain x.toNat := by
  unfold firstChar at h
  split at h
  · obtain ⟨rfl, rfl⟩ := Prod.mk.inj (Except.ok.inj h)
    exact .inl ⟨rfl, rfl⟩
  · next hb =>
    split at h
    · cases h
    · next l hl =>
      split at h
      · next code hcode =>
        obtain ⟨rfl, rfl⟩ := Prod.mk.inj (Except.ok.inj h)
        obtain ⟨hlow, hvalid, hbs⟩ := lead?_code hl hcode
        refine .inr ⟨?_, List.forall_mem_cons.mpr ⟨fun hp => hb hp.1, fun x hx hp => ?_⟩⟩
        · rw [toNat_ofNat_of_isValidChar hvalid]
          exact fun hp => absurd hp.1 (Nat.not_lt.mpr hlow)
        · exact absurd hp.1 (Nat.not_lt.mpr (hbs x hx))
      · cases h

theorem spells_decodeUtf8From {start : Nat} {bs : List UInt8} {cs : List Char}
    (h : decodeUtf8From start bs = .ok cs) : Spells bs cs := by
  fun_induction decodeUtf8From start bs generalizing cs with
  | case1 start =>
    obtain rfl := Except.ok.inj h
    exact .nil
  | case2 start b bs c n hfirst ds hrest ih =>
    obtain rfl := Except.ok.inj h
    have hspells := ih hrest
    rcases firstChar_cases hfirst with ⟨rfl, rfl⟩ | ⟨hc, hbytes⟩
    · by_cases hb : IsPlain b.toNat
      · exact .plain hb hspells
      · refine .other (List.cons_ne_nil b []) (List.forall_mem_singleton.mpr hb) ?_ hspells
        rw [toNat_ofNat_byte]
        exact hb
    · have htaken : b :: bs = (b :: bs.take n) ++ bs.drop n := by
        rw [List.cons_append, List.take_append_drop]
      rw [htaken]
      exact .other (List.cons_ne_nil _ _) hbytes hc hspells
  | case3 => cases h
  | case4 => cases h

/-! ### Source files -/

/-- A byte order mark, or what there is of one, is cut off in front. -/
theorem exists_dropMark (bs : List UInt8) :
    ∃ mark, bs = mark ++ dropMark bs ∧ ∀ b ∈ mark, ¬ IsPlain b.toNat := by
  have hmark : ∀ b ∈ byteOrderMark, ¬ IsPlain b.toNat := by decide +kernel
  unfold dropMark
  split
  · next h =>
    obtain ⟨rest, rfl⟩ := List.isPrefixOf_iff_prefix.mp h
    exact ⟨byteOrderMark, rfl, hmark⟩
  · split
    · next h =>
      have hsub := (List.isPrefixOf_iff_prefix.mp h).subset
      exact ⟨bs, (List.append_nil bs).symm, fun b hb => hmark b (hsub hb)⟩
    · exact ⟨[], rfl, by simp⟩

/-- **Whatever the encoding of a source file, its bytes spell its text**, up to a byte order
mark in front. -/
theorem exists_spells_sourceText (bytes : List UInt8) :
    ∃ mark body, bytes = mark ++ body ∧ (∀ b ∈ mark, ¬ IsPlain b.toNat) ∧
      Spells body (Files.sourceText bytes).1 := by
  unfold Files.sourceText Files.markedUtf8Text Files.utf8Text decodeUtf8
  cases h : decodeUtf8From 0 (dropMark bytes) with
  | ok cs =>
    obtain ⟨mark, hbytes, hmark⟩ := exists_dropMark bytes
    exact ⟨mark, dropMark bytes, hbytes, hmark, (spells_decodeUtf8From h).unifyNewlines⟩
  | error fault =>
    exact ⟨[], bytes, rfl, by simp, (spells_decodeLatin1 bytes).unifyNewlines⟩

end DeclLint.Text
