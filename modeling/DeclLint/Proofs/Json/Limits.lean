/-
DeclLint/Proofs/Json/Limits.lean

What limits have to do with reading.  A limit can end the reading, and that is all it
can do: where it does not, the same is read as without it, value or fault
(`settled_document`, by induction on the length of the text).  So there is one value
that a text stands for (`IsText`), and every reader that has a result has this one
(`isText_of_read`).
-/
import DeclLint.Json.Reader
import DeclLint.Proofs.Result

namespace DeclLint.Json

variable {α : Type}

/-- The reading `x` is ended by a limit, or comes to the same as `y`. -/
def Settled (x y : Except Fault α) : Prop :=
  (∃ e, x = .error (.excess e)) ∨ x = y

theorem Settled.refl (x : Except Fault α) : Settled x x := Or.inr rfl

/-- A limit on digits is no stricter than another. -/
def Loosens (limit limit' : Option Nat) : Prop :=
  ∀ l' ∈ limit', ∃ l ∈ limit, l ≤ l'

variable {limit limit' : Option Nat} {depth depth' : Nat} {s : List Char}

theorem any_of_loosens (hlimit : Loosens limit limit') {digits : Nat}
    (h : limit'.any (· < digits) = true) : limit.any (· < digits) = true := by
  cases limit' with
  | none => cases h
  | some l' =>
    obtain ⟨l, hl, hle⟩ := hlimit l' rfl
    obtain rfl : limit = some l := hl
    exact decide_eq_true (Nat.lt_of_le_of_lt hle (of_decide_eq_true h))

theorem settled_number (hlimit : Loosens limit limit') (s : List Char) :
    Settled (number limit s) (number limit' s) := by
  unfold number
  split
  · next n r _ =>
    dsimp only
    generalize s.length - r.1.length - (if s.head? = some '-' then 1 else 0) = digits
    cases hany : limit.any (· < digits) with
    | true => exact Or.inl ⟨_, rfl⟩
    | false =>
      have hany' : limit'.any (· < digits) = false :=
        Bool.eq_false_iff.mpr fun h =>
          Bool.false_ne_true (hany.symm.trans (any_of_loosens hlimit h))
      rw [hany']
      exact Settled.refl _
  · exact Settled.refl _
  · exact Settled.refl _

/-- The three reading functions are settled on texts that are shorter than `n`. -/
structure SettledBelow (limit limit' : Option Nat) (n : Nat) : Prop where
  value : ∀ s : List Char, s.length < n → ∀ {depth depth'}, depth ≤ depth' →
    Settled (value limit depth s) (value limit' depth' s)
  elements : ∀ s : List Char, s.length < n → ∀ {depth depth'}, depth ≤ depth' →
    Settled (elements limit depth s) (elements limit' depth' s)
  members : ∀ s : List Char, s.length < n → ∀ {depth depth'}, depth ≤ depth' →
    Settled (members limit depth s) (members limit' depth' s)

section

variable {n : Nat}

theorem SettledBelow.value_succ (hlimit : Loosens limit limit') (ih : SettledBelow limit limit' n)
    (s : List Char) (hs : s.length < n + 1) (hdepth : depth ≤ depth') :
    Settled (Json.value limit depth s) (Json.value limit' depth' s) := by
  have hinner : ∀ {c : Char} {r : List Char}, (c :: r).length < n + 1 →
      (skipSpace r).length < n := by
    intro c r h
    have hle := length_skipSpace_le r
    rw [List.length_cons] at h
    omega
  rw [Json.value.eq_def, Json.value.eq_def]
  split
  · exact Settled.refl _
  -- an object, which takes one more level
  · next r =>
    dsimp only
    by_cases hzero : depth = 0
    · exact Or.inl ⟨_, if_pos hzero⟩
    · rw [if_neg hzero, if_neg (by omega)]
      cases next? '}' r with
      | some t => exact Settled.refl _
      | none =>
        dsimp only
        rcases ih.members (skipSpace r) (hinner hs) (Nat.sub_le_sub_right hdepth 1) with ⟨e, h⟩ | h
        · rw [h]
          exact Or.inl ⟨e, rfl⟩
        · rw [h]
          exact Settled.refl _
  · next r =>
    dsimp only
    by_cases hzero : depth = 0
    · exact Or.inl ⟨_, if_pos hzero⟩
    · rw [if_neg hzero, if_neg (by omega)]
      cases next? ']' r with
      | some t => exact Settled.refl _
      | none =>
        dsimp only
        rcases ih.elements (skipSpace r) (hinner hs) (Nat.sub_le_sub_right hdepth 1) with ⟨e, h⟩ | h
        · rw [h]
          exact Or.inl ⟨e, rfl⟩
        · rw [h]
          exact Settled.refl _
  · cases name? s with
    | some p => exact Settled.refl _
    | none => exact settled_number hlimit s

theorem SettledBelow.elements_succ (ih : SettledBelow limit limit' n)
    (hvalue : ∀ s : List Char, s.length < n + 1 → ∀ {depth depth'}, depth ≤ depth' →
      Settled (Json.value limit depth s) (Json.value limit' depth' s))
    (s : List Char) (hs : s.length < n + 1) (hdepth : depth ≤ depth') :
    Settled (Json.elements limit depth s) (Json.elements limit' depth' s) := by
  rw [Json.elements.eq_def, Json.elements.eq_def]
  rcases hvalue s hs hdepth with ⟨e, h⟩ | h
  · rw [h]
    exact Or.inl ⟨e, rfl⟩
  · rw [h]
    rcases Json.value limit' depth' s with f | ⟨v, r⟩
    · exact Settled.refl _
    dsimp only
    cases next? ']' r.1 with
    | some t => exact Settled.refl _
    | none =>
      cases next? ',' r.1 with
      | none => exact Settled.refl _
      -- what follows the comma is shorter
      | some t =>
        have hlength : (skipSpace t.1).length < n := by
          have := length_skipSpace_le t.1
          have := t.2
          have := r.2
          omega
        dsimp only
        rcases ih.elements (skipSpace t.1) hlength hdepth with ⟨e, h⟩ | h
        · rw [h]
          exact Or.inl ⟨e, rfl⟩
        · rw [h]
          exact Settled.refl _

theorem SettledBelow.members_succ (ih : SettledBelow limit limit' n) (s : List Char)
    (hs : s.length < n + 1) (hdepth : depth ≤ depth') :
    Settled (Json.members limit depth s) (Json.members limit' depth' s) := by
  rw [Json.members.eq_def, Json.members.eq_def]
  split
  · next k =>
    rcases stringBody (k.length + 1) k with f | ⟨key, r⟩
    · exact Settled.refl _
    dsimp only
    cases next? ':' r.1 with
    | none => exact Settled.refl _
    | some r₁ =>
      have hlength : (skipSpace r₁.1).length < n := by
        have := length_skipSpace_le r₁.1
        have := r₁.2
        have := r.2
        rw [List.length_cons] at hs
        omega
      dsimp only
      rcases ih.value (skipSpace r₁.1) hlength hdepth with ⟨e, h⟩ | h
      · rw [h]
        exact Or.inl ⟨e, rfl⟩
      rw [h]
      rcases Json.value limit' depth' (skipSpace r₁.1) with f | ⟨v, r₂⟩
      · exact Settled.refl _
      dsimp only
      cases next? '}' r₂.1 with
      | some t => exact Settled.refl _
      | none =>
        cases next? ',' r₂.1 with
        | none => exact Settled.refl _
        | some t =>
          have hmore : (skipSpace t.1).length < n := by
            have := length_skipSpace_le t.1
            have := t.2
            have := r₂.2
            omega
          dsimp only
          rcases ih.members (skipSpace t.1) hmore hdepth with ⟨e, h⟩ | h
          · rw [h]
            exact Or.inl ⟨e, rfl⟩
          · rw [h]
            exact Settled.refl _
  · exact Settled.refl _

end

theorem settledBelow (hlimit : Loosens limit limit') (n : Nat) : SettledBelow limit limit' n := by
  induction n with
  | zero =>
    exact ⟨fun _ h => absurd h (Nat.not_lt_zero _), fun _ h => absurd h (Nat.not_lt_zero _),
      fun _ h => absurd h (Nat.not_lt_zero _)⟩
  | succ n ih =>
    have hvalue : ∀ s : List Char, s.length < n + 1 → ∀ {depth depth'}, depth ≤ depth' →
        Settled (value limit depth s) (value limit' depth' s) :=
      fun s hs _ _ hdepth => ih.value_succ hlimit s hs hdepth
    exact ⟨hvalue, fun s hs _ _ hdepth => ih.elements_succ hvalue s hs hdepth,
      fun s hs _ _ hdepth => ih.members_succ s hs hdepth⟩

/-- **A looser limit changes nothing where the limit did not end the reading.** -/
theorem settled_document (hlimit : Loosens limit limit') (hdepth : depth ≤ depth')
    (s : List Char) : Settled (document limit depth s) (document limit' depth' s) := by
  unfold document
  split
  · exact Settled.refl _
  · rcases (settledBelow hlimit _).value (skipSpace s) (Nat.lt_succ_self _) hdepth with ⟨e, h⟩ | h
    · rw [h]
      exact Or.inl ⟨e, rfl⟩
    · rw [h]
      exact Settled.refl _

theorem readWithin_cases (hlimit : Loosens limit limit') (hdepth : depth ≤ depth')
    (s : List Char) : (∃ e, readWithin limit depth s = .error (.excess e)) ∨
      readWithin limit depth s = readWithin limit' depth' s := by
  unfold readWithin
  rcases settled_document hlimit hdepth s with ⟨e, h⟩ | h
  · rw [h]
    exact Or.inl ⟨e, rfl⟩
  · rw [h]
    exact Or.inr rfl

/-! ### The value that a text stands for -/

/-- The text stands for the value, by the grammar alone: some reader without a limit on digits has
room enough to read it. -/
def IsText (s : List Char) (v : Json) : Prop :=
  ∃ depth, readWithin none depth s = .ok v

variable {v v' : Json}

theorem loosens_none (limit : Option Nat) : Loosens limit none :=
  fun _ h => nomatch h

theorem readWithin_mono (hlimit : Loosens limit limit') (hdepth : depth ≤ depth')
    (h : readWithin limit depth s = .ok v) : readWithin limit' depth' s = .ok v := by
  rcases readWithin_cases hlimit hdepth s with ⟨e, he⟩ | hsame
  · rw [he] at h
    cases h
  · rw [← hsame, h]

theorem isText_of_readWithin (h : readWithin limit depth s = .ok v) : IsText s v :=
  ⟨depth, readWithin_mono (loosens_none limit) (Nat.le_refl depth) h⟩

theorem isText_of_read (h : read depth s = .ok v) : IsText s v :=
  isText_of_readWithin h

/-- A text stands for one value. -/
theorem IsText.unique (h : IsText s v) (h' : IsText s v') : v = v' := by
  obtain ⟨depth, h⟩ := h
  obtain ⟨depth', h'⟩ := h'
  have hmax := readWithin_mono (loosens_none none) (Nat.le_max_left depth depth') h
  have hmax' := readWithin_mono (loosens_none none) (Nat.le_max_right depth depth') h'
  exact Except.ok.inj (hmax.symm.trans hmax')

/-- A text that stands for a value is read as this, unless a limit ends the reading. -/
theorem IsText.read_cases (h : IsText s v) (depth : Nat) :
    read depth s = .ok v ∨ ∃ e, read depth s = .error (.excess e) := by
  obtain ⟨enough, h⟩ := h
  have hmax := readWithin_mono (loosens_none none) (Nat.le_max_right depth enough) h
  rcases readWithin_cases (loosens_none (some digitLimit)) (Nat.le_max_left depth enough) s with
    he | hsame
  · exact Or.inr he
  · exact Or.inl (hsame.trans hmax)

/-- What is read is what the text stands for, and it is read within the limits. -/
theorem read_eq_ok_iff : read depth s = .ok v ↔
    IsText s v ∧ ∀ e, read depth s ≠ .error (.excess e) := by
  constructor
  · intro h
    rw [h]
    exact ⟨isText_of_read h, fun _ => nofun⟩
  · rintro ⟨h, hfits⟩
    rcases h.read_cases depth with hread | ⟨e, he⟩
    · exact hread
    · exact absurd he (hfits e)

end DeclLint.Json
