/-
DeclLint/Text/Search.lean

Searching a text from the left.  `firstSuffix?` gives the smallest offset at
which the rest of the text has a property; searching for a fixed word is the
instance where the rest starts with the word.  `afterPrefix?` cuts off a
beginning.
-/

namespace DeclLint.Text

/-- The smallest offset whose suffix satisfies `p`. -/
def firstSuffix? (p : List Char → Bool) : List Char → Option Nat
  | [] => if p [] then some 0 else none
  | c :: cs => if p (c :: cs) then some 0 else (firstSuffix? p cs).map (· + 1)

/-- The smallest offset at which `word` occurs. -/
def find? (word text : List Char) : Option Nat :=
  firstSuffix? word.isPrefixOf text

/-- `word` occurs somewhere in `text`. -/
def contains (word text : List Char) : Bool :=
  (find? word text).isSome

/-- `word` occurs somewhere in `text`, on strings. -/
def containsString (word text : String) : Bool :=
  contains word.toList text.toList

/-- The rest of a list after a beginning, if it starts with it. -/
def afterPrefix? {α : Type} [DecidableEq α] : List α → List α → Option (List α)
  | [], s => some s
  | _ :: _, [] => none
  | w :: ws, c :: s => if w = c then afterPrefix? ws s else none

theorem afterPrefix?_eq_some_iff {α : Type} [DecidableEq α] {w s r : List α} :
    afterPrefix? w s = some r ↔ s = w ++ r := by
  fun_induction afterPrefix? w s with
  | case1 s => simp
  | case2 => simp
  | case3 w ws s ih => simp [ih]
  | case4 w ws c s h =>
    constructor
    · intro e
      cases e
    · intro e
      cases e
      exact absurd rfl h

theorem firstSuffix?_eq_some_iff {p : List Char → Bool} {cs : List Char} {n : Nat} :
    firstSuffix? p cs = some n ↔
      n ≤ cs.length ∧ p (cs.drop n) = true ∧ ∀ m < n, p (cs.drop m) = false := by
  induction cs generalizing n with
  | nil =>
    constructor
    · intro h
      rw [firstSuffix?] at h
      split at h
      · next hp =>
        obtain rfl : 0 = n := by simpa using h
        exact ⟨Nat.le_refl _, hp, fun m hm => absurd hm (Nat.not_lt_zero m)⟩
      · cases h
    · rintro ⟨hn, hp, _⟩
      have : n = 0 := by simpa using hn
      subst this
      simpa [firstSuffix?] using hp
  | cons c cs ih =>
    rw [firstSuffix?]
    by_cases hc : p (c :: cs) = true
    · rw [if_pos hc]
      constructor
      · intro h
        obtain rfl : 0 = n := by simpa using h
        exact ⟨Nat.zero_le _, by simpa using hc, fun m hm => absurd hm (Nat.not_lt_zero m)⟩
      · rintro ⟨_, _, hm⟩
        cases n with
        | zero => rfl
        | succ n => simpa [hc] using hm 0 (Nat.succ_pos n)
    · rw [if_neg hc]
      constructor
      · intro h
        obtain ⟨k, hk, rfl⟩ := Option.map_eq_some_iff.1 h
        obtain ⟨hl, hp, hm⟩ := ih.1 hk
        refine ⟨by simpa using hl, by simpa using hp, ?_⟩
        intro m hmk
        cases m with
        | zero => simpa using hc
        | succ m => simpa using hm m (Nat.lt_of_succ_lt_succ hmk)
      · rintro ⟨hl, hp, hm⟩
        cases n with
        | zero => exact absurd hp (by simpa using hc)
        | succ n =>
          have : firstSuffix? p cs = some n :=
            ih.2 ⟨by simpa using hl, by simpa using hp, fun m hmn => by
              simpa using hm (m + 1) (Nat.succ_lt_succ hmn)⟩
          simp [this]

theorem firstSuffix?_eq_none_iff {p : List Char → Bool} {cs : List Char} :
    firstSuffix? p cs = none ↔ ∀ n ≤ cs.length, p (cs.drop n) = false := by
  induction cs with
  | nil => simp [firstSuffix?]
  | cons c cs ih =>
    rw [firstSuffix?]
    by_cases hc : p (c :: cs) = true
    · simp only [if_pos hc]
      constructor
      · intro h
        cases h
      · intro h
        simpa [hc] using h 0 (Nat.zero_le _)
    · simp only [if_neg hc, Option.map_eq_none_iff, ih]
      constructor
      · intro h n hn
        cases n with
        | zero => simpa using hc
        | succ n => simpa using h n (by simpa using hn)
      · intro h n hn
        simpa using h (n + 1) (by simpa using hn)

end DeclLint.Text
