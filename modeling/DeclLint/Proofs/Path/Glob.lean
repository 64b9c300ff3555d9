/-
DeclLint/Proofs/Path/Glob.lean

Matching as cutting.  A pattern matches a path exactly if the path can be cut into
consecutive pieces, one for each segment of the pattern: `**` takes a piece of any
length, and every other segment takes a single path segment that it matches
(`CanBeCut`).  All of it rests on one equation for the first segment of a pattern
(`globMatches_cons`): a pattern in two parts cuts the path in two
(`globMatches_append`), and a run of `**` is worth a single one
(`globMatches_collapsed`).

What runs is matching with a bound on its nesting.  How deep a cut is nested
depends on the pattern alone (`nesting`).  Within the bound there is a result, the
right one (`globWithin_of_nesting_lt`); beyond it a path may be refused before the
pattern is followed to its end, but none is matched (`nesting_lt_of_globWithin`).
-/
import DeclLint.Project.Files
import Mathlib.Data.List.Basic

namespace DeclLint.Path

/-! ### Single segments -/

theorem wildMatches_anyMany (cs : List Char) : wildMatches [.anyMany] cs = true := by
  induction cs with
  | nil => rfl
  | cons c cs ih => rw [wildMatches_anyMany_cons, ih, Bool.or_true]

theorem segmentMatches_star (s : String) : segmentMatches (LooseText.ofString "*") s = true := by
  have hstar : wilds (LooseText.ofString "*") = [.anyMany] := by decide +kernel
  rw [segmentMatches, hstar, wildMatches_anyMany]

/-- The character makes a pattern a wildcard. -/
def IsWildcard (c : Char) : Prop :=
  c = '*' ∨ c = '?' ∨ c = '['

/-- Without wildcards, the elements of a pattern are its characters. -/
theorem wilds_of_plain {cs : List Char} (h : ∀ c ∈ cs, ¬ IsWildcard c) :
    wilds (cs.map .char) = cs.map fun c => .literal (.char c) := by
  induction cs with
  | nil => rw [List.map_nil, wilds, List.map_nil]
  | cons c cs ih =>
    obtain ⟨hc, hcs⟩ := List.forall_mem_cons.mp h
    simp only [IsWildcard, not_or] at hc
    rw [List.map_cons, List.map_cons, wilds, ih hcs]
    all_goals simp [hc]

theorem wildMatches_literals (cs ds : List Char) :
    wildMatches (cs.map fun c => .literal (.char c)) ds = true ↔ cs = ds := by
  induction cs generalizing ds with
  | nil => cases ds <;> simp [wildMatches_nil]
  | cons c cs ih =>
    rcases ds with - | ⟨d, ds⟩
    · simp [wildMatches, endsMatched]
    · rw [List.map_cons, wildMatches_cons (by simp), Bool.and_eq_true, ih, List.cons.injEq]
      simp only [Wild.accepts, Text.CodePoint.toNat, decide_eq_true_eq, Char.toNat_inj]

/-- Without wildcards, a pattern matches its own text only. -/
theorem segmentMatches_plain {name : String} (h : ∀ c ∈ name.toList, ¬ IsWildcard c)
    (segment : String) :
    segmentMatches (LooseText.ofString name) segment = true ↔ name = segment := by
  rw [segmentMatches, LooseText.ofString, wilds_of_plain h, wildMatches_literals, String.toList_inj]

section

variable {π σ : Type} {accepts : π → σ → Bool}

/-! ### Cuts -/

/-- What a segment of a pattern takes of a path: `**` any piece of it, every other one a single
segment that it matches. -/
inductive Takes (accepts : π → σ → Bool) : GlobSegment π → List σ → Prop
  | deep (piece : List σ) : Takes accepts .deep piece
  | one {p : π} {s : σ} : accepts p s = true → Takes accepts (.one p) [s]

/-- The path can be cut into consecutive pieces, one for each segment of the pattern, which
takes it. -/
def CanBeCut (accepts : π → σ → Bool) (ps : List (GlobSegment π)) (ss : List σ) : Prop :=
  ∃ pieces : List (List σ), pieces.flatten = ss ∧ List.Forall₂ (Takes accepts) ps pieces

@[simp] theorem globMatches_nil (ss : List σ) : globMatches accepts [] ss = true ↔ ss = [] := by
  simp [globMatches]

/-- The first segment of a pattern takes a beginning of the path, and the others match what is
left. -/
theorem globMatches_cons (p : GlobSegment π) (ps : List (GlobSegment π)) (ss : List σ) :
    globMatches accepts (p :: ps) ss = true ↔ ∃ piece rest, ss = piece ++ rest ∧
      Takes accepts p piece ∧ globMatches accepts ps rest = true := by
  cases p with
  | deep =>
    simp only [globMatches, List.any_eq_true, List.mem_range]
    constructor
    · rintro ⟨i, -, h⟩
      exact ⟨ss.take i, ss.drop i, (List.take_append_drop i ss).symm, .deep _, h⟩
    · rintro ⟨piece, rest, rfl, -, h⟩
      refine ⟨piece.length, ?_, ?_⟩
      · simp only [List.length_append]
        omega
      · rwa [List.drop_left]
  | one p =>
    constructor
    · intro h
      rcases ss with - | ⟨s, ss⟩
      · simp [globMatches] at h
      · simp only [globMatches, Bool.and_eq_true] at h
        exact ⟨[s], ss, rfl, .one h.1, h.2⟩
    · rintro ⟨piece, rest, rfl, htakes, h⟩
      cases htakes with
      | one hs => simp [globMatches, hs, h]

/-- **Matching is cutting.** -/
theorem globMatches_iff_canBeCut (ps : List (GlobSegment π)) (ss : List σ) :
    globMatches accepts ps ss = true ↔ CanBeCut accepts ps ss := by
  induction ps generalizing ss with
  | nil =>
    rw [globMatches_nil]
    constructor
    · rintro rfl
      exact ⟨[], rfl, .nil⟩
    · rintro ⟨pieces, rfl, h⟩
      cases h
      rfl
  | cons p ps ih =>
    rw [globMatches_cons]
    constructor
    · rintro ⟨piece, rest, rfl, htakes, h⟩
      obtain ⟨pieces, rfl, hpieces⟩ := (ih rest).mp h
      exact ⟨piece :: pieces, rfl, .cons htakes hpieces⟩
    · rintro ⟨pieces, rfl, h⟩
      cases h with
      | @cons _ piece _ pieces htakes hpieces =>
        exact ⟨piece, pieces.flatten, rfl, htakes, (ih _).mpr ⟨pieces, rfl, hpieces⟩⟩

/-- A pattern in two parts cuts the path in two. -/
theorem globMatches_append (ps qs : List (GlobSegment π)) (ss : List σ) :
    globMatches accepts (ps ++ qs) ss = true ↔ ∃ front back, ss = front ++ back ∧
      globMatches accepts ps front = true ∧ globMatches accepts qs back = true := by
  induction ps generalizing ss with
  | nil => simp
  | cons p ps ih =>
    rw [List.cons_append, globMatches_cons]
    constructor
    · rintro ⟨piece, rest, rfl, htakes, h⟩
      obtain ⟨front, back, rfl, hfront, hback⟩ := (ih rest).mp h
      refine ⟨piece ++ front, back, (List.append_assoc piece front back).symm, ?_, hback⟩
      exact (globMatches_cons p ps _).mpr ⟨piece, front, rfl, htakes, hfront⟩
    · rintro ⟨front, back, rfl, hfront, hback⟩
      obtain ⟨piece, rest, rfl, htakes, h⟩ := (globMatches_cons p ps front).mp hfront
      refine ⟨piece, rest ++ back, List.append_assoc piece rest back, htakes, ?_⟩
      exact (ih _).mpr ⟨rest, back, rfl, h, hback⟩

/-! ### Runs of `**` -/

/-- The pattern with a single `**` for each run of them. -/
def collapsed : List (GlobSegment π) → List (GlobSegment π)
  | [] => []
  | .deep :: ps =>
    match collapsed ps with
    | .deep :: qs => .deep :: qs
    | qs => .deep :: qs
  | .one p :: ps => .one p :: collapsed ps

theorem globMatches_deep_deep (ps : List (GlobSegment π)) (ss : List σ) :
    globMatches accepts (.deep :: .deep :: ps) ss = globMatches accepts (.deep :: ps) ss := by
  apply Bool.eq_iff_iff.mpr
  constructor
  · intro h
    obtain ⟨piece, rest, rfl, -, h⟩ := (globMatches_cons _ _ _).mp h
    obtain ⟨piece', rest', rfl, -, h⟩ := (globMatches_cons _ _ _).mp h
    -- the two pieces are one
    refine (globMatches_cons _ _ _).mpr ⟨piece ++ piece', rest', ?_, .deep _, h⟩
    rw [List.append_assoc]
  · intro h
    exact (globMatches_cons _ _ _).mpr ⟨[], ss, rfl, .deep _, h⟩

/-- A segment in front does not tell apart what matches alike. -/
theorem globMatches_cons_congr {ps qs : List (GlobSegment π)}
    (h : ∀ ss, globMatches accepts ps ss = globMatches accepts qs ss) (p : GlobSegment π)
    (ss : List σ) : globMatches accepts (p :: ps) ss = globMatches accepts (p :: qs) ss := by
  apply Bool.eq_iff_iff.mpr
  simp only [globMatches_cons, h]

/-- A run of `**` is worth a single one. -/
theorem globMatches_collapsed (ps : List (GlobSegment π)) (ss : List σ) :
    globMatches accepts (collapsed ps) ss = globMatches accepts ps ss := by
  induction ps generalizing ss with
  | nil => rfl
  | cons p ps ih =>
    cases p with
    | deep =>
      rw [← globMatches_cons_congr ih .deep ss, collapsed]
      split
      · next qs h => rw [h, globMatches_deep_deep]
      · rfl
    | one p => exact globMatches_cons_congr ih (.one p) ss

/-! ### The nesting of a pattern -/

/-- How deep a cut along the pattern is nested: a `**` takes three levels, every other segment
one. -/
def nesting : List (GlobSegment π) → Nat
  | [] => 0
  | .deep :: ps => nesting ps + 3
  | .one _ :: ps => nesting ps + 1

theorem nesting_append (ps qs : List (GlobSegment π)) :
    nesting (ps ++ qs) = nesting ps + nesting qs := by
  induction ps with
  | nil => simp [nesting]
  | cons p ps ih =>
    cases p with
    | deep =>
      simp only [List.cons_append, nesting, ih]
      omega
    | one p =>
      simp only [List.cons_append, nesting, ih]
      omega

theorem nesting_le_length (ps : List (GlobSegment π)) : nesting ps ≤ 3 * ps.length := by
  induction ps with
  | nil => simp [nesting]
  | cons p ps ih =>
    cases p with
    | deep =>
      simp only [nesting, List.length_cons]
      omega
    | one p =>
      simp only [nesting, List.length_cons]
      omega

theorem firstResult_some {α : Type} {f : α → Option Bool} {g : α → Bool}
    (h : ∀ x, f x = some (g x)) (xs : List α) : firstResult f xs = some (xs.any g) := by
  induction xs with
  | nil => rfl
  | cons x xs ih =>
    rw [firstResult, h, List.any_cons]
    cases g x with
    | false => simpa using ih
    | true => rfl

theorem exists_of_firstResult {α : Type} {f : α → Option Bool} {xs : List α}
    (h : firstResult f xs = some true) : ∃ x, f x = some true := by
  induction xs with
  | nil => simp [firstResult] at h
  | cons x xs ih =>
    rw [firstResult] at h
    split at h
    · exact ih h
    · exact ⟨x, h⟩

/-- Within the bound, bounded matching has a result, the right one. -/
theorem globWithin_of_nesting_lt {n : Nat} {ps : List (GlobSegment π)} (h : nesting ps < n)
    (ss : List σ) : globWithin accepts n ps ss = some (globMatches accepts ps ss) := by
  induction ps generalizing n ss with
  | nil =>
    obtain ⟨m, rfl⟩ := Nat.exists_eq_add_one_of_ne_zero (Nat.ne_zero_of_lt h)
    simp [globWithin, globMatches]
  | cons p ps ih =>
    obtain ⟨m, rfl⟩ := Nat.exists_eq_add_one_of_ne_zero (Nat.ne_zero_of_lt h)
    cases p with
    | deep =>
      have hps : nesting ps < m - 2 := by
        simp only [nesting] at h
        omega
      rw [globWithin, globMatches]
      exact firstResult_some (fun i => ih hps (ss.drop i)) _
    | one p =>
      have hps : nesting ps < m := by
        simp only [nesting] at h
        omega
      rcases ss with - | ⟨s, ss⟩
      · simp [globWithin, globMatches]
      · rw [globWithin, globMatches, ih hps ss]
        cases accepts p s <;> rfl

/-- Beyond the bound, nothing is matched. -/
theorem nesting_lt_of_globWithin {n : Nat} {ps : List (GlobSegment π)} {ss : List σ}
    (h : globWithin accepts n ps ss = some true) : nesting ps < n := by
  induction ps generalizing n ss with
  | nil =>
    cases n with
    | zero => simp [globWithin] at h
    | succ m => exact Nat.succ_pos m
  | cons p ps ih =>
    cases n with
    | zero => simp [globWithin] at h
    | succ m =>
      cases p with
      | deep =>
        rw [globWithin] at h
        obtain ⟨i, hi⟩ := exists_of_firstResult h
        have hps := ih hi
        simp only [nesting]
        omega
      | one p =>
        rcases ss with - | ⟨s, ss⟩
        · simp [globWithin] at h
        · simp only [globWithin] at h
          split at h
          · have hps := ih h
            simp only [nesting]
            omega
          · simp at h

/-! ### Bounded matching -/

/-- Matching with the bound `n` on its nesting is as it should be. -/
structure IsMatching (accepts : π → σ → Bool) (n : Nat) : Prop where
  /-- Within the bound, every path is matched or refused. -/
  decided : ∀ ps ss, nesting ps < n →
    globWithin accepts n ps ss = some true ∨ globWithin accepts n ps ss = some false
  /-- The paths that are matched are those that can be cut. -/
  cut : ∀ ps ss, nesting ps < n →
    (globWithin accepts n ps ss = some true ↔ CanBeCut accepts ps ss)
  /-- A pattern in two parts matches what is a path of the one and a path of the other. -/
  parts : ∀ ps qs ss, nesting (ps ++ qs) < n →
    (globWithin accepts n (ps ++ qs) ss = some true ↔ ∃ front back, ss = front ++ back ∧
      globWithin accepts n ps front = some true ∧ globWithin accepts n qs back = some true)
  /-- Patterns that differ in the length of their runs of `**` match the same. -/
  runs : ∀ ps qs ss, nesting ps < n → nesting qs < n → collapsed ps = collapsed qs →
    globWithin accepts n ps ss = globWithin accepts n qs ss
  /-- Beyond the bound, a path is refused or there is no result. -/
  beyond : ∀ ps ss, n ≤ nesting ps →
    globWithin accepts n ps ss = some false ∨ globWithin accepts n ps ss = none

theorem globWithin_eq_some_true_iff {n : Nat} {ps : List (GlobSegment π)} (h : nesting ps < n)
    (ss : List σ) : globWithin accepts n ps ss = some true ↔ globMatches accepts ps ss = true := by
  rw [globWithin_of_nesting_lt h, Option.some.injEq]

theorem isMatching_globWithin (accepts : π → σ → Bool) (n : Nat) : IsMatching accepts n where
  decided ps ss h := by
    rw [globWithin_of_nesting_lt h]
    cases globMatches accepts ps ss <;> simp
  cut ps ss h := by
    rw [globWithin_eq_some_true_iff h, globMatches_iff_canBeCut]
  parts ps qs ss h := by
    have hps : nesting ps < n := by
      rw [nesting_append] at h
      omega
    have hqs : nesting qs < n := by
      rw [nesting_append] at h
      omega
    rw [globWithin_eq_some_true_iff h, globMatches_append]
    simp only [globWithin_eq_some_true_iff hps, globWithin_eq_some_true_iff hqs]
  runs ps qs ss hps hqs h := by
    rw [globWithin_of_nesting_lt hps, globWithin_of_nesting_lt hqs, ← globMatches_collapsed ps, h,
      globMatches_collapsed]
  beyond ps ss h := by
    rcases hresult : globWithin accepts n ps ss with - | b
    · exact Or.inr rfl
    · cases b with
      | false => exact Or.inl rfl
      | true => exact absurd (nesting_lt_of_globWithin hresult) (Nat.not_lt.mpr h)

end

/-- Everything below a directory is every path that is not empty. -/
theorem globMatches_everything (segments : List String) :
    globMatches segmentMatches [.deep, .one (LooseText.ofString "*")] segments = true ↔
      segments ≠ [] := by
  constructor
  · rintro h rfl
    simp [globMatches] at h
  · intro h
    obtain ⟨front, last, rfl⟩ := (List.eq_nil_or_concat' segments).resolve_left h
    refine (globMatches_cons _ _ _).mpr ⟨front, [last], rfl, .deep front, ?_⟩
    simp [globMatches, segmentMatches_star]

/-- Names without wildcards match themselves only. -/
theorem globMatches_names {names : List String}
    (h : ∀ s ∈ names, ∀ c ∈ s.toList, ¬ IsWildcard c) (segments : List String) :
    globMatches segmentMatches (names.map fun s => .one (LooseText.ofString s)) segments =
      true ↔ segments = names := by
  induction names generalizing segments with
  | nil => exact globMatches_nil segments
  | cons name names ih =>
    obtain ⟨hname, hnames⟩ := List.forall_mem_cons.mp h
    rw [List.map_cons, globMatches_cons]
    constructor
    · rintro ⟨piece, rest, rfl, htakes, hrest⟩
      cases htakes with
      | one hs =>
        rw [← (segmentMatches_plain hname _).mp hs, (ih hnames rest).mp hrest]
        rfl
    · rintro rfl
      exact ⟨[name], names, rfl, .one ((segmentMatches_plain hname name).mpr rfl),
        (ih hnames names).mpr rfl⟩

theorem nesting_of_isTooDeep {room : Nat} {g : List (GlobSegment LooseText)}
    {segments : List String} (h : isTooDeep room g segments = true) : room ≤ nesting g := by
  apply Nat.not_lt.mp
  intro hlt
  rw [isTooDeep, globWithin_of_nesting_lt hlt] at h
  simp at h

/-- The matching of a path with the text of a pattern is bounded matching. -/
theorem isMatched_eq_globWithin (room : Nat) (segments : List String) (pattern : LooseText) :
    Project.isMatched room segments pattern =
      match globWithin segmentMatches room (globOf pattern) segments with
      | some b => .ok b
      | none => .error (.excess (.nesting .pattern)) := by
  rw [Project.isMatched, isTooDeep]
  rcases hresult : globWithin segmentMatches room (globOf pattern) segments with - | b
  · -- without a result the pattern is nested beyond the room, so it is long enough to be checked
    have hdeep : room ≤ nesting (globOf pattern) := by
      apply Nat.not_lt.mp
      intro h
      rw [globWithin_of_nesting_lt h] at hresult
      cases hresult
    have hlong : room ≤ 3 * (globOf pattern).length :=
      Nat.le_trans hdeep (nesting_le_length (globOf pattern))
    simp [hlong]
  · simp [matchesGlob, globMatches_of_globWithin hresult]

/-- **Matching is cutting**: with any bound on its nesting and whatever decides about a single
segment, a pattern within the bound matches exactly the paths that can be cut along it, so a pattern
in two parts cuts the path in two, and the length of a run of `**` does not matter; a pattern beyond
the bound matches nothing.  The patterns of a project are matched in this way. -/
theorem matches_asCut {π σ : Type} (accepts : π → σ → Bool) (n : Nat) :
    IsMatching accepts n ∧ ∀ (room : Nat) (segments : List String) (pattern : LooseText),
      Project.isMatched room segments pattern =
        match globWithin segmentMatches room (globOf pattern) segments with
        | some b => .ok b
        | none => .error (.excess (.nesting .pattern)) :=
  ⟨isMatching_globWithin accepts n, isMatched_eq_globWithin⟩

theorem canBeCut_replicate {π σ : Type} {accepts : π → σ → Bool} {p : π} {s : σ}
    (h : accepts p s = true) (n : Nat) :
    CanBeCut accepts (List.replicate n (.one p)) (List.replicate n s) := by
  apply (globMatches_iff_canBeCut _ _).mp
  induction n with
  | zero => rfl
  | succ n ih => exact (globMatches_cons _ _ _).mpr ⟨[s], List.replicate n s, rfl, .one h, ih⟩

theorem nesting_replicate {π : Type} (n : Nat) (p : π) :
    nesting (List.replicate n (.one p)) = n := by
  induction n with
  | zero => rfl
  | succ n ih => simp [List.replicate_succ, nesting, ih]

/-- A path of many segments can be cut along a pattern of as many, but the limit of the nesting
keeps it from being matched. -/
theorem not_all_cut :
    ¬ ∀ (ps : List (GlobSegment LooseText)) (ss : List String),
      globWithin segmentMatches usualDepth ps ss = some true ↔ CanBeCut segmentMatches ps ss := by
  intro hall
  have hcut : CanBeCut segmentMatches (List.replicate 1500 (.one (LooseText.ofString "a")))
      (List.replicate 1500 "a") :=
    canBeCut_replicate (by decide +kernel) 1500
  have hnesting := nesting_lt_of_globWithin ((hall _ _).mpr hcut)
  rw [nesting_replicate, usualDepth] at hnesting
  omega

end DeclLint.Path
