/-
DeclLint/Proofs/Release/Order.lean

Ranges of releases as lists.  `onward r` are the releases from `r` on up to
the newest one, which is what the range from `r` to the newest release holds
(`range_latest`).  A range that stops at a shipped release `v` is a beginning
of it, and the rest is `onward (successor v)`:

    upTo low v ++ onward (successor v) = onward low.

So a range can be cut at any shipped release in it without losing a release or
testing one twice.
-/
import DeclLint.Release.Range
import Mathlib.Data.List.Nodup

namespace DeclLint.Release

/-- The place of a shipped release in their order. -/
abbrev Position := Fin shippedNames.length

/-- The release is shipped, and no newer than the one at position `v`. -/
def IsUpTo (r : Release) (v : Position) : Prop :=
  match r with
  | .shipped i => i ≤ v
  | _ => False

instance (r : Release) (v : Position) : Decidable (r.IsUpTo v) := by
  cases r <;> unfold IsUpTo <;> infer_instance

@[simp] theorem isUpTo_shipped {i v : Position} : (shipped i).IsUpTo v ↔ i ≤ v := Iff.rfl

@[simp] theorem not_isUpTo_latest {v : Position} : ¬ latest.IsUpTo v := id

@[simp] theorem not_isUpTo_localBuild {v : Position} : ¬ localBuild.IsUpTo v := id

theorem IsUpTo.exists_shipped {r : Release} {v : Position} (h : r.IsUpTo v) :
    ∃ i, r = shipped i ∧ i ≤ v := by
  cases r with
  | shipped i => exact ⟨i, rfl, h⟩
  | latest => exact absurd h not_isUpTo_latest
  | localBuild => exact absurd h not_isUpTo_localBuild

/-! ### The release after one -/

/-- The release that came out after the shipped one at position `v`. -/
def successor (v : Position) : Release :=
  if h : v.val + 1 < shippedNames.length then shipped ⟨v.val + 1, h⟩ else latest

theorem next_shipped (v : Position) : next (shipped v) = .ok (successor v) := by
  simp only [next, successor]
  split <;> rfl

theorem successor_isUpTo {v u : Position} (h : v < u) : (successor v).IsUpTo u := by
  have hv : v.val + 1 < shippedNames.length := Nat.lt_of_le_of_lt h u.isLt
  rw [successor, dif_pos hv, isUpTo_shipped, Fin.le_def]
  exact h

/-- The newer of an old release and a successor is the successor. -/
theorem later_successor {r : Release} {v : Position} (h : r.IsUpTo v) :
    later r (successor v) = .ok (successor v) := by
  obtain ⟨i, rfl, hi⟩ := h.exists_shipped
  unfold successor
  split
  · next hv =>
    have hn : ¬ (⟨v.val + 1, hv⟩ : Position) ≤ i := by
      rw [Fin.le_def]
      show ¬ v.val + 1 ≤ i.val
      omega
    simp only [later, if_neg hn]
  · rfl

/-- The newer of two releases is up to a shipped one exactly if both are. -/
theorem isUpTo_later_iff {r s low : Release} {v : Position} (h : later r s = .ok low) :
    low.IsUpTo v ↔ r.IsUpTo v ∧ s.IsUpTo v := by
  cases r with
  | localBuild => cases h
  | latest =>
    cases s with
    | localBuild => cases h
    | _ =>
      obtain rfl := Except.ok.inj h
      simp
  | shipped i =>
    cases s with
    | localBuild => cases h
    | latest =>
      obtain rfl := Except.ok.inj h
      simp
    | shipped j =>
      obtain rfl := Except.ok.inj h
      rw [isUpTo_shipped, isUpTo_shipped, isUpTo_shipped]
      split
      · next hji => exact ⟨fun hi => ⟨hi, Fin.le_trans hji hi⟩, And.left⟩
      · next hji =>
        exact ⟨fun hj => ⟨Fin.le_trans (Fin.le_of_lt (Fin.not_le.mp hji)) hj, hj⟩, And.right⟩

theorem isUpTo_of_later {r s low : Release} {v : Position} (h : later r s = .ok low)
    (hlow : low.IsUpTo v) : r.IsUpTo v :=
  ((isUpTo_later_iff h).mp hlow).1

theorem exists_later_shipped {r : Release} (hr : r ≠ .localBuild) (i : Position) :
    ∃ low, later r (shipped i) = .ok low := by
  cases r with
  | shipped j => exact ⟨_, rfl⟩
  | latest => exact ⟨_, rfl⟩
  | localBuild => exact absurd rfl hr

theorem ne_localBuild_of_later {r s low : Release} (h : later r s = .ok low) :
    low ≠ localBuild := by
  rintro rfl
  cases r <;> cases s <;> cases h

/-! ### Ranges -/

/-- The releases from `r` on, up to the newest one. -/
def onward : Release → List Release
  | shipped i => allShipped.drop i ++ [latest]
  | latest => [latest]
  | localBuild => []

/-- The releases from `r` on, up to the shipped one at position `v`. -/
def upTo (r : Release) (v : Position) : List Release :=
  match r with
  | shipped i => (allShipped.take (v + 1)).drop i
  | _ => []

theorem range_latest {r : Release} (h : r ≠ localBuild) : range r latest = .ok (onward r) := by
  cases r with
  | shipped i => rfl
  | latest => rfl
  | localBuild => exact absurd rfl h

theorem range_shipped {r : Release} {v : Position} (h : r.IsUpTo v) :
    range r (shipped v) = .ok (upTo r v) := by
  obtain ⟨i, rfl, hi⟩ := h.exists_shipped
  simp only [range, if_neg (Fin.not_lt.mpr hi), upTo]

/-- What is newer than a shipped release forms no range with it. -/
theorem exists_range_eq_error {r : Release} {v : Position} (h : ¬ r.IsUpTo v) :
    ∃ fault, range r (shipped v) = .error fault := by
  cases r with
  | shipped i => exact ⟨_, if_pos (Fin.not_le.mp h)⟩
  | latest => exact ⟨_, rfl⟩
  | localBuild => exact ⟨_, rfl⟩

theorem length_allShipped : allShipped.length = shippedNames.length := by
  rw [allShipped, List.length_map, List.length_finRange]

/-- A range that is cut at a shipped release is put together again by its parts. -/
theorem upTo_append_onward {r : Release} {v : Position} (h : r.IsUpTo v) :
    upTo r v ++ onward (successor v) = onward r := by
  obtain ⟨i, rfl, hi⟩ := h.exists_shipped
  have hlen : i.val ≤ (allShipped.take (v.val + 1)).length := by
    rw [List.length_take, length_allShipped]
    exact Nat.le_min.mpr ⟨Nat.le_succ_of_le hi, Nat.le_of_lt i.isLt⟩
  -- the first part drops the releases before `i`, the second takes up where it stops
  have hcut : (allShipped.take (v.val + 1)).drop i ++ allShipped.drop (v.val + 1)
      = allShipped.drop i := by
    rw [← List.drop_append_of_le_length hlen, List.take_append_drop]
  unfold successor
  split
  · show _ ++ (allShipped.drop (v.val + 1) ++ [latest]) = allShipped.drop i ++ [latest]
    rw [← hcut, List.append_assoc]
    rfl
  -- after the newest shipped release only the unreleased one is left
  · next hv =>
    have hend : allShipped.drop (v.val + 1) = [] :=
      List.drop_eq_nil_of_le (by rw [length_allShipped]; exact Nat.le_of_not_lt hv)
    show _ ++ [latest] = allShipped.drop i ++ [latest]
    rw [← hcut, hend, List.append_nil]
    rfl

/-! ### What a range holds -/

theorem nodup_allShipped : allShipped.Nodup := by
  unfold allShipped
  exact (List.nodup_finRange _).map fun _ _ h => shipped.inj h

theorem mem_take_allShipped {r : Release} {n : Nat} :
    r ∈ allShipped.take n ↔ ∃ j : Position, j.val < n ∧ r = shipped j := by
  unfold allShipped
  rw [← List.map_take, List.mem_map]
  constructor
  · rintro ⟨j, hj, rfl⟩
    obtain ⟨k, hk, rfl⟩ := List.mem_take_iff_getElem.mp hj
    refine ⟨_, ?_, rfl⟩
    rw [List.getElem_finRange]
    exact (Nat.lt_min.mp hk).1
  · rintro ⟨j, hj, rfl⟩
    refine ⟨j, List.mem_take_iff_getElem.mpr ⟨j.val, ?_, ?_⟩, rfl⟩
    · rw [List.length_finRange]
      exact Nat.lt_min.mpr ⟨hj, j.isLt⟩
    · rw [List.getElem_finRange]
      rfl

theorem mem_drop_allShipped {r : Release} {n : Nat} :
    r ∈ allShipped.drop n ↔ ∃ j : Position, n ≤ j.val ∧ r = shipped j := by
  unfold allShipped
  rw [← List.map_drop, List.mem_map]
  constructor
  · rintro ⟨j, hj, rfl⟩
    obtain ⟨k, hk, rfl⟩ := List.mem_drop_iff_getElem.mp hj
    refine ⟨_, ?_, rfl⟩
    rw [List.getElem_finRange]
    exact Nat.le_add_right n k
  · rintro ⟨j, hj, rfl⟩
    refine ⟨j, List.mem_drop_iff_getElem.mpr ⟨j.val - n, ?_, ?_⟩, rfl⟩
    · rw [List.length_finRange, Nat.sub_add_cancel hj]
      exact j.isLt
    · rw [List.getElem_finRange]
      exact Fin.ext (Nat.add_sub_cancel' hj)

theorem mem_onward_shipped {r : Release} {i : Position} :
    r ∈ onward (shipped i) ↔ (∃ j, i ≤ j ∧ r = shipped j) ∨ r = latest := by
  rw [onward, List.mem_append, mem_drop_allShipped, List.mem_singleton]
  rfl

theorem nodup_onward (r : Release) : (onward r).Nodup := by
  cases r with
  | shipped i =>
    refine List.nodup_append.mpr
      ⟨(List.drop_sublist _ _).nodup nodup_allShipped, by simp, ?_⟩
    rintro a ha b hb rfl
    obtain ⟨j, -, rfl⟩ := mem_drop_allShipped.mp ha
    cases List.mem_singleton.mp hb
  | latest => simp [onward]
  | localBuild => simp [onward]

theorem isUpTo_of_mem_upTo {r s : Release} {v : Position} (h : s ∈ upTo r v) : s.IsUpTo v := by
  cases r with
  | latest => cases h
  | localBuild => cases h
  | shipped i =>
    obtain ⟨j, hj, rfl⟩ := mem_take_allShipped.mp (List.mem_of_mem_drop h)
    exact Nat.le_of_lt_succ hj

/-- No release that comes after position `v` is up to it. -/
theorem not_isUpTo_of_mem_onward {s : Release} {v : Position} (h : s ∈ onward (successor v)) :
    ¬ s.IsUpTo v := by
  unfold successor at h
  split at h
  · rcases mem_onward_shipped.mp h with ⟨j, hj, rfl⟩ | rfl
    · exact Fin.not_le.mpr hj
    · exact not_isUpTo_latest
  · obtain rfl := List.mem_singleton.mp h
    exact not_isUpTo_latest

theorem mem_upTo_iff {r s : Release} {v : Position} (h : r.IsUpTo v) :
    s ∈ upTo r v ↔ s ∈ onward r ∧ s.IsUpTo v := by
  rw [← upTo_append_onward h, List.mem_append]
  constructor
  · intro hs
    exact ⟨Or.inl hs, isUpTo_of_mem_upTo hs⟩
  · rintro ⟨hs | hs, hv⟩
    · exact hs
    · exact absurd hv (not_isUpTo_of_mem_onward hs)

theorem mem_onward_successor_iff {r s : Release} {v : Position} (h : r.IsUpTo v) :
    s ∈ onward (successor v) ↔ s ∈ onward r ∧ ¬ s.IsUpTo v := by
  rw [← upTo_append_onward h, List.mem_append]
  constructor
  · intro hs
    exact ⟨Or.inr hs, not_isUpTo_of_mem_onward hs⟩
  · rintro ⟨hs | hs, hv⟩
    · exact absurd (isUpTo_of_mem_upTo hs) hv
    · exact hs

end DeclLint.Release
