/-
DeclLint/Proofs/Files/Below.lean

What lies below a place of a tree, and when a path can be looked up.  The entries
below a place are listed in the order in which they were made; as a set they
are what is found there (`mem_below_iff`), and no place is listed twice.  Where a
path leads depends on nothing but that (`locate_congr`).  The only fault that a look
at a path does not take for nothing is a name or a path that is too long
(`IsOverlong`).
-/
import DeclLint.Proofs.Files.Walk
import Mathlib.Data.List.Nodup

namespace DeclLint

namespace FileTree

/-! ### What lies below a place -/

variable {t : FileTree} {p q : Place} {n : Node}

theorem node?_eq_some_iff_mem (hp : p ≠ []) : t.node? p = some n ↔ (p, n) ∈ t.entries := by
  rw [node?, if_neg hp, Table.get?_eq_some_iff_mem t.nodup]

theorem mem_below_iff {segments : Place} :
    (segments, n) ∈ t.below p ↔ segments ≠ [] ∧ t.node? (p ++ segments) = some n := by
  unfold below
  rw [List.mem_filterMap]
  constructor
  · rintro ⟨e, he, h⟩
    split at h
    · next s ss hcut =>
      obtain ⟨rfl, rfl⟩ := Prod.mk.inj (Option.some.inj h)
      rw [Text.afterPrefix?_eq_some_iff] at hcut
      refine ⟨List.cons_ne_nil s ss, ?_⟩
      rw [← hcut, node?_eq_some_iff_mem (hcut ▸ by simp)]
      exact he
    · cases h
  · rintro ⟨hne, h⟩
    obtain ⟨s, ss, rfl⟩ := List.exists_cons_of_ne_nil hne
    refine ⟨(p ++ s :: ss, n), (node?_eq_some_iff_mem (by simp)).mp h, ?_⟩
    rw [Text.afterPrefix?_eq_some_iff.mpr rfl]

/-- What is listed below a place are some of the entries, in their order. -/
theorem sublist_below (t : FileTree) (p : Place) :
    ((t.below p).map fun e => p ++ e.1).Sublist t.entries.keys := by
  unfold below Table.keys
  induction t.entries with
  | nil => exact List.Sublist.slnil
  | cons e es ih =>
    rw [List.filterMap_cons, List.map_cons]
    split
    · exact ih.cons e.1
    · next found hfound =>
      split at hfound
      · next s ss hcut =>
        obtain rfl := Option.some.inj hfound
        rw [List.map_cons, ← Text.afterPrefix?_eq_some_iff.mp hcut]
        exact ih.cons_cons e.1
      · cases hfound

theorem nodup_below (t : FileTree) (p : Place) : ((t.below p).map (·.1)).Nodup := by
  have h := (sublist_below t p).nodup t.nodup
  refine List.Nodup.of_map (p ++ ·) ?_
  rwa [List.map_map]

/-! ### Paths that are too long -/

theorem exists_overlong_of_walk {here : Place} {segments : List String}
    (h : t.walk here segments = .error .nameTooLong) :
    ∃ s ∈ segments, segmentLimit < s.utf8ByteSize := by
  induction segments generalizing here with
  | nil => cases h
  | cons s rest ih =>
    rw [walk] at h
    have hrest : ∀ {place : Place}, t.walk place rest = .error .nameTooLong →
        ∃ s' ∈ s :: rest, segmentLimit < s'.utf8ByteSize := fun h =>
      (ih h).imp fun s' hs' => ⟨List.mem_cons_of_mem s hs'.1, hs'.2⟩
    split at h
    · split at h
      · exact hrest h
      · split at h
        · next hlong => exact ⟨s, List.mem_cons_self, hlong⟩
        · split at h
          · exact hrest h
          · cases h
    · cases h
    · cases h

/-- No name is refused for a NUL on the way. -/
theorem walk_ne_nulCharacter (here : Place) (segments : List String) :
    t.walk here segments ≠ .error .nulCharacter := by
  intro h
  induction segments generalizing here with
  | nil => cases h
  | cons s rest ih =>
    rw [walk] at h
    split at h
    · split at h
      · exact ih _ h
      · split at h
        · cases h
        · split at h
          · exact ih _ h
          · cases h
    · cases h
    · cases h

/-! ### Trees with the same places -/

theorem walk_congr {u : FileTree} (h : ∀ place, t.node? place = u.node? place) (here : Place)
    (segments : List String) : t.walk here segments = u.walk here segments := by
  induction segments generalizing here with
  | nil => rfl
  | cons s rest ih => simp only [walk, h, ih]

end FileTree

namespace Workspace

variable {w : Workspace} {p : Path}

/-- The path, or a name that it is followed through, has too many bytes. -/
def IsOverlong (w : Workspace) (p : Path) : Prop :=
  pathLimit < p.toString.utf8ByteSize ∨
    ∃ s ∈ (w.absolute p).segments, segmentLimit < s.utf8ByteSize

theorem isOverlong_of_locate (h : w.locate p = .error .nameTooLong) : w.IsOverlong p := by
  unfold locate at h
  split at h
  · cases h
  · split at h
    · next hlong => exact Or.inl hlong
    · exact Or.inr (FileTree.exists_overlong_of_walk h)

theorem locate_eq_nulCharacter_iff : w.locate p = .error .nulCharacter ↔ hasNul p = true := by
  unfold locate
  split
  · next hnul => simp [hnul]
  · next hnul =>
    refine iff_of_false (fun h => ?_) hnul
    split at h
    · cases h
    · exact FileTree.walk_ne_nulCharacter _ _ h

/-- A look at a path fails only where it is too long. -/
theorem isOverlong_of_node? {f : AccessFault} (h : w.node? p = .error f) :
    f = .nameTooLong ∧ w.IsOverlong p := by
  unfold node? at h
  split at h
  · cases h
  · next hlocate =>
    obtain rfl := Except.error.inj h
    exact ⟨rfl, isOverlong_of_locate hlocate⟩
  · cases h

theorem locate_congr {t : FileTree} (h : ∀ place, t.node? place = w.tree.node? place) (p : Path) :
    locate { w with tree := t } p = w.locate p := by
  unfold locate
  rw [FileTree.walk_congr h]
  rfl

theorem node?_congr {t : FileTree} (h : ∀ place, t.node? place = w.tree.node? place) (p : Path) :
    node? { w with tree := t } p = w.node? p := by
  unfold node?
  rw [locate_congr h]
  simp only [h]

end Workspace

end DeclLint
