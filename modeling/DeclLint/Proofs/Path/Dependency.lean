/-
DeclLint/Proofs/Path/Dependency.lean

Which files belong to a dependency.  A file belongs to one if what its path stands
for has a segment with the name of the folder of dependencies.  The names in the text
of a path are those in its segments, read with slashes of both kinds
(`named_toString`), so a path that goes on from another has the names of both.  If the
names that it goes on by do not lead back (`StaysBelow`), double dots cancel in each
part by itself, and the file belongs to a dependency because of one part or the other
(`isDependency_append`).
-/
import DeclLint.Proofs.Path.Resolution
import DeclLint.Proofs.Path.Spelling

namespace DeclLint

/-! ### Pieces -/

namespace Text

variable {α : Type} [DecidableEq α]

/-- The pieces of a list, put together again. -/
theorem intercalate_pieces (sep : α) (xs : List α) : [sep].intercalate (pieces sep xs) = xs := by
  induction xs with
  | nil => rfl
  | cons x xs ih =>
    obtain ⟨p, ps, hps⟩ := List.exists_cons_of_ne_nil (pieces_ne_nil sep xs)
    rw [pieces]
    rw [hps] at ih ⊢
    split
    · next hx =>
      rw [List.intercalate_cons_cons, ih, hx]
      rfl
    · rw [List.modifyHead_cons, ← ih]
      cases ps with
      | nil => simp
      | cons q ps => simp [List.intercalate_cons_cons]

end Text

namespace Path

variable {p : Path} {names : List String} {s t : String}

/-! ### The names in a text -/

theorem named_eq_segmentsOf (s : String) : named s = segmentsOf (forwardSlashes s.toList) := by
  rw [named, segmentsOf, pieces_forwardSlashes]

/-- At a slash, the names in a text come apart. -/
theorem named_append_slash (s t : String) : named (s ++ "/" ++ t) = named s ++ named t := by
  rw [named_eq_segmentsOf, named_eq_segmentsOf, named_eq_segmentsOf, ← segmentsOf_append_slash]
  simp [forwardSlashes]

theorem named_of_isIdle (h : isIdle s = true) : named s = [] := by
  simp only [isIdle, Bool.or_eq_true, decide_eq_true_eq] at h
  rcases h with rfl | rfl
  · decide +kernel
  · decide +kernel

theorem named_intercalate (segments : List String) :
    named (String.intercalate "/" segments) = segments.flatMap named := by
  induction segments with
  | nil => decide +kernel
  | cons s rest ih =>
    cases rest with
    | nil => simp
    | cons t rest =>
      rw [String.intercalate_cons_cons, named_append_slash, ih]
      rfl

theorem named_rootText_append (r : PathRoot) (s : String) : named (rootText r ++ s) = named s := by
  rw [named_eq_segmentsOf, named_eq_segmentsOf, String.toList_append, forwardSlashes,
    List.map_append]
  have hroot : (rootText r).toList.map (fun c => if c = '\\' then '/' else c) =
      (rootText r).toList := by
    cases r <;> decide
  rw [hroot]
  exact segmentsOf_rootText r _

/-- The names in the text of a path are those in its segments. -/
theorem named_toString (p : Path) : named p.toString = p.segments.flatMap named := by
  unfold toString
  split
  · next hdot =>
    rw [hdot.2]
    exact named_of_isIdle (by decide)
  · rw [named_rootText_append, named_intercalate]

/-- The names in a text, found by its segments. -/
theorem flatMap_named_ofString (s : String) : (ofString s).segments.flatMap named = named s := by
  have htext : String.intercalate "/" ((Text.pieces '/' s.toList).map String.ofList) = s := by
    rw [← String.toList_inj, String.toList_intercalate, List.map_map]
    have hid : String.toList ∘ String.ofList = id := funext fun cs => String.toList_ofList
    rw [hid, List.map_id]
    exact Text.intercalate_pieces '/' s.toList
  have hidle : ∀ segments : List String,
      (segments.filter (!isIdle ·)).flatMap named = segments.flatMap named := by
    intro segments
    induction segments with
    | nil => rfl
    | cons t rest ih =>
      rw [List.filter_cons, List.flatMap_cons, ← ih]
      cases ht : isIdle t with
      | true => rw [named_of_isIdle ht]; rfl
      | false => rfl
  conv_rhs => rw [← htext, named_intercalate]
  exact hidle _

/-! ### Paths that go on from others -/

/-- The names do not lead back behind the path that they are followed from, neither as they stand
nor read with slashes of both kinds: their double dots cancel among themselves. -/
structure StaysBelow (names : List String) : Prop where
  followed : ".." ∉ cancelDots false names
  read : ".." ∉ cancelDots false (names.flatMap named)

instance (names : List String) : Decidable (StaysBelow names) :=
  decidable_of_iff (".." ∉ cancelDots false names ∧ ".." ∉ cancelDots false (names.flatMap named))
    ⟨fun h => ⟨h.1, h.2⟩, fun h => ⟨h.followed, h.read⟩⟩

/-- What a text stands for is absolute if the text starts with a slash of either kind. -/
theorem isAbsolute_resolution_iff :
    (resolution s).isAbsolute = true ↔ ∃ c ∈ s.toList.head?, isSlash c = true := by
  rw [resolution_eq_mk, isAbsolute]
  show decide (rootOfCount (s.toList.takeWhile isSlash).length ≠ .relative) = true ↔ _
  rw [decide_eq_true_eq]
  rcases s.toList with - | ⟨c, cs⟩
  · simp [rootOfCount]
  · cases hc : isSlash c with
    | false => simp [List.takeWhile_cons_of_neg, hc, rootOfCount]
    | true =>
      rw [List.takeWhile_cons_of_pos hc, List.length_cons]
      rcases (cs.takeWhile isSlash).length with - | - | n <;> simp [rootOfCount, hc]

theorem isAbsolute_resolution_toString (h : p.isAbsolute = true) :
    (resolution p.toString).isAbsolute = true := by
  obtain ⟨cs, hcs⟩ := head?_toString_of_isAbsolute h
  exact isAbsolute_resolution_iff.mpr ⟨'/', by rw [hcs]; rfl, rfl⟩

/-- What a text that starts with a slash stands for, by the names in it. -/
theorem segments_resolution (h : (resolution s).isAbsolute = true) :
    (resolution s).segments = cancelDots true (named s) := by
  rw [resolution_eq_mk] at h ⊢
  exact congrArg (cancelDots · _) h

/-- What an absolute path stands for, by the names in its segments. -/
theorem segments_resolution_toString (h : p.isAbsolute = true) :
    (resolution p.toString).segments = cancelDots true (p.segments.flatMap named) := by
  rw [segments_resolution (isAbsolute_resolution_toString h), named_toString]

theorem isDependency_iff_mem (file : String) :
    isDependency file = true ↔ dependencyFolder ∈ (resolution file).segments :=
  List.contains_iff_mem

/-- **A file below a path belongs to a dependency because of the path or because of the names that
lead from there to the file.** -/
theorem isDependency_append (hp : p.isAbsolute = true)
    (hnames : ".." ∉ cancelDots false (names.flatMap named)) :
    isDependency (Path.mk p.root (p.segments ++ names)).toString = true ↔
      isDependency p.toString = true ∨
        dependencyFolder ∈ cancelDots false (names.flatMap named) := by
  have habs : (Path.mk p.root (p.segments ++ names)).isAbsolute = true := hp
  rw [isDependency_iff_mem, isDependency_iff_mem, segments_resolution_toString habs,
    segments_resolution_toString hp]
  show dependencyFolder ∈ cancelDots true ((p.segments ++ names).flatMap named) ↔ _
  rw [List.flatMap_append, cancelDots_append_of_notMem hnames, List.mem_append]

/-- Where no double dots lead back, a file belongs to a dependency because of a name that leads to
it or because of the place that these names are followed from. -/
theorem isDependency_slash {r : Path} (hr : Resolves s r) (habs : r.isAbsolute = true)
    (hdots : ".." ∉ named t) :
    isDependency (s ++ "/" ++ t) = true ↔
      dependencyFolder ∈ named t ∨ dependencyFolder ∈ r.segments := by
  obtain rfl := resolves_iff.mp hr
  have hslash : (resolution (s ++ "/" ++ t)).isAbsolute = true := by
    obtain ⟨c, hc, hcslash⟩ := isAbsolute_resolution_iff.mp habs
    refine isAbsolute_resolution_iff.mpr ⟨c, ?_, hcslash⟩
    rw [String.append_assoc, String.toList_append]
    exact List.mem_head?_append_of_mem_head? hc
  have hkept : cancelDots false (named t) = named t := cancelDots_append hdots []
  rw [isDependency_iff_mem, segments_resolution hslash, segments_resolution habs,
    named_append_slash, cancelDots_append_of_notMem (hkept.symm ▸ hdots), hkept, List.mem_append,
    or_comm]

end Path

end DeclLint
