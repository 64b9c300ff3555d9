/-
DeclLint/Proofs/Path/RoundTrip.lean

Writing a path and reading it back.  A path is *clean* if each of its segments
is one that a text can name: neither idle nor cut by a slash.  Every path that
is read from a text is clean, and so is what `child` and `parent` make of clean
paths.  A clean path is read back from its text (`ofString_toString`), so the
texts of different clean paths differ.

The lemma behind it is `segmentsOf_append_slash`: at a slash, the segments that
a text names come apart.
-/
import DeclLint.Path.Basic

namespace DeclLint

/-! ### Pieces -/

namespace Text

variable {α : Type} [DecidableEq α] {sep : α}

theorem pieces_of_notMem {xs : List α} (h : sep ∉ xs) : pieces sep xs = [xs] := by
  induction xs with
  | nil => rfl
  | cons x xs ih =>
    obtain ⟨hx, hxs⟩ := not_or.mp (mt List.mem_cons.mpr h)
    rw [pieces, if_neg fun e => hx e.symm, ih hxs]
    rfl

/-- At a separator, the pieces of a text come apart. -/
theorem pieces_append (xs ys : List α) :
    pieces sep (xs ++ sep :: ys) = pieces sep xs ++ pieces sep ys := by
  induction xs with
  | nil =>
    show pieces sep (sep :: ys) = [] :: pieces sep ys
    rw [pieces, if_pos rfl]
  | cons x xs ih =>
    rw [List.cons_append, pieces, ih, pieces]
    split
    · rfl
    · obtain ⟨p, ps, hps⟩ := List.exists_cons_of_ne_nil (pieces_ne_nil sep xs)
      rw [hps]
      rfl

theorem mem_of_mem_pieces (sep : α) {xs : List α} {x : α} (h : x ∈ xs) :
    x = sep ∨ ∃ piece ∈ pieces sep xs, x ∈ piece := by
  induction xs with
  | nil => cases h
  | cons y ys ih =>
    obtain ⟨p, ps, hps⟩ := List.exists_cons_of_ne_nil (pieces_ne_nil sep ys)
    rw [pieces]
    split
    · next hy =>
      rcases List.mem_cons.mp h with rfl | h
      · exact Or.inl hy
      · obtain hx | ⟨piece, hpiece, hx⟩ := ih h
        · exact Or.inl hx
        · exact Or.inr ⟨piece, List.mem_cons_of_mem _ hpiece, hx⟩
    · rw [hps] at ih ⊢
      rcases List.mem_cons.mp h with rfl | h
      · exact Or.inr ⟨x :: p, List.mem_cons_self, List.mem_cons_self⟩
      · obtain hx | ⟨piece, hpiece, hx⟩ := ih h
        · exact Or.inl hx
        · rcases List.mem_cons.mp hpiece with rfl | hpiece
          · exact Or.inr ⟨y :: piece, List.mem_cons_self, List.mem_cons_of_mem y hx⟩
          · exact Or.inr ⟨piece, List.mem_cons_of_mem _ hpiece, hx⟩

theorem notMem_of_mem_pieces {xs piece : List α} (h : piece ∈ pieces sep xs) : sep ∉ piece := by
  induction xs generalizing piece with
  | nil =>
    obtain rfl := List.mem_singleton.mp h
    exact List.not_mem_nil
  | cons x xs ih =>
    rw [pieces] at h
    split at h
    · rcases List.mem_cons.mp h with rfl | h
      · exact List.not_mem_nil
      · exact ih h
    · next hx =>
      obtain ⟨p, ps, hps⟩ := List.exists_cons_of_ne_nil (pieces_ne_nil sep xs)
      rw [hps, List.modifyHead_cons] at h
      rcases List.mem_cons.mp h with rfl | h
      · refine not_or.mpr ⟨fun e => hx e.symm, ?_⟩ ∘ List.mem_cons.mp
        exact ih (hps ▸ List.mem_cons_self)
      · exact ih (hps ▸ List.mem_cons_of_mem _ h)

end Text

namespace Path

/-! ### Segments -/

/-- The text is one that a segment of a path can have. -/
def IsSegment (s : String) : Prop :=
  isIdle s = false ∧ '/' ∉ s.toList

instance (s : String) : Decidable (IsSegment s) :=
  inferInstanceAs (Decidable (_ ∧ _))

theorem isSegment_of_mem_segmentsOf {cs : List Char} {s : String} (h : s ∈ segmentsOf cs) :
    IsSegment s := by
  obtain ⟨hs, hidle⟩ := List.mem_filter.mp h
  obtain ⟨piece, hpiece, rfl⟩ := List.mem_map.mp hs
  refine ⟨by simpa using hidle, ?_⟩
  rw [String.toList_ofList]
  exact Text.notMem_of_mem_pieces hpiece

theorem segmentsOf_segment {s : String} (h : IsSegment s) : segmentsOf s.toList = [s] := by
  rw [segmentsOf, Text.pieces_of_notMem h.2, List.map_singleton, String.ofList_toList]
  exact List.filter_cons_of_pos (by rw [h.1]; rfl)

/-- At a slash, the segments that a text names come apart. -/
theorem segmentsOf_append_slash (cs ds : List Char) :
    segmentsOf (cs ++ '/' :: ds) = segmentsOf cs ++ segmentsOf ds := by
  rw [segmentsOf, Text.pieces_append, List.map_append, List.filter_append]
  rfl

theorem segmentsOf_slash (cs : List Char) : segmentsOf ('/' :: cs) = segmentsOf cs :=
  segmentsOf_append_slash [] cs

theorem segmentsOf_rootText (r : PathRoot) (cs : List Char) :
    segmentsOf ((rootText r).toList ++ cs) = segmentsOf cs := by
  cases r with
  | relative => rfl
  | single => exact segmentsOf_slash cs
  | double => exact (segmentsOf_slash _).trans (segmentsOf_slash cs)

/-- Segments put together come apart into their texts. -/
theorem pieces_intercalate {segments : List String} (h : ∀ s ∈ segments, IsSegment s)
    (hne : segments ≠ []) :
    Text.pieces '/' (String.intercalate "/" segments).toList = segments.map String.toList := by
  induction segments with
  | nil => exact absurd rfl hne
  | cons s rest ih =>
    obtain ⟨hs, hrest⟩ := List.forall_mem_cons.mp h
    cases rest with
    | nil => rw [String.intercalate_singleton, Text.pieces_of_notMem hs.2, List.map_singleton]
    | cons t ts =>
      rw [String.intercalate_cons_cons, String.toList_append, String.toList_append]
      -- the first segment ends at the first slash
      show Text.pieces '/' ((s.toList ++ ['/']) ++ _) = _
      rw [List.append_assoc, List.singleton_append, Text.pieces_append,
        Text.pieces_of_notMem hs.2, ih hrest (List.cons_ne_nil t ts)]
      rfl

theorem segmentsOf_intercalate {segments : List String} (h : ∀ s ∈ segments, IsSegment s) :
    segmentsOf (String.intercalate "/" segments).toList = segments := by
  by_cases hne : segments = []
  · rw [hne]
    rfl
  · have hmap : (segments.map String.toList).map String.ofList = segments := by
      simp [List.map_map, Function.comp_def]
    rw [segmentsOf, pieces_intercalate h hne, hmap]
    exact List.filter_eq_self.mpr fun s hs => by rw [(h s hs).1]; rfl

/-- Segments put together do not start with a slash. -/
theorem head?_intercalate {segments : List String} (h : ∀ s ∈ segments, IsSegment s) :
    (String.intercalate "/" segments).toList.head? ≠ some '/' := by
  cases segments with
  | nil => decide
  | cons s rest =>
    obtain ⟨⟨hidle, hslash⟩, -⟩ := List.forall_mem_cons.mp h
    -- a segment is not empty, and its first character is no slash
    obtain ⟨c, cs, hs⟩ : ∃ c cs, s.toList = c :: cs := by
      refine List.exists_cons_of_ne_nil fun hnil => ?_
      rw [String.toList_eq_nil_iff.mp hnil] at hidle
      cases hidle
    rw [hs] at hslash
    have hc : c ≠ '/' := fun e => hslash (e ▸ List.mem_cons_self)
    cases rest with
    | nil => simpa [hs] using hc
    | cons t ts => simpa [String.intercalate_cons_cons, hs] using hc

theorem rootOf_append {cs : List Char} (r : PathRoot) (h : cs.head? ≠ some '/') :
    rootOf ((rootText r).toList ++ cs) = r := by
  rcases cs with - | ⟨c, cs⟩
  · cases r <;> rfl
  · have hc : c ≠ '/' := by simpa using h
    cases r <;> simp [rootText, rootOf, hc]

/-! ### Clean paths -/

/-- Each segment of the path is one that a text can name. -/
def IsClean (p : Path) : Prop :=
  ∀ s ∈ p.segments, IsSegment s

instance (p : Path) : Decidable p.IsClean :=
  inferInstanceAs (Decidable (∀ s ∈ p.segments, IsSegment s))

theorem isClean_ofString (s : String) : (ofString s).IsClean :=
  fun _ h => isSegment_of_mem_segmentsOf h

theorem IsClean.join {p q : Path} (hp : p.IsClean) (hq : q.IsClean) : (p.join q).IsClean := by
  unfold Path.join
  split
  · exact hq
  · exact fun s hs => (List.mem_append.mp hs).elim (hp s) (hq s)

theorem IsClean.child {p : Path} (hp : p.IsClean) (s : String) : (p.child s).IsClean :=
  hp.join (isClean_ofString s)

/-- **A clean path is read back from its text.** -/
theorem ofString_toString {p : Path} (h : p.IsClean) : ofString p.toString = p := by
  obtain ⟨root, segments⟩ := p
  unfold toString
  split
  -- the empty relative path is written as a dot, which names no segment
  · next hdot =>
    obtain ⟨rfl, rfl⟩ : root = .relative ∧ segments = [] := hdot
    rfl
  · rw [ofString, String.toList_append, rootOf_append root (head?_intercalate h),
      segmentsOf_rootText, segmentsOf_intercalate h]

theorem toString_injective {p q : Path} (hp : p.IsClean) (hq : q.IsClean)
    (h : p.toString = q.toString) : p = q := by
  rw [← ofString_toString hp, h, ofString_toString hq]

theorem exists_pieces_rootText (r : PathRoot) (cs : List Char) :
    ∃ before, Text.pieces '/' ((rootText r).toList ++ cs) = before ++ Text.pieces '/' cs := by
  cases r with
  | relative => exact ⟨[], rfl⟩
  | single => exact ⟨Text.pieces '/' [], Text.pieces_append [] cs⟩
  | double => exact ⟨Text.pieces '/' ['/'], Text.pieces_append ['/'] cs⟩

/-- The text of a path does not go on after a slash without naming a segment. -/
theorem segmentsOf_ne_nil_of_toString {p : Path} (h : p.IsClean) (hne : p.segments ≠ [])
    {cs ds : List Char} (htext : p.toString.toList = cs ++ '/' :: ds) : segmentsOf ds ≠ [] := by
  have hlast : (Text.pieces '/' p.toString.toList).getLast? =
      some (p.segments.getLast hne).toList := by
    obtain ⟨before, hbefore⟩ :=
      exists_pieces_rootText p.root (String.intercalate "/" p.segments).toList
    rw [toString, if_neg fun hdot => hne hdot.2, String.toList_append, hbefore,
      pieces_intercalate h hne, List.getLast?_append, List.getLast?_map,
      List.getLast?_eq_some_getLast hne]
    rfl
  -- so the last segment is the last piece behind the slash
  have hmem : p.segments.getLast hne ∈ segmentsOf ds := by
    rw [htext, Text.pieces_append, List.getLast?_append,
      List.getLast?_eq_some_getLast (Text.pieces_ne_nil '/' ds)] at hlast
    have hpiece := List.getLast_mem (Text.pieces_ne_nil '/' ds)
    rw [Option.some.inj hlast] at hpiece
    refine List.mem_filter.mpr ⟨List.mem_map.mpr ⟨_, hpiece, String.ofList_toList⟩, ?_⟩
    rw [(h _ (List.getLast_mem hne)).1]
    rfl
  exact List.ne_nil_of_mem hmem

/-! ### Children -/

/-- A child that is named by a single segment. -/
theorem child_segment {s : String} (p : Path) (h : IsSegment s) :
    p.child s = ⟨p.root, p.segments ++ [s]⟩ := by
  have hs : ofString s = ⟨.relative, [s]⟩ := by
    have hclean : (⟨.relative, [s]⟩ : Path).IsClean := by
      intro t ht
      obtain rfl := List.mem_singleton.mp ht
      exact h
    have htext : (⟨.relative, [s]⟩ : Path).toString = s := by
      simp [toString, rootText]
    rw [← ofString_toString hclean, htext]
  rw [child, hs]
  rfl

theorem parent_child {s : String} (p : Path) (h : IsSegment s) : (p.child s).parent = p := by
  rw [child_segment p h, parent, List.dropLast_concat]

end Path

end DeclLint
