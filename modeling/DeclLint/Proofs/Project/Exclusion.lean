/-
DeclLint/Proofs/Project/Exclusion.lean

What exclude patterns leave out.  A pattern leaves out a file if it matches the file
or a directory that the file lies in (`MatchesAbove`).  It is compared without a
`**` at its end, which makes no difference as long as something is left of it
(`exists_matched_append_deep_iff`): if the rest of a pattern matches nothing of a
path, it consists of `**` and matches all of it.  Only of the pattern `**` itself
nothing is left, and so the one pattern that matches every path leaves out none.
-/
import DeclLint.Proofs.Path.Spelling
import DeclLint.Proofs.Project.Collect

namespace DeclLint

namespace Path

/-! ### The directories of a file -/

theorem mem_beginnings {α : Type} {xs front : List α} :
    front ∈ beginnings xs ↔ front ≠ [] ∧ ∃ back, xs = front ++ back := by
  simp only [beginnings, List.mem_map, List.mem_range]
  constructor
  · rintro ⟨i, hi, rfl⟩
    refine ⟨?_, xs.drop (i + 1), (List.take_append_drop (i + 1) xs).symm⟩
    apply List.ne_nil_of_length_pos
    rw [List.length_take]
    omega
  · rintro ⟨hne, back, rfl⟩
    have hlength := List.length_pos_of_ne_nil hne
    refine ⟨front.length - 1, ?_, ?_⟩
    · rw [List.length_append]
      omega
    · rw [Nat.sub_add_cancel hlength, List.take_left]

theorem nil_notMem_beginnings {α : Type} (xs : List α) : [] ∉ beginnings xs :=
  fun h => (mem_beginnings.mp h).1 rfl

/-- The pattern matches the path or one of the directories that it lies in. -/
def MatchesAbove (segments : List String) (pattern : LooseText) : Prop :=
  ∃ front back, front ≠ [] ∧ segments = front ++ back ∧ matchesGlob front pattern = true

/-! ### The `**` at the end of a pattern -/

section

variable {π σ : Type} {accepts : π → σ → Bool}

theorem globMatches_deep (ps : List (GlobSegment π)) {ss : List σ}
    (h : globMatches accepts ps [] = true) : globMatches accepts (.deep :: ps) ss = true :=
  (globMatches_cons _ _ _).mpr ⟨ss, [], (List.append_nil ss).symm, .deep ss, h⟩

/-- A pattern that matches the empty path has nothing in it or matches every path. -/
theorem globMatches_of_nil {ps : List (GlobSegment π)} (hne : ps ≠ [])
    (h : globMatches accepts ps [] = true) (ss : List σ) : globMatches accepts ps ss = true := by
  obtain ⟨p, ps, rfl⟩ := List.exists_cons_of_ne_nil hne
  obtain ⟨piece, rest, happend, htakes, hrest⟩ := (globMatches_cons _ _ _).mp h
  obtain ⟨rfl, rfl⟩ := List.append_eq_nil_iff.mp happend.symm
  cases htakes with
  | deep => exact globMatches_deep ps hrest

/-- What is matched with a `**` at the end of a pattern has a beginning that is matched without. -/
theorem globMatches_append_deep (ps : List (GlobSegment π)) (ss : List σ) :
    globMatches accepts (ps ++ [.deep]) ss = true ↔
      ∃ front back, ss = front ++ back ∧ globMatches accepts ps front = true := by
  rw [globMatches_append]
  constructor
  · rintro ⟨front, back, hss, hfront, -⟩
    exact ⟨front, back, hss, hfront⟩
  · rintro ⟨front, back, hss, hfront⟩
    exact ⟨front, back, hss, hfront, globMatches_deep [] rfl⟩

/-- **A `**` at the end of a pattern makes no difference** to whether it matches a non-empty
beginning of a path, unless it is all of the pattern. -/
theorem exists_matched_append_deep_iff {ps : List (GlobSegment π)} (hne : ps ≠ []) (ss : List σ) :
    (∃ front ∈ beginnings ss, globMatches accepts (ps ++ [.deep]) front = true) ↔
      ∃ front ∈ beginnings ss, globMatches accepts ps front = true := by
  constructor
  · rintro ⟨front, hfront, h⟩
    obtain ⟨upper, lower, rfl, hupper⟩ := (globMatches_append_deep ps front).mp h
    by_cases hnil : upper = []
    -- a pattern that matches nothing matches everything
    · subst hnil
      exact ⟨lower, hfront, globMatches_of_nil hne hupper lower⟩
    · obtain ⟨-, back, rfl⟩ := mem_beginnings.mp hfront
      refine ⟨upper, mem_beginnings.mpr ⟨hnil, lower ++ back, ?_⟩, hupper⟩
      rw [List.append_assoc]
  · rintro ⟨front, hfront, h⟩
    refine ⟨front, hfront, (globMatches_append_deep ps front).mpr ⟨front, [], ?_, h⟩⟩
    rw [List.append_nil]

end

theorem matchesAbove_iff {segments : List String} {pattern : LooseText} :
    MatchesAbove segments pattern ↔ ∃ front ∈ beginnings segments,
      globMatches segmentMatches (globOf pattern) front = true := by
  simp only [MatchesAbove, mem_beginnings, matchesGlob]
  constructor
  · rintro ⟨front, back, hne, hsegments, h⟩
    exact ⟨front, ⟨hne, back, hsegments⟩, h⟩
  · rintro ⟨front, ⟨hne, back, hsegments⟩, h⟩
    exact ⟨front, back, hne, hsegments, h⟩

/-- **A pattern leaves out what it matches the file or a directory of**, unless it is `**`. -/
theorem isExcludedBy_iff (segments : List String) (pattern : LooseText) :
    isExcludedBy segments pattern = true ↔
      globOf pattern ≠ [.deep] ∧ MatchesAbove segments pattern := by
  rw [isExcludedBy, List.any_eq_true, matchesAbove_iff, withoutTail]
  split
  · next htail =>
    obtain ⟨front, hfront⟩ := List.getLast?_eq_some_iff.mp htail
    rw [hfront, List.dropLast_concat]
    by_cases hnil : front = []
    · simp [hnil, nil_notMem_beginnings]
    · rw [exists_matched_append_deep_iff hnil]
      simp [hnil]
  · next htail =>
    have hne : globOf pattern ≠ [.deep] := by
      intro h
      rw [h] at htail
      exact htail rfl
    simp [hne]

/-! ### Everything below -/

theorem isExcludedBy_of_isRooted {segments : List String} {pattern : LooseText}
    (hsegments : ∀ s ∈ segments, '/' ∉ s.toList) (h : IsRooted (slashed pattern)) :
    isExcludedBy segments pattern = false := by
  obtain ⟨root, hroot, hglob⟩ := globOf_of_isRooted h
  rw [← Bool.not_eq_true, isExcludedBy_iff]
  rintro ⟨-, front, back, -, rfl, hmatches⟩
  rw [matchesGlob, hglob, not_globMatches_of_isRooted hroot] at hmatches
  · cases hmatches
  · intro s hs
    exact hsegments s (List.mem_append_left back hs)

/-- A pattern and everything below it leave out the same files, unless the pattern is `**`. -/
theorem isExcludedBy_below {segments : List String} {pattern : LooseText}
    (hsegments : ∀ s ∈ segments, '/' ∉ s.toList) (h : globOf pattern ≠ [.deep]) :
    isExcludedBy segments (pattern ++ LooseText.ofString "/**") =
      isExcludedBy segments pattern := by
  by_cases hrooted : IsRooted (slashed pattern)
  · have hrooted' : IsRooted (slashed (pattern ++ LooseText.ofString "/**")) := by
      obtain ⟨ps, hps⟩ := List.head?_eq_some_iff.mp hrooted
      rw [slashed_append, hps]
      rfl
    rw [isExcludedBy_of_isRooted hsegments hrooted, isExcludedBy_of_isRooted hsegments hrooted']
  by_cases hnil : pattern = []
  -- a slash behind nothing is a root
  · subst hnil
    have hglob : globOf [] = [] := rfl
    rw [isExcludedBy_of_isRooted hsegments (by rfl), eq_comm, ← Bool.not_eq_true, isExcludedBy_iff,
      matchesAbove_iff, hglob]
    simp [nil_notMem_beginnings]
  · have hglob : globOf (pattern ++ LooseText.ofString "/**") = globOf pattern ++ [.deep] :=
      globOf_append_slash hnil hrooted
    apply Bool.eq_iff_iff.mpr
    rw [isExcludedBy_iff, isExcludedBy_iff, matchesAbove_iff, matchesAbove_iff, hglob]
    by_cases hempty : globOf pattern = []
    · simp [hempty, nil_notMem_beginnings]
    · rw [exists_matched_append_deep_iff hempty]
      simp [hempty, h]

end Path

namespace Project

open DeclLint.Path (globOf nesting MatchesAbove)

/-! ### Patterns that are nested too deep -/

theorem nesting_withoutTail_le (g : List (Path.GlobSegment LooseText)) :
    nesting (Path.withoutTail g) ≤ nesting g := by
  unfold Path.withoutTail
  split
  · next htail =>
    obtain ⟨front, rfl⟩ := List.getLast?_eq_some_iff.mp htail
    rw [List.dropLast_concat, Path.nesting_append]
    exact Nat.le_add_right _ _
  · exact Nat.le_refl _

variable {room : Nat} {segments : List String}

theorem isTooDeepBelow_of_nesting_lt {pattern : LooseText}
    (h : nesting (globOf pattern) < room) (segments : List String) :
    isTooDeepBelow room segments pattern = false := by
  rw [isTooDeepBelow, List.any_eq_false]
  intro front _ hdeep
  have hle := Path.nesting_of_isTooDeep hdeep
  have hle' := nesting_withoutTail_le (globOf pattern)
  omega

/-- The limit on the nesting is the only one. -/
theorem error_of_isLeftOut {patterns : List LooseText} {e : LintError}
    (h : isLeftOut room segments patterns = .error e) : e = .excess (.nesting .pattern) := by
  unfold isLeftOut at h
  dsimp only at h
  split at h
  · cases h
  · split at h
    · exact (Except.error.inj h).symm
    · cases h

theorem eq_isExcluded_of_isLeftOut {patterns : List LooseText} {b : Bool}
    (h : isLeftOut room segments patterns = .ok b) : b = Path.isExcluded segments patterns :=
  (gives_isLeftOut room segments patterns).eq_of_ok h

/-! ### What is left out -/

/-- The file with the given segments is left out as it should be, where there is some room for the
matching of patterns. -/
structure IsLeftOutRightly (room : Nat) (segments : List String) : Prop where
  /-- It is said whether the file is left out, unless a pattern is nested too deep. -/
  returns : ∀ patterns, (∀ p ∈ patterns, nesting (globOf p) < room) →
    ∃ b, isLeftOut room segments patterns = .ok b
  limited : ∀ patterns e, isLeftOut room segments patterns = .error e →
    e = .excess (.nesting .pattern)
  /-- It is left out exactly if some pattern other than `**` matches it or a directory that it lies
  in. -/
  matched : ∀ patterns b, isLeftOut room segments patterns = .ok b →
    (b = true ↔ ∃ p ∈ patterns, globOf p ≠ [.deep] ∧ MatchesAbove segments p)
  /-- A pattern other than `**` and everything below it leave out the same. -/
  below : ∀ p, globOf p ≠ [.deep] → ∀ b c, isLeftOut room segments [p] = .ok b →
    isLeftOut room segments [p ++ LooseText.ofString "/**"] = .ok c → b = c
  /-- A pattern other than `**` that matches every path leaves it out. -/
  everyPath : ∀ p, globOf p ≠ [.deep] → (∀ path, path ≠ [] → Path.matchesGlob path p = true) →
    ∀ b, isLeftOut room segments [p] = .ok b → b = true

/-- **Exclude patterns leave out what they match, with everything below**, but the pattern `**`,
which matches every path, leaves out nothing. -/
theorem isLeftOut_rightly (room : Nat) {segments : List String} (hne : segments ≠ [])
    (hsegments : ∀ s ∈ segments, '/' ∉ s.toList) : IsLeftOutRightly room segments := by
  have hmatched : ∀ patterns b, isLeftOut room segments patterns = .ok b →
      (b = true ↔ ∃ p ∈ patterns, globOf p ≠ [.deep] ∧ MatchesAbove segments p) := by
    intro patterns b h
    rw [eq_isExcluded_of_isLeftOut h, Path.isExcluded, List.any_eq_true]
    simp only [Path.isExcludedBy_iff]
  refine ⟨?_, ?_, hmatched, ?_, ?_⟩
  · intro patterns hnesting
    refine ⟨_, (gives_isLeftOut room segments patterns).of_not ?_⟩
    rintro ⟨p, hp, hdeep⟩
    rw [isTooDeepBelow_of_nesting_lt (hnesting p hp)] at hdeep
    cases hdeep
  · intro patterns e h
    exact error_of_isLeftOut h
  · intro p hp b c hb hc
    rw [eq_isExcluded_of_isLeftOut hb, eq_isExcluded_of_isLeftOut hc]
    simp only [Path.isExcluded, List.any_cons, List.any_nil, Path.isExcludedBy_below hsegments hp]
  · intro p hp hevery b hb
    refine (hmatched [p] b hb).mpr ⟨p, List.mem_singleton_self p, hp, segments, [], hne, ?_, ?_⟩
    · rw [List.append_nil]
    · exact hevery segments hne

/-- A file of an installed dependency. -/
theorem isLeftOut_rightly_dependency :
    ["node_modules", "bar", "index.d.ts"] ≠ [] ∧
      (∀ s ∈ ["node_modules", "bar", "index.d.ts"], '/' ∉ s.toList) ∧
      IsLeftOutRightly usualDepth ["node_modules", "bar", "index.d.ts"] :=
  ⟨by simp, by decide, isLeftOut_rightly usualDepth (by simp) (by decide)⟩

/-- The pattern `**` matches every path and leaves out none. -/
theorem not_all_leftOut :
    ¬ ∀ (segments : List String) (patterns : List LooseText), segments ≠ [] →
      (isLeftOut usualDepth segments patterns = .ok true ↔
        ∃ p ∈ patterns, MatchesAbove segments p) := by
  intro hall
  have habove : MatchesAbove ["a.ts"] (LooseText.ofString "**") :=
    ⟨["a.ts"], [], by simp, rfl, by decide +kernel⟩
  have hleft := (hall ["a.ts"] [LooseText.ofString "**"] (by simp)).mpr
    ⟨_, List.mem_singleton_self _, habove⟩
  have hkept : Path.isExcluded ["a.ts"] [LooseText.ofString "**"] = false := by decide +kernel
  rw [← eq_isExcluded_of_isLeftOut hleft] at hkept
  cases hkept

end Project

end DeclLint
