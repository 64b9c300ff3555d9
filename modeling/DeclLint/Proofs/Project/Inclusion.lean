/-
DeclLint/Proofs/Project/Inclusion.lean

Include patterns that name directories.  A pattern without wildcards is read twice:
as a path, to see whether it leads to a directory, and as a pattern, by the segments
that it names.  Written with slashes, it is the path of these segments
(`exists_text_of_globOf`), so a pattern that names a directory leads there, and
selects the files below it at any depth (`matchesGlob_everythingBelow_iff`), whatever
idle segments and slashes it is written with.

A backslash separates the segments of a pattern, but not those of a path.  A pattern
that is written with one is followed as a path with other names, and if these lead
to no directory, it selects only what it names itself, which is a directory and no
file.
-/
import DeclLint.Proofs.Path.Spelling
import DeclLint.Proofs.Project.Collect

namespace DeclLint.Project

open DeclLint.Path (globOf nesting matchesGlob)

/-! ### What lies below a directory -/

/-- The pattern has no wildcards, and its segments are the names that lead from the root down to a
directory. -/
structure NamesFolder (w : Workspace) (root : Path) (pattern : LooseText) (folder : Place) :
    Prop where
  plain : hasWildcard pattern = false
  segments : globOf pattern = folder.map fun s => .one (LooseText.ofString s)
  below : folder ≠ []
  found : ∃ place, w.locate root = .ok place ∧ w.tree.node? (place ++ folder) = some .dir

/-- The names lead from the root down to a file. -/
def IsFileBelow (w : Workspace) (root : Path) (file : Place) : Prop :=
  ∃ place bytes, w.locate root = .ok place ∧ w.tree.node? (place ++ file) = some (.file bytes)

/-- The file lies below the directory, at any depth. -/
def LiesBelow (folder file : Place) : Prop :=
  ∃ more, more ≠ [] ∧ file = folder ++ more

variable {w : Workspace} {root : Path} {pattern : LooseText} {folder file : Place}

/-- The names of a pattern without wildcards have none. -/
theorem not_isWildcard_of_mem (hplain : hasWildcard pattern = false) {t : LooseText}
    (ht : t ∈ Path.namedIn (Path.slashed pattern)) {c : Char} (hc : .char c ∈ t) :
    ¬ Path.IsWildcard c := by
  have hpiece : t ∈ Text.pieces (.char '/') (Path.slashed pattern) := List.mem_of_mem_filter ht
  obtain ⟨p, hp, hslashed⟩ := List.mem_map.mp (Text.mem_of_mem_piece hpiece hc)
  rw [hasWildcard, List.any_eq_false] at hplain
  have hp' := hplain p hp
  split at hslashed
  · obtain rfl := Text.CodePoint.char.inj hslashed
    simp [Path.IsWildcard]
  · subst hslashed
    simpa [Path.IsWildcard, and_assoc] using hp'

/-- Trimming cuts off slashes. -/
theorem exists_append_slashes (t : LooseText) :
    ∃ n, t = (t.reverse.dropWhile (· = .char '/')).reverse ++ List.replicate n (.char '/') := by
  obtain ⟨n, hslashes⟩ :
      ∃ n, t.reverse.takeWhile (· = .char '/') = List.replicate n (.char '/') := by
    refine ⟨_, List.eq_replicate_of_mem fun p hp => ?_⟩
    simpa using List.mem_takeWhile_imp hp
  refine ⟨n, ?_⟩
  calc t = (t.reverse.takeWhile (· = .char '/') ++
        t.reverse.dropWhile (· = .char '/')).reverse := by
        rw [List.takeWhile_append_dropWhile, List.reverse_reverse]
    _ = _ := by rw [List.reverse_append, hslashes, List.reverse_replicate]

/-- Trimming leaves a relative pattern relative, and only such a one. -/
theorem exists_trimmed (pattern : LooseText) :
    ∃ trimmed n, everythingBelow pattern = trimmed ++ .char '/' :: LooseText.ofString "**/*" ∧
      pattern = trimmed ++ List.replicate n (.char '/') ∧
      (pattern ≠ [] ∧ ¬ Path.IsRooted (Path.slashed pattern) ↔
        trimmed ≠ [] ∧ ¬ Path.IsRooted (Path.slashed trimmed)) := by
  obtain ⟨n, hn⟩ := exists_append_slashes pattern
  refine ⟨_, n, rfl, hn, ?_⟩
  generalize (pattern.reverse.dropWhile (· = .char '/')).reverse = trimmed at hn
  rcases trimmed with - | ⟨p, ps⟩
  -- a pattern of slashes only is rooted
  · cases n with
    | zero => simp [hn]
    | succ n => simp [hn, List.replicate_succ, Path.slashed, Path.IsRooted]
  · simp [hn, Path.slashed, Path.IsRooted]

/-- What is below a directory is written behind it. -/
theorem globOf_everythingBelow (hne : pattern ≠ [])
    (hrelative : ¬ Path.IsRooted (Path.slashed pattern)) : globOf (everythingBelow pattern) =
      globOf pattern ++ [.deep, .one (LooseText.ofString "*")] := by
  obtain ⟨trimmed, n, hbelow, hpattern, hiff⟩ := exists_trimmed pattern
  obtain ⟨hne', hrelative'⟩ := hiff.mp ⟨hne, hrelative⟩
  have hglob : globOf pattern = globOf trimmed := by
    rw [hpattern]
    exact Path.globOf_append_slashes hne' hrelative' n
  have hnamed : (Path.namedIn (Path.slashed (LooseText.ofString "**/*"))).map Path.segmentNamed =
      [.deep, .one (LooseText.ofString "*")] := by
    decide +kernel
  rw [hglob, ← hnamed, hbelow]
  exact Path.globOf_append_slash hne' hrelative'

section Named

variable (h : NamesFolder w root pattern folder) (hproper : w.tree.HasProperNames)

include h hproper

theorem NamesFolder.isProperName : ∀ s ∈ folder, IsProperName s := by
  obtain ⟨place, -, hnode⟩ := h.found
  intro s hs
  exact hproper.of_node? hnode s (List.mem_append_right place hs)

/-- A pattern that names a directory is a relative text. -/
theorem NamesFolder.exists_text :
    pattern ≠ [] ∧ ¬ Path.IsRooted (Path.slashed pattern) ∧ ∃ text,
      pattern = LooseText.ofString text ∧
      ('\\' ∉ text.toList → Path.ofString text = ⟨.relative, folder⟩) :=
  Path.exists_text_of_globOf h.below (fun s hs => (h.isProperName hproper s hs).1) h.segments

theorem NamesFolder.not_isWildcard : ∀ s ∈ folder, ∀ c ∈ s.toList, ¬ Path.IsWildcard c := by
  obtain ⟨-, hrelative, -⟩ := h.exists_text hproper
  have hnamed := h.segments
  rw [Path.globOf_of_not_isRooted hrelative] at hnamed
  intro s hs c hc
  have hmem : LooseText.ofString s ∈ Path.namedIn (Path.slashed pattern) := by
    rw [Path.namedIn_eq_of_map hnamed]
    exact List.mem_map_of_mem hs
  exact not_isWildcard_of_mem h.plain hmem (List.mem_map_of_mem hc)

theorem NamesFolder.matchesGlob_iff : matchesGlob file pattern = true ↔ file = folder := by
  rw [matchesGlob, h.segments, Path.globMatches_names (h.not_isWildcard hproper)]

theorem NamesFolder.globOf_everythingBelow : globOf (everythingBelow pattern) =
    globOf pattern ++ [.deep, .one (LooseText.ofString "*")] := by
  obtain ⟨hne, hrelative, -⟩ := h.exists_text hproper
  exact Project.globOf_everythingBelow hne hrelative

theorem NamesFolder.matchesGlob_everythingBelow_iff :
    matchesGlob file (everythingBelow pattern) = true ↔ LiesBelow folder file := by
  rw [matchesGlob, h.globOf_everythingBelow hproper, Path.globMatches_append]
  simp only [Path.globMatches_everything, h.segments,
    Path.globMatches_names (h.not_isWildcard hproper)]
  constructor
  · rintro ⟨front, back, rfl, rfl, hback⟩
    exact ⟨back, hback, rfl⟩
  · rintro ⟨more, hmore, rfl⟩
    exact ⟨folder, more, rfl, rfl, hmore⟩

/-- Written with slashes, a pattern leads to the directory that it names, unless the path is too
long. -/
theorem NamesFolder.node?_child {text : String} (htext : Path.ofString text = ⟨.relative, folder⟩) :
    w.node? (root.child text) = .ok (some .dir) ∨
      w.node? (root.child text) = .error .nameTooLong := by
  obtain ⟨place, hplace, hnode⟩ := h.found
  have hnames := h.isProperName hproper
  have hchild : root.child text = ⟨root.root, root.segments ++ folder⟩ := by
    rw [Path.child, htext, Path.join_relative rfl]
  have hlocate := Workspace.locate_append hplace fun s hs => (hnames s hs).2.2.1
  rw [FileTree.walk_of_node? hnames hnode] at hlocate
  rw [hchild, Workspace.node?, hlocate]
  by_cases hlong :
      pathLimit < (Path.mk root.root (root.segments ++ folder)).toString.utf8ByteSize
  · rw [if_pos hlong]
    exact Or.inr rfl
  · rw [if_neg hlong]
    exact Or.inl (congrArg Except.ok hnode)

theorem NamesFolder.nesting_meant_le :
    nesting (globOf (meant w root pattern)) ≤ nesting (globOf pattern) + 4 := by
  rw [meant]
  split
  · rw [h.globOf_everythingBelow hproper, Path.nesting_append]
    exact Nat.le_refl _
  · exact Nat.le_add_right _ _

/-- A file is matched below the directory, if the pattern leads there; the directory itself is no
file. -/
theorem NamesFolder.matchesGlob_meant_iff (hfile : IsFileBelow w root file) :
    matchesGlob file (meant w root pattern) = true ↔
      LiesBelow folder file ∧ foundAt? w root pattern = some .dir := by
  obtain ⟨place, hplace, hdir⟩ := h.found
  have hne : file ≠ folder := by
    obtain ⟨place', bytes, hplace', hbytes⟩ := hfile
    obtain rfl := Except.ok.inj (hplace.symm.trans hplace')
    rintro rfl
    rw [hdir] at hbytes
    cases hbytes
  rw [meant]
  split
  · next hfound =>
    rw [h.matchesGlob_everythingBelow_iff hproper]
    simp [hfound.2]
  · next hfound =>
    have hnone : foundAt? w root pattern ≠ some .dir := fun hdir => hfound ⟨h.plain, hdir⟩
    rw [h.matchesGlob_iff hproper]
    simp [hne, hnone]

/-- Written with slashes, a pattern that is not too long leads to the directory that it names. -/
theorem NamesFolder.foundAt?_of_isIncludedBy (hback : .char '\\' ∉ pattern) {b : Bool}
    (hb : isIncludedBy w root file pattern = .ok b) : foundAt? w root pattern = some .dir := by
  obtain ⟨-, -, text, rfl, htext⟩ := h.exists_text hproper
  have htext' := htext (by simpa [LooseText.ofString] using hback)
  rw [foundAt?, LooseText.toString?_ofString, Option.bind_some]
  rcases h.node?_child hproper htext' with hnode | hnode
  · rw [hnode]
    rfl
  · have hnamed : namedNode? w root (LooseText.ofString text) =
        .error (.access (root.child text) .nameTooLong) := by
      rw [namedNode?, LooseText.toString?_ofString, LooseText.escaped_ofString]
      show LintError.atPath _ (w.node? (root.child text)) = _
      rw [hnode]
      rfl
    rw [isIncludedBy, h.plain, hnamed] at hb
    cases hb

end Named

/-! ### Paths that lead somewhere -/

/-- A name that leads somewhere is a text, and its path is followed segment by segment. -/
theorem exists_walk_of_foundAt? {n : Node} (h : foundAt? w root pattern = some n) :
    ∃ text place, pattern = LooseText.ofString text ∧
      w.tree.walk [] (w.absolute (root.child text)).segments = .ok place := by
  obtain ⟨text, place, htext, hplace⟩ := exists_locate_of_foundAt? h
  exact ⟨text, place, htext, (Workspace.locate_eq_ok_iff.mp hplace).2.2⟩

/-- Where no name has a backslash, a path with one leads nowhere. -/
theorem notMem_backslash_of_foundAt? (hplain : w.tree.HasPlainNames) {n : Node}
    (h : foundAt? w root pattern = some n) : .char '\\' ∉ pattern := by
  obtain ⟨text, place, rfl, hwalk⟩ := exists_walk_of_foundAt? h
  have hsegments : ∀ s ∈ (Path.ofString text).segments, '\\' ∉ s.toList := by
    intro s hs
    have hmem : s ∈ (root.child text).segments := by
      rw [Path.child, Path.join]
      split
      · exact hs
      · exact List.mem_append_right _ hs
    rcases Workspace.segments_of_walk hplain hwalk s (Workspace.mem_segments_absolute hmem) with
      rfl | hname
    · decide
    · exact hname.2.2
  simpa [LooseText.ofString] using Path.notMem_backslash hsegments

/-! ### What is included -/

theorem eq_of_isIncludedBy {b : Bool} (h : isIncludedBy w root file pattern = .ok b) :
    b = matchesGlob file (meant w root pattern) :=
  (gives_isIncludedBy w root file pattern).eq_of_ok h

/-- The file is included by the pattern, which names the directory, as it should be. -/
structure IsIncludedRightly (w : Workspace) (root : Path) (pattern : LooseText)
    (folder file : Place) : Prop where
  /-- It is said whether the file is included, unless the pattern is followed as a path that is too
  long, or nested too deep. -/
  returns : ¬ w.IsOverlong (root.child pattern.escaped) →
    nesting (globOf pattern) + 4 < w.room.patterns → ∃ b, isIncludedBy w root file pattern = .ok b
  limited : ∀ e, isIncludedBy w root file pattern = .error e → IsLimitError e
  /-- Written with slashes, the pattern includes exactly the files below the directory. -/
  slashes : .char '\\' ∉ pattern → ∀ b, isIncludedBy w root file pattern = .ok b →
    (b = true ↔ LiesBelow folder file)
  /-- However it is written, it includes them if it leads to a directory when followed as a path,
  and else no file. -/
  spelled : ∀ b, isIncludedBy w root file pattern = .ok b →
    (b = true ↔ LiesBelow folder file ∧ foundAt? w root pattern = some .dir)
  /-- With a backslash, it leads nowhere where no name has a backslash. -/
  backslashes : .char '\\' ∈ pattern → w.tree.HasPlainNames →
    foundAt? w root pattern ≠ some .dir

/-- **A pattern that names a directory includes the files below it**, at any depth and however it
is spelled with slashes.  With a backslash it includes them only if it leads to a directory when
followed as a path. -/
theorem isIncludedBy_rightly (hproper : w.tree.HasProperNames)
    (h : NamesFolder w root pattern folder) (hfile : IsFileBelow w root file) :
    IsIncludedRightly w root pattern folder file := by
  have hspelled : ∀ b, isIncludedBy w root file pattern = .ok b →
      (b = true ↔ LiesBelow folder file ∧ foundAt? w root pattern = some .dir) := by
    intro b hb
    rw [eq_of_isIncludedBy hb, h.matchesGlob_meant_iff hproper hfile]
  refine ⟨?_, ?_, ?_, hspelled, ?_⟩
  · intro hlong hnesting
    refine ⟨_, (gives_isIncludedBy w root file pattern).of_not ?_⟩
    rintro (⟨-, hoverlong⟩ | hdeep)
    · exact hlong hoverlong
    · have hle := Path.nesting_of_isTooDeep hdeep
      have hmeant := h.nesting_meant_le hproper
      omega
  · intro e he
    exact (gives_isIncludedBy w root file pattern).isLimitError he
  · intro hback b hb
    rw [hspelled b hb, h.foundAt?_of_isIncludedBy hproper hback hb]
    simp
  · intro hback hplain hfound
    exact notMem_backslash_of_foundAt? hplain hfound hback

/-- A root with a file in a folder of a folder. -/
def nestedRoot : Workspace where
  tree := FileTree.empty.writeFile ["T", "p", "a", "b", "c", "x.ts"] []
  cwd := ["T"]
  environment := []

/-- A folder may be spelled with idle segments and slashes. -/
theorem namesFolder_nestedRoot :
    NamesFolder nestedRoot (.ofString "/T/p") (.ofString "./a//b/") ["a", "b"] where
  plain := by decide +kernel
  segments := by decide +kernel
  below := by simp
  found := ⟨["T", "p"], Except.toOption_eq_some_iff.mp (by decide +kernel), by decide +kernel⟩

theorem isFileBelow_nestedRoot :
    IsFileBelow nestedRoot (.ofString "/T/p") ["a", "b", "c", "x.ts"] :=
  ⟨["T", "p"], [], Except.toOption_eq_some_iff.mp (by decide +kernel), by decide +kernel⟩

theorem isIncludedBy_rightly_nestedRoot :
    nestedRoot.tree.HasProperNames ∧
      NamesFolder nestedRoot (.ofString "/T/p") (.ofString "./a//b/") ["a", "b"] ∧
      IsFileBelow nestedRoot (.ofString "/T/p") ["a", "b", "c", "x.ts"] ∧
      IsIncludedRightly nestedRoot (.ofString "/T/p") (.ofString "./a//b/") ["a", "b"]
        ["a", "b", "c", "x.ts"] := by
  have hproper : nestedRoot.tree.HasProperNames := by decide +kernel
  exact ⟨hproper, namesFolder_nestedRoot, isFileBelow_nestedRoot,
    isIncludedBy_rightly hproper namesFolder_nestedRoot isFileBelow_nestedRoot⟩

/-- Spelled with a backslash, a pattern that names a folder includes nothing of it. -/
theorem not_all_included :
    ¬ ∀ (w : Workspace) (root : Path) (pattern : LooseText) (folder file : Place),
      w.tree.HasProperNames → NamesFolder w root pattern folder → IsFileBelow w root file →
      ∀ b, isIncludedBy w root file pattern = .ok b → (b = true ↔ LiesBelow folder file) := by
  intro hall
  have hnames : NamesFolder nestedRoot (.ofString "/T/p") (.ofString "a\\b") ["a", "b"] :=
    { namesFolder_nestedRoot with
      plain := by decide +kernel
      segments := by decide +kernel }
  have hnot : isIncludedBy nestedRoot (.ofString "/T/p") ["a", "b", "c", "x.ts"]
      (.ofString "a\\b") = .ok false :=
    Except.toOption_eq_some_iff.mp (by decide +kernel)
  have hbelow : LiesBelow ["a", "b"] ["a", "b", "c", "x.ts"] := ⟨["c", "x.ts"], by simp, rfl⟩
  have hincluded := (hall _ _ _ _ _ (by decide +kernel) hnames isFileBelow_nestedRoot false
    hnot).mpr hbelow
  cases hincluded

end DeclLint.Project
