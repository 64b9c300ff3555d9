/-
DeclLint/Proofs/Path/Role.lean

What the place of a file says about it.  Whether a file lives in a version
folder of a root is read off texts, the normal forms of both paths;
`exists_folder_of_isVersionPinned` says what that comes to for their segments:
behind those of the root there is one that names a version, and more behind it.

The normal form of a path is the text of its resolution wherever either of them
is absolute (`normalForm_of_isAbsolute`, `isAbsolute_of_head?`), since only a
relative path starts with the letter of a drive.  The text of a clean path comes
apart at its slashes, so what the texts have in front of each other, their
segments have, too.
-/
import DeclLint.Path.Role
import DeclLint.Proofs.Path.RoundTrip
import Mathlib.Data.List.TakeWhile

namespace DeclLint.Path

/-! ### Version folders -/

theorem versionNumber?_eq_append {cs v r : List Char} (h : versionNumber? cs = some (v, r)) :
    cs = v ++ r := by
  unfold versionNumber? at h
  split at h
  · next t ht =>
    dsimp only at h
    split at h
    · cases h
    · obtain ⟨rfl, rfl⟩ := Prod.mk.inj (Option.some.inj h)
      rw [List.append_assoc, List.cons_append, List.takeWhile_append_dropWhile, ← ht,
        List.takeWhile_append_dropWhile]
  · cases h

/-- What is read as a version number is one, whatever follows it. -/
theorem versionNumber?_of_some {cs v r : List Char} (h : versionNumber? cs = some (v, r)) :
    versionNumber? v = some (v, []) ∧ ∀ c ∈ v, c = '.' ∨ Text.isDigit c = true := by
  unfold versionNumber? at h
  split at h
  · next t ht =>
    dsimp only at h
    split at h
    · cases h
    · next hdigits =>
      obtain ⟨rfl, -⟩ := Prod.mk.inj (Option.some.inj h)
      generalize hmajor : cs.takeWhile Text.isDigit = major at hdigits ⊢
      generalize hminor : t.takeWhile Text.isDigit = minor at hdigits ⊢
      have hmajor' : ∀ c ∈ major, Text.isDigit c = true := by
        intro c hc
        exact List.mem_takeWhile_imp (hmajor ▸ hc)
      have hminor' : ∀ c ∈ minor, Text.isDigit c = true := by
        intro c hc
        exact List.mem_takeWhile_imp (hminor ▸ hc)
      have hdot : Text.isDigit '.' = false := by decide
      constructor
      · rw [versionNumber?, List.takeWhile_append_of_pos hmajor',
          List.dropWhile_append_of_pos hmajor', List.takeWhile_cons_of_neg (by simp [hdot]),
          List.dropWhile_cons_of_neg (by simp [hdot]), List.append_nil]
        show (if major.isEmpty || (minor.takeWhile Text.isDigit).isEmpty then none
          else some (major ++ '.' :: minor.takeWhile Text.isDigit,
            minor.dropWhile Text.isDigit)) = _
        rw [List.takeWhile_eq_self_iff.mpr hminor', List.dropWhile_eq_nil_iff.mpr hminor',
          if_neg hdigits]
      · intro c hc
        rcases List.mem_append.mp hc with hc | hc
        · exact Or.inr (hmajor' c hc)
        · rcases List.mem_cons.mp hc with rfl | hc
          · exact Or.inl rfl
          · exact Or.inr (hminor' c hc)
  · cases h

theorem folderVersion?_eq_some_iff {name version : String} :
    folderVersion? name = some version ↔
      name = "ts" ++ version ∧ versionNumber? version.toList = some (version.toList, []) := by
  unfold folderVersion?
  constructor
  · intro h
    split at h
    · next v hv =>
      obtain rfl := Option.some.inj h
      unfold versionFolder? at hv
      split at hv
      · next cs hcs =>
        have happend := versionNumber?_eq_append hv
        rw [List.append_nil] at happend
        subst happend
        refine ⟨?_, by rw [String.toList_ofList]; exact hv⟩
        rw [← String.toList_inj, hcs, String.toList_append]
        exact congrArg ("ts".toList ++ ·) String.toList_ofList.symm
      · cases hv
    · cases h
  · rintro ⟨rfl, h⟩
    have hname : ("ts" ++ version).toList = 't' :: 's' :: version.toList := by
      rw [String.toList_append]
      rfl
    rw [hname, versionFolder?, h]
    exact congrArg some String.ofList_toList

/-- A folder that stands for a version is named after it. -/
theorem eq_of_folderVersion? {name version : String} (h : folderVersion? name = some version) :
    name = "ts" ++ version :=
  (folderVersion?_eq_some_iff.mp h).1

/-- The name of a version folder holds no other marks than dots. -/
theorem mem_of_folderVersion? {name version : String} (h : folderVersion? name = some version)
    {c : Char} (hc : c ∈ name.toList) : c = 't' ∨ c = 's' ∨ c = '.' ∨ Text.isDigit c = true := by
  obtain ⟨rfl, hversion⟩ := folderVersion?_eq_some_iff.mp h
  rw [String.toList_append] at hc
  rcases List.mem_append.mp hc with hc | hc
  · have hts : c = 't' ∨ c = 's' := by simpa using hc
    exact hts.imp_right Or.inl
  · exact Or.inr (Or.inr ((versionNumber?_of_some hversion).2 c hc))

theorem notMem_nul_of_folderVersion? {name version : String}
    (h : folderVersion? name = some version) : '\x00' ∉ name.toList := by
  intro hc
  have hmark : ¬ ('\x00' = 't' ∨ '\x00' = 's' ∨ '\x00' = '.' ∨ Text.isDigit '\x00' = true) := by
    decide
  exact hmark (mem_of_folderVersion? h hc)

theorem isSegment_of_folderVersion? {name version : String}
    (h : folderVersion? name = some version) : IsSegment name ∧ name ≠ ".." := by
  have hslash : '/' ∉ name.toList := by
    intro hc
    have hmark : ¬ ('/' = 't' ∨ '/' = 's' ∨ '/' = '.' ∨ Text.isDigit '/' = true) := by decide
    exact hmark (mem_of_folderVersion? h hc)
  obtain ⟨cs, hcs⟩ : ∃ cs, name.toList = 't' :: cs := by
    rw [eq_of_folderVersion? h, String.toList_append]
    exact ⟨_, rfl⟩
  refine ⟨⟨?_, hslash⟩, ?_⟩
  · simp only [isIdle, Bool.or_eq_false_iff, decide_eq_false_iff_not]
    constructor
    · rintro rfl
      cases hcs
    · rintro rfl
      cases hcs
  · rintro rfl
    cases hcs

/-! ### Resolutions -/

theorem push_of_ne (rooted : Bool) (stack : List String) {s : String} (h : s ≠ "..") :
    push rooted stack s = s :: stack := by
  unfold push
  rw [if_neg h]

theorem mem_push {rooted : Bool} {stack : List String} {s t : String}
    (h : t ∈ push rooted stack s) : t ∈ stack ∨ t = s ∨ t = ".." := by
  unfold push at h
  split at h
  · split at h
    · split at h
      · cases h
      · exact Or.inr (Or.inr (List.mem_singleton.mp h))
    · next top rest =>
      split at h
      · rcases List.mem_cons.mp h with rfl | h
        · exact Or.inr (Or.inr rfl)
        · exact Or.inl h
      · exact Or.inl (List.mem_cons_of_mem top h)
  · rcases List.mem_cons.mp h with rfl | h
    · exact Or.inr (Or.inl rfl)
    · exact Or.inl h

theorem mem_foldl_push {rooted : Bool} {segments stack : List String} {t : String}
    (h : t ∈ segments.foldl (push rooted) stack) : t ∈ stack ∨ t ∈ segments ∨ t = ".." := by
  induction segments generalizing stack with
  | nil => exact Or.inl h
  | cons s segments ih =>
    rcases ih h with h | h | h
    · rcases mem_push h with h | rfl | h
      · exact Or.inl h
      · exact Or.inr (Or.inl List.mem_cons_self)
      · exact Or.inr (Or.inr h)
    · exact Or.inr (Or.inl (List.mem_cons_of_mem s h))
    · exact Or.inr (Or.inr h)

theorem mem_cancelDots {rooted : Bool} {segments : List String} {t : String}
    (h : t ∈ cancelDots rooted segments) : t ∈ segments ∨ t = ".." := by
  rcases mem_foldl_push (List.mem_reverse.mp h) with h | h
  · cases h
  · exact h

theorem IsClean.resolveDots {p : Path} (h : p.IsClean) : p.resolveDots.IsClean := by
  intro t ht
  rcases mem_cancelDots ht with ht | rfl
  · exact h t ht
  · decide

theorem isClean_resolution (s : String) : (resolution s).IsClean :=
  (isClean_ofString _).resolveDots

/-- A text whose segments hold no backslash holds none. -/
theorem notMem_backslash {s : String} (h : ∀ t ∈ (ofString s).segments, '\\' ∉ t.toList) :
    '\\' ∉ s.toList := by
  intro hmem
  obtain hslash | ⟨piece, hpiece, hc⟩ := Text.mem_of_mem_pieces '/' hmem
  · exact absurd hslash (by decide)
  · by_cases hidle : isIdle (String.ofList piece) = true
    · simp only [isIdle, Bool.or_eq_true, decide_eq_true_eq] at hidle
      rcases hidle with hidle | hidle
      · rw [← String.toList_ofList (l := piece), hidle] at hc
        exact absurd hc (by decide)
      · rw [← String.toList_ofList (l := piece), hidle] at hc
        exact absurd hc (by decide)
    -- a piece that is not idle is a segment
    · have hsegment : String.ofList piece ∈ segmentsOf s.toList :=
        List.mem_filter.mpr ⟨List.mem_map.mpr ⟨piece, hpiece, rfl⟩, by simpa using hidle⟩
      exact h _ hsegment (by rw [String.toList_ofList]; exact hc)

/-- Without a backslash, only double dots are left to resolve. -/
theorem resolution_eq {s : String} (h : ∀ t ∈ (ofString s).segments, '\\' ∉ t.toList) :
    resolution s = resolveDots (ofString s) := by
  have hslashes : forwardSlashes s.toList = s.toList := by
    have hid : ∀ c ∈ s.toList, (if c = '\\' then '/' else c) = id c := by
      rintro c hc
      refine if_neg ?_
      rintro rfl
      exact notMem_backslash h hc
    rw [forwardSlashes, List.map_congr_left hid, List.map_id]
  rw [resolution, hslashes, String.ofList_toList]

/-! ### Normal forms -/

theorem upperDrive_slash (cs : List Char) : upperDrive ('/' :: cs) = '/' :: cs := by
  unfold upperDrive
  split
  · next c ds h =>
    obtain ⟨rfl, rfl⟩ := List.cons.inj h
    rfl
  · rfl

/-- There are 26 lower-case letters. -/
theorem forall_letter {P : Char → Prop} (hall : ∀ n : Fin 26, P (Char.ofNat (n.val + 97)))
    {c : Char} (hc : 'a' ≤ c ∧ c ≤ 'z') : P c := by
  have hlow : 97 ≤ c.toNat := hc.1
  have hhigh : c.toNat ≤ 122 := hc.2
  have hletter := hall ⟨c.toNat - 97, by omega⟩
  have hn : c.toNat - 97 + 97 = c.toNat := by omega
  rwa [hn, Char.ofNat_toNat] at hletter

/-- A letter in upper case is not any other character. -/
theorem upperLetter_ne {c d : Char} (hd : d.isUpper = false) (h : c ≠ d) : upperLetter c ≠ d := by
  by_cases hc : 'a' ≤ c ∧ c ≤ 'z'
  · have hupper : (upperLetter c).isUpper = true :=
      forall_letter (P := fun c => (upperLetter c).isUpper = true) (by decide) hc
    rintro rfl
    rw [hupper] at hd
    cases hd
  · rwa [upperLetter, if_neg hc]

theorem head?_toString_of_isAbsolute {p : Path} (h : p.isAbsolute = true) :
    ∃ cs, p.toString.toList = '/' :: cs := by
  obtain ⟨root, segments⟩ := p
  cases root with
  | relative => cases h
  | single =>
    refine ⟨(String.intercalate "/" segments).toList, ?_⟩
    simp [toString, rootText]
  | double =>
    refine ⟨'/' :: (String.intercalate "/" segments).toList, ?_⟩
    simp [toString, rootText]

theorem head?_toString_of_relative {p : Path} (hclean : p.IsClean) (h : p.isAbsolute = false) :
    p.toString.toList.head? ≠ some '/' := by
  obtain ⟨root, segments⟩ := p
  obtain rfl : root = .relative := by simpa [isAbsolute] using h
  unfold toString
  split
  · decide
  · rw [String.toList_append]
    exact head?_intercalate hclean

theorem normalForm_of_isAbsolute {s : String} (h : (resolution s).isAbsolute = true) :
    normalForm s = (resolution s).toString := by
  obtain ⟨cs, hcs⟩ := head?_toString_of_isAbsolute h
  rw [normalForm, hcs, upperDrive_slash, ← hcs, String.ofList_toList]

/-- A normal form that starts with a slash is one of an absolute path. -/
theorem isAbsolute_of_head? {s : String} (h : (normalForm s).toList.head? = some '/') :
    (resolution s).isAbsolute = true := by
  by_contra hrelative
  rw [Bool.not_eq_true] at hrelative
  have hhead := head?_toString_of_relative (isClean_resolution s) hrelative
  rw [normalForm, String.toList_ofList] at h
  generalize (resolution s).toString.toList = cs at h hhead
  unfold upperDrive at h
  split at h
  · next c ds =>
    have hc : c ≠ '/' := by simpa using hhead
    exact upperLetter_ne (by decide) hc (by simpa using h)
  · exact hhead h

theorem segmentsOf_toString {p : Path} (h : p.IsClean) :
    segmentsOf p.toString.toList = p.segments :=
  congrArg Path.segments (ofString_toString h)

/-! ### Files in version folders -/

/-- **A pinned file lies in a version folder**: its segments are those of the root, the name of a
version folder, and more. -/
theorem exists_folder_of_isVersionPinned {file root : String}
    (hroot : (resolution root).isAbsolute = true) (h : isVersionPinned file root = true) :
    (resolution file).isAbsolute = true ∧ ∃ name version more,
      folderVersion? name = some version ∧ more ≠ [] ∧
      (resolution file).segments = (resolution root).segments ++ name :: more := by
  unfold isVersionPinned at h
  split at h
  · next below hbelow =>
    rw [Text.afterPrefix?_eq_some_iff, normalForm_of_isAbsolute hroot] at hbelow
    obtain ⟨cs, hcs⟩ := head?_toString_of_isAbsolute hroot
    have habs : (resolution file).isAbsolute = true := by
      apply isAbsolute_of_head?
      rw [hbelow, hcs]
      rfl
    rw [normalForm_of_isAbsolute habs] at hbelow
    unfold startsInVersionFolder at h
    split at h
    · next cs =>
      split at h
      · next v rest hfolder =>
        unfold versionFolder? at hfolder
        split at hfolder
        · next ds =>
          have hds := versionNumber?_eq_append hfolder
          have hname : folderVersion? ("ts" ++ String.ofList v) = some (String.ofList v) := by
            rw [folderVersion?_eq_some_iff, String.toList_ofList]
            exact ⟨rfl, (versionNumber?_of_some hfolder).1⟩
          obtain ⟨hsegment, -⟩ := isSegment_of_folderVersion? hname
          have htext : (resolution file).toString.toList =
              ((resolution root).toString.toList ++ '/' :: ("ts" ++ String.ofList v).toList) ++
                '/' :: rest := by
            rw [hbelow, hds, String.toList_append, String.toList_ofList]
            simp
          have hsegments : (resolution file).segments =
              (resolution root).segments ++ ("ts" ++ String.ofList v) :: segmentsOf rest := by
            have hread := congrArg segmentsOf htext
            rw [segmentsOf_append_slash, segmentsOf_append_slash, segmentsOf_segment hsegment,
              segmentsOf_toString (isClean_resolution file),
              segmentsOf_toString (isClean_resolution root), List.append_assoc] at hread
            exact hread
          have hne : (resolution file).segments ≠ [] := by
            rw [hsegments]
            exact List.append_ne_nil_of_right_ne_nil _ (List.cons_ne_nil _ _)
          exact ⟨habs, _, _, _, hname,
            segmentsOf_ne_nil_of_toString (isClean_resolution file) hne htext, hsegments⟩
        · cases hfolder
      · cases h
    · cases h
  · cases h

end DeclLint.Path
