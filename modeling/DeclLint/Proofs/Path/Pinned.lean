/-
DeclLint/Proofs/Path/Pinned.lean

Which files are pinned to a version.  Whether a file lives in a version folder of a
root is read off texts: the normal form of the file has to start with that of the root
and to go on with a slash and the name of a version folder.  In segments, that is
what one would expect (`isVersionPinned_iff`), however the two paths are spelled, with
one exception.  The text of a root directory ends with its slash, so no file below it
goes on with one, and none is pinned.
-/
import DeclLint.Proofs.Path.Resolution

namespace DeclLint.Path

variable {file root name : String} {p r : Path}

/-! ### Names of version folders -/

/-- A row of digits, at least one. -/
def IsDigits (cs : List Char) : Prop :=
  cs ≠ [] ∧ ∀ c ∈ cs, Text.isDigit c = true

theorem isDigits_singleton {c : Char} (h : Text.isDigit c = true) : IsDigits [c] :=
  ⟨List.cons_ne_nil c [], List.forall_mem_singleton.mpr h⟩

/-- The name is `ts` with a version number behind it, digits and a point and digits. -/
def IsVersionFolder (name : String) : Prop :=
  ∃ major minor, IsDigits major ∧ IsDigits minor ∧
    name.toList = 't' :: 's' :: (major ++ '.' :: minor)

/-- A version number is read to the end of its digits. -/
theorem versionNumber?_append {major minor rest : List Char} (hmajor : IsDigits major)
    (hminor : IsDigits minor) (hrest : ∀ c ∈ rest.head?, Text.isDigit c = false) :
    versionNumber? (major ++ '.' :: (minor ++ rest)) = some (major ++ '.' :: minor, rest) := by
  have hdot : Text.isDigit '.' = false := by decide
  have hend : rest.takeWhile Text.isDigit = [] ∧ rest.dropWhile Text.isDigit = rest := by
    rcases rest with - | ⟨c, rest⟩
    · exact ⟨rfl, rfl⟩
    · have hc : ¬ Text.isDigit c = true := by simp [hrest c rfl]
      exact ⟨List.takeWhile_cons_of_neg hc, List.dropWhile_cons_of_neg hc⟩
  rw [versionNumber?, List.takeWhile_append_of_pos hmajor.2,
    List.dropWhile_append_of_pos hmajor.2, List.takeWhile_cons_of_neg (by simp [hdot]),
    List.dropWhile_cons_of_neg (by simp [hdot]), List.append_nil]
  show (if major.isEmpty || ((minor ++ rest).takeWhile Text.isDigit).isEmpty then none
    else some (major ++ '.' :: (minor ++ rest).takeWhile Text.isDigit,
      (minor ++ rest).dropWhile Text.isDigit)) = _
  rw [List.takeWhile_append_of_pos hminor.2, List.dropWhile_append_of_pos hminor.2, hend.1,
    hend.2, List.append_nil, if_neg]
  simp [hmajor.1, hminor.1]

theorem isDigits_of_versionNumber? {cs v rest : List Char}
    (h : versionNumber? cs = some (v, rest)) :
    ∃ major minor, IsDigits major ∧ IsDigits minor ∧ v = major ++ '.' :: minor := by
  unfold versionNumber? at h
  split at h
  · next t ht =>
    dsimp only at h
    split at h
    · cases h
    · next hempty =>
      simp only [Bool.or_eq_true, List.isEmpty_iff, not_or] at hempty
      obtain ⟨rfl, -⟩ := Prod.mk.inj (Option.some.inj h)
      exact ⟨_, _, ⟨hempty.1, fun c => List.mem_takeWhile_imp⟩,
        ⟨hempty.2, fun c => List.mem_takeWhile_imp⟩, rfl⟩
  · cases h

theorem isVersionFolder_of_folderVersion? {version : String}
    (h : folderVersion? name = some version) : IsVersionFolder name := by
  obtain ⟨rfl, hversion⟩ := folderVersion?_eq_some_iff.mp h
  obtain ⟨major, minor, hmajor, hminor, htext⟩ := isDigits_of_versionNumber? hversion
  refine ⟨major, minor, hmajor, hminor, ?_⟩
  rw [String.toList_append, htext]
  rfl

/-- What starts with a version folder that holds something does so up to its name. -/
theorem startsInVersionFolder_of_isVersionFolder (h : IsVersionFolder name) (rest : List Char) :
    startsInVersionFolder ('/' :: (name.toList ++ '/' :: rest)) = true := by
  obtain ⟨major, minor, hmajor, hminor, htext⟩ := h
  have hslash : ∀ c ∈ ('/' :: rest).head?, Text.isDigit c = false := by
    rintro c ⟨⟩
    decide
  have hnumber := versionNumber?_append hmajor hminor hslash
  rw [htext, startsInVersionFolder]
  simp only [List.cons_append, List.append_assoc, versionFolder?, hnumber]

/-! ### Paths that go on from others -/

/-- The text of a path that goes on from another. -/
theorem toString_append {names : List String} (hp : p.segments ≠ []) (hnames : names ≠ []) :
    (Path.mk p.root (p.segments ++ names)).toString =
      p.toString ++ "/" ++ String.intercalate "/" names := by
  have hne : p.segments ++ names ≠ [] := List.append_ne_nil_of_left_ne_nil hp names
  rw [toString, toString, if_neg fun h => hne h.2, if_neg fun h => hp h.2,
    String.intercalate_append_of_ne_nil hp hnames, String.append_assoc, String.append_assoc,
    String.append_assoc]

/-- The text of a path does not go on from that of its root alone with a slash. -/
theorem toString_ne_rootText_append (hclean : p.IsClean) {below : List Char} :
    p.toString.toList ≠ (rootText p.root).toList ++ '/' :: below := by
  intro h
  unfold toString at h
  split at h
  · next hdot =>
    rw [hdot.1] at h
    cases h
  · rw [String.toList_append, List.append_cancel_left_eq] at h
    exact head?_intercalate hclean (by rw [h]; rfl)

/-! ### Pinned files -/

/-- Pinned files are found by the normal forms of both paths. -/
theorem isVersionPinned_iff_normalForm (file root : String) :
    isVersionPinned file root = true ↔ ∃ below, startsInVersionFolder below = true ∧
      (normalForm file).toList = (normalForm root).toList ++ below := by
  unfold isVersionPinned
  constructor
  · intro h
    split at h
    · next below hbelow => exact ⟨below, h, Text.afterPrefix?_eq_some_iff.mp hbelow⟩
    · cases h
  · rintro ⟨below, h, hbelow⟩
    rw [Text.afterPrefix?_eq_some_iff.mpr hbelow]
    exact h

theorem normalForm_of_resolves {s : String} (h : Resolves s p) (hp : p.isAbsolute = true) :
    normalForm s = p.toString := by
  obtain rfl := resolves_iff.mp h
  exact normalForm_of_isAbsolute hp

/-- A file that goes on from the root by a version folder is pinned. -/
theorem exists_below_of_append {more : List String} (hsame : p.root = r.root)
    (hr : r.segments ≠ []) (hname : IsVersionFolder name) (hmore : more ≠ [])
    (h : p.segments = r.segments ++ name :: more) :
    ∃ below, startsInVersionFolder below = true ∧
      p.toString.toList = r.toString.toList ++ below := by
  refine ⟨_, startsInVersionFolder_of_isVersionFolder hname
    (String.intercalate "/" more).toList, ?_⟩
  have hpath : p = ⟨r.root, r.segments ++ name :: more⟩ := by
    rw [← h, ← hsame]
  rw [hpath, toString_append hr (List.cons_ne_nil name more),
    String.intercalate_cons_of_ne_nil hmore]
  simp

/-- Below a root directory no file is pinned. -/
theorem segments_ne_nil_of_below (hclean : p.IsClean) (hr : r.isAbsolute = true)
    (hsame : p.root = r.root) {below : List Char} (hbelow : startsInVersionFolder below = true)
    (h : p.toString.toList = r.toString.toList ++ below) : r.segments ≠ [] := by
  intro hnil
  have htext : r.toString = rootText p.root := by
    have hrelative : r.root ≠ .relative := by simpa [isAbsolute] using hr
    rw [toString, if_neg fun hdot => hrelative hdot.1, hnil, hsame]
    simp
  unfold startsInVersionFolder at hbelow
  split at hbelow
  · rw [htext] at h
    exact toString_ne_rootText_append hclean h
  · cases hbelow

/-- **A file is pinned exactly if it lies in a version folder directly below the root**, and the
root is not a root directory: what the file stands for goes on from what the root stands for by the
name of a version folder, and more. -/
theorem isVersionPinned_iff (hfile : Resolves file p) (hroot : Resolves root r)
    (habs : r.isAbsolute = true) (hsame : p.root = r.root) :
    isVersionPinned file root = true ↔
      r.segments ≠ [] ∧ ∃ name more, IsVersionFolder name ∧ more ≠ [] ∧
        p.segments = r.segments ++ name :: more := by
  have habs' : p.isAbsolute = true := by rwa [isAbsolute, hsame]
  constructor
  · intro h
    obtain ⟨below, hbelow, htext⟩ := (isVersionPinned_iff_normalForm file root).mp h
    rw [normalForm_of_resolves hfile habs', normalForm_of_resolves hroot habs] at htext
    obtain rfl := resolves_iff.mp hfile
    obtain rfl := resolves_iff.mp hroot
    obtain ⟨-, name, version, more, hname, hmore, hsegments⟩ :=
      exists_folder_of_isVersionPinned habs h
    exact ⟨segments_ne_nil_of_below (isClean_resolution file) habs hsame hbelow htext, name, more,
      isVersionFolder_of_folderVersion? hname, hmore, hsegments⟩
  · rintro ⟨hne, name, more, hname, hmore, hsegments⟩
    rw [isVersionPinned_iff_normalForm, normalForm_of_resolves hfile habs',
      normalForm_of_resolves hroot habs]
    exact exists_below_of_append hsame hne hname hmore hsegments

/-- A file in a version folder, spelled with slashes of both kinds and with dots. -/
theorem isVersionPinned_spelled :
    Resolves "/p\\.//ts3.8/x/../a.d.ts" ⟨.single, ["p", "ts3.8", "a.d.ts"]⟩ ∧
    Resolves "/q/../p/" ⟨.single, ["p"]⟩ ∧
    isVersionPinned "/p\\.//ts3.8/x/../a.d.ts" "/q/../p/" = true := by
  have hfile : Resolves "/p\\.//ts3.8/x/../a.d.ts" ⟨.single, ["p", "ts3.8", "a.d.ts"]⟩ :=
    resolves_iff.mpr (by decide +kernel)
  have hroot : Resolves "/q/../p/" ⟨.single, ["p"]⟩ := resolves_iff.mpr (by decide +kernel)
  have hfolder : IsVersionFolder "ts3.8" :=
    ⟨['3'], ['8'], isDigits_singleton (by decide), isDigits_singleton (by decide), by decide⟩
  exact ⟨hfile, hroot, (isVersionPinned_iff hfile hroot rfl rfl).mpr
    ⟨nofun, "ts3.8", ["a.d.ts"], hfolder, nofun, rfl⟩⟩

/-- In a root directory, the files of a version folder are not pinned. -/
theorem not_all_pinned : ¬ ∀ (file root : String) (p r : Path), Resolves file p → Resolves root r →
    r.isAbsolute = true → p.root = r.root →
    (isVersionPinned file root = true ↔ ∃ name more, IsVersionFolder name ∧ more ≠ [] ∧
      p.segments = r.segments ++ name :: more) := by
  intro hall
  have hfolder : IsVersionFolder "ts3.8" :=
    ⟨['3'], ['8'], isDigits_singleton (by decide), isDigits_singleton (by decide), by decide⟩
  have hpinned : isVersionPinned "/ts3.8/index.d.ts" "/" = true :=
    (hall _ _ ⟨.single, ["ts3.8", "index.d.ts"]⟩ ⟨.single, []⟩
      (resolves_iff.mpr (by decide +kernel)) (resolves_iff.mpr (by decide +kernel)) rfl rfl).mpr
      ⟨"ts3.8", ["index.d.ts"], hfolder, nofun, rfl⟩
  have hopen : isVersionPinned "/ts3.8/index.d.ts" "/" = false := by decide +kernel
  cases hpinned.symm.trans hopen

end DeclLint.Path
