/-
DeclLint/Proofs/Path/NormalForm.lean

The normal form of a path.  It is the text of the resolution with the letter of a
drive in upper case, and a clean path again (`normalForm_eq`), so it is read as that
path and nothing is left to resolve in it (`resolution_normalForm`).  It follows that
the normal form of a normal form is itself, and that texts agree in their normal forms
where their resolutions are the same up to the case of the letter of a drive
(`normalForm_eq_iff`).
-/
import DeclLint.Proofs.Path.Resolution
import DeclLint.Proofs.Path.Spelling

namespace DeclLint.Path

variable {p q : Path} {s t : String}

/-! ### Letters of drives -/

theorem toUpper_of_not_letter {c : Char} (hc : ¬ ('a' ≤ c ∧ c ≤ 'z')) : c.toUpper = c := by
  have hvalues : ¬ ('a'.val ≤ c.val ∧ c.val ≤ 'z'.val) := hc
  exact dif_neg hvalues

theorem upperLetter_eq_toUpper (c : Char) : upperLetter c = c.toUpper := by
  by_cases hc : 'a' ≤ c ∧ c ≤ 'z'
  · exact forall_letter (P := fun c => upperLetter c = c.toUpper) (by decide) hc
  · rw [upperLetter, if_neg hc, toUpper_of_not_letter hc]

theorem toUpper_toUpper (c : Char) : c.toUpper.toUpper = c.toUpper := by
  by_cases hc : 'a' ≤ c ∧ c ≤ 'z'
  · exact forall_letter (P := fun c => c.toUpper.toUpper = c.toUpper) (by decide) hc
  · rw [toUpper_of_not_letter hc, toUpper_of_not_letter hc]

/-- The drive is written in the first segment alone. -/
theorem upperDrive_append {cs ds : List Char} (hne : cs ≠ []) (hds : ds.head? ≠ some ':') :
    upperDrive (cs ++ ds) = upperDrive cs ++ ds := by
  rcases cs with - | ⟨a, - | ⟨b, cs⟩⟩
  · exact absurd rfl hne
  · rcases ds with - | ⟨d, ds⟩
    · rfl
    · have hd : d ≠ ':' := by simpa using hds
      simp [upperDrive, hd]
  · by_cases hb : b = ':' <;> simp [upperDrive, hb]

/-- A text starts with a drive, or is kept. -/
theorem upperDrive_cases (cs : List Char) :
    (∃ c rest, cs = c :: ':' :: rest ∧ upperDrive cs = c.toUpper :: ':' :: rest) ∨
      (∀ c rest, cs ≠ c :: ':' :: rest) ∧ upperDrive cs = cs := by
  unfold upperDrive
  split
  · next c rest =>
    refine Or.inl ⟨c, rest, rfl, ?_⟩
    rw [upperLetter_eq_toUpper]
  · next h => exact Or.inr ⟨h, rfl⟩

theorem upperDrive_eq_iff {cs ds : List Char} :
    upperDrive cs = upperDrive ds ↔
      cs = ds ∨ ∃ c d rest, cs = c :: ':' :: rest ∧ ds = d :: ':' :: rest ∧
        c.toUpper = d.toUpper := by
  constructor
  · intro h
    rcases upperDrive_cases cs with ⟨c, rest, hcs, hupper⟩ | ⟨hcs, hkept⟩
    · rcases upperDrive_cases ds with ⟨d, more, hds, hupper'⟩ | ⟨hds, hkept'⟩
      · rw [hupper, hupper'] at h
        obtain ⟨hletter, hrest⟩ := List.cons.inj h
        obtain rfl := (List.cons.inj hrest).2
        exact Or.inr ⟨c, d, rest, hcs, hds, hletter⟩
      · rw [hupper, hkept'] at h
        exact absurd h.symm (hds _ _)
    · rcases upperDrive_cases ds with ⟨d, more, hds, hupper'⟩ | ⟨-, hkept'⟩
      · rw [hkept, hupper'] at h
        exact absurd h (hcs _ _)
      · rw [hkept, hkept'] at h
        exact Or.inl h
  · rintro (rfl | ⟨c, d, rest, rfl, rfl, h⟩)
    · rfl
    · rw [upperDrive, upperDrive, upperLetter_eq_toUpper, upperLetter_eq_toUpper, h]

/-! ### Paths with drives -/

/-- A segment with the letter of a drive in upper case. -/
def upperDriveSegment (s : String) : String :=
  String.ofList (upperDrive s.toList)

/-- The path with the letter of a drive in upper case; only a relative path starts with one. -/
def withUpperDrive (p : Path) : Path :=
  if p.isAbsolute then p else ⟨p.root, p.segments.modifyHead upperDriveSegment⟩

/-- The paths are the same but for the case of the letter of a drive, which is what stands in front
of a colon at the very start. -/
inductive SameUpToDrive : Path → Path → Prop where
  | refl (p : Path) : SameUpToDrive p p
  | drive {c d : Char} (rest : List Char) (more : List String) (h : c.toUpper = d.toUpper) :
      SameUpToDrive ⟨.relative, String.ofList (c :: ':' :: rest) :: more⟩
        ⟨.relative, String.ofList (d :: ':' :: rest) :: more⟩

/-! ### Segments with drives -/

theorem toList_upperDriveSegment (s : String) :
    (upperDriveSegment s).toList = upperDrive s.toList :=
  String.toList_ofList

theorem upperDriveSegment_eq_iff :
    upperDriveSegment s = upperDriveSegment t ↔
      s = t ∨ ∃ c d rest, s = String.ofList (c :: ':' :: rest) ∧
        t = String.ofList (d :: ':' :: rest) ∧ c.toUpper = d.toUpper := by
  have hofList : ∀ (u : String) (cs : List Char), u = String.ofList cs ↔ u.toList = cs := by
    intro u cs
    rw [← String.toList_inj, String.toList_ofList]
  rw [← String.toList_inj, toList_upperDriveSegment, toList_upperDriveSegment, upperDrive_eq_iff,
    String.toList_inj]
  simp only [hofList]

/-- A segment without a colon has no drive, and is not made by one. -/
theorem upperDriveSegment_eq_iff_of_notMem (ht : ':' ∉ t.toList) :
    upperDriveSegment s = t ↔ s = t := by
  have hkept : upperDriveSegment t = t := by
    rcases upperDrive_cases t.toList with ⟨c, rest, htext, -⟩ | ⟨-, hkept⟩
    · rw [htext] at ht
      exact absurd (List.mem_cons_of_mem c List.mem_cons_self) ht
    · rw [upperDriveSegment, hkept, String.ofList_toList]
  constructor
  · intro h
    rw [← hkept] at h
    rcases upperDriveSegment_eq_iff.mp h with rfl | ⟨c, d, rest, -, rfl, -⟩
    · exact hkept.symm ▸ rfl
    · rw [String.toList_ofList] at ht
      exact absurd (List.mem_cons_of_mem d List.mem_cons_self) ht
  · rintro rfl
    exact hkept

theorem mem_upperDriveSegment {c : Char} (hc : c.isUpper = false)
    (h : c ∈ (upperDriveSegment s).toList) : c ∈ s.toList := by
  rw [toList_upperDriveSegment] at h
  rcases upperDrive_cases s.toList with ⟨d, rest, hs, hupper⟩ | ⟨-, hkept⟩
  · rw [hupper, ← upperLetter_eq_toUpper] at h
    rw [hs]
    rcases List.mem_cons.mp h with rfl | h
    · by_cases hd : d = upperLetter d
      · exact hd ▸ List.mem_cons_self
      · exact absurd rfl (upperLetter_ne hc hd)
    · exact List.mem_cons_of_mem d h
  · rwa [hkept] at h

theorem IsSegment.upperDriveSegment (h : IsSegment s) : IsSegment (upperDriveSegment s) := by
  obtain ⟨hidle, hslash⟩ := h
  refine ⟨?_, fun hmem => hslash (mem_upperDriveSegment (by decide) hmem)⟩
  simp only [isIdle, Bool.or_eq_false_iff, decide_eq_false_iff_not] at hidle ⊢
  rwa [upperDriveSegment_eq_iff_of_notMem (by decide),
    upperDriveSegment_eq_iff_of_notMem (by decide)]

/-! ### Paths with drives -/

theorem mem_modifyHead {f : String → String} {segments : List String} {u : String}
    (h : u ∈ segments.modifyHead f) : u ∈ segments ∨ ∃ s ∈ segments, u = f s := by
  cases segments with
  | nil => cases h
  | cons s rest =>
    rcases List.mem_cons.mp h with rfl | h
    · exact Or.inr ⟨s, List.mem_cons_self, rfl⟩
    · exact Or.inl (List.mem_cons_of_mem s h)

theorem mem_withUpperDrive {u : String} (h : u ∈ p.withUpperDrive.segments) :
    u ∈ p.segments ∨ ∃ s ∈ p.segments, u = upperDriveSegment s := by
  unfold withUpperDrive at h
  split at h
  · exact Or.inl h
  · exact mem_modifyHead h

theorem IsClean.withUpperDrive (h : p.IsClean) : p.withUpperDrive.IsClean := by
  intro u hu
  rcases mem_withUpperDrive hu with hu | ⟨s, hs, rfl⟩
  · exact h u hu
  · exact (h s hs).upperDriveSegment

theorem isAbsolute_withUpperDrive (p : Path) : p.withUpperDrive.isAbsolute = p.isAbsolute := by
  unfold withUpperDrive
  split <;> rfl

/-- A drive takes no part in cancelling double dots. -/
theorem isResolved_withUpperDrive (h : IsResolved p.isAbsolute p.segments) :
    IsResolved p.withUpperDrive.isAbsolute p.withUpperDrive.segments := by
  rw [isAbsolute_withUpperDrive]
  unfold withUpperDrive
  split
  · exact h
  · obtain ⟨n, names, hnames, hn, hsegments⟩ := h
    show IsResolved _ (p.segments.modifyHead upperDriveSegment)
    rw [hsegments]
    cases n with
    | zero =>
      refine ⟨0, names.modifyHead upperDriveSegment, fun hmem => ?_, hn, rfl⟩
      rcases mem_modifyHead hmem with hmem | ⟨s, hs, he⟩
      · exact hnames hmem
      · rw [eq_comm, upperDriveSegment_eq_iff_of_notMem (by decide)] at he
        exact hnames (he ▸ hs)
    | succ n =>
      have hdots : upperDriveSegment ".." = ".." :=
        (upperDriveSegment_eq_iff_of_notMem (by decide)).mpr rfl
      refine ⟨n + 1, names, hnames, hn, ?_⟩
      rw [List.replicate_succ, List.cons_append, List.modifyHead_cons, hdots]

theorem withUpperDrive_eq_iff : p.withUpperDrive = q.withUpperDrive ↔ SameUpToDrive p q := by
  constructor
  · intro h
    have habs : p.isAbsolute = q.isAbsolute := by
      rw [← isAbsolute_withUpperDrive p, h, isAbsolute_withUpperDrive]
    unfold withUpperDrive at h
    split at h
    · next hp =>
      rw [if_pos (habs ▸ hp)] at h
      exact h ▸ .refl p
    · next hp =>
      rw [if_neg (habs ▸ hp)] at h
      obtain ⟨root, segments⟩ := p
      obtain ⟨root', segments'⟩ := q
      obtain ⟨rfl, hsegments⟩ := Path.mk.inj h
      obtain rfl : root = .relative := by simpa [isAbsolute] using hp
      -- either both paths have a first segment or none has
      rcases segments with - | ⟨s, rest⟩ <;> rcases segments' with - | ⟨t, rest'⟩
      · exact .refl _
      · cases hsegments
      · cases hsegments
      · obtain ⟨hhead, rfl⟩ := List.cons.inj hsegments
        rcases upperDriveSegment_eq_iff.mp hhead with rfl | ⟨c, d, more, rfl, rfl, hletter⟩
        · exact .refl _
        · exact .drive more rest hletter
  · rintro (- | ⟨rest, more, h⟩)
    · rfl
    · have hhead := upperDriveSegment_eq_iff.mpr (Or.inr ⟨_, _, rest, rfl, rfl, h⟩)
      show Path.mk _ (_ :: more) = Path.mk _ (_ :: more)
      rw [hhead]

theorem withUpperDrive_withUpperDrive (p : Path) :
    p.withUpperDrive.withUpperDrive = p.withUpperDrive := by
  rw [withUpperDrive_eq_iff]
  rcases hp : p.isAbsolute with - | -
  · obtain ⟨root, segments⟩ := p
    obtain rfl : root = .relative := by simpa [isAbsolute] using hp
    rcases segments with - | ⟨s, rest⟩
    · exact .refl _
    · rcases upperDrive_cases s.toList with ⟨c, more, hs, hupper⟩ | ⟨-, hkept⟩
      · have hdrive := SameUpToDrive.drive more rest (toUpper_toUpper c)
        rwa [← hupper, ← hs, String.ofList_toList] at hdrive
      · have hsame : upperDriveSegment s = s := by
          rw [upperDriveSegment, hkept, String.ofList_toList]
        show SameUpToDrive (Path.mk _ (_ :: rest)) _
        rw [hsame]
        exact .refl _
  · rw [withUpperDrive, if_pos hp]
    exact .refl p

/-! ### Normal forms -/

/-- The text of a relative path starts with its first segment, and no colon follows that. -/
theorem exists_toString_cons (rest : List String) :
    ∃ cs, cs.head? ≠ some ':' ∧
      ∀ s, (Path.mk .relative (s :: rest)).toString.toList = s.toList ++ cs := by
  cases rest with
  | nil =>
    refine ⟨[], nofun, fun s => ?_⟩
    simp [toString, rootText]
  | cons t rest =>
    refine ⟨'/' :: (String.intercalate "/" (t :: rest)).toList, by simp, fun s => ?_⟩
    simp [toString, rootText, String.intercalate_cons_cons]

theorem toString_withUpperDrive (h : p.IsClean) :
    p.withUpperDrive.toString = String.ofList (upperDrive p.toString.toList) := by
  rcases hp : p.isAbsolute with - | -
  · obtain ⟨root, segments⟩ := p
    obtain rfl : root = .relative := by simpa [isAbsolute] using hp
    rcases segments with - | ⟨s, rest⟩
    · rfl
    · obtain ⟨cs, hcolon, htext⟩ := exists_toString_cons rest
      have hne : s.toList ≠ [] := by
        intro hnil
        obtain ⟨hidle, -⟩ := h s List.mem_cons_self
        rw [String.toList_eq_nil_iff.mp hnil] at hidle
        cases hidle
      rw [← String.toList_inj, String.toList_ofList, htext, upperDrive_append hne hcolon,
        ← toList_upperDriveSegment]
      exact htext (upperDriveSegment s)
  · obtain ⟨cs, hcs⟩ := head?_toString_of_isAbsolute hp
    rw [withUpperDrive, if_pos hp, hcs, upperDrive_slash, ← hcs, String.ofList_toList]

/-- The normal form is the text of a clean path. -/
theorem normalForm_eq (s : String) : normalForm s = (resolution s).withUpperDrive.toString :=
  (toString_withUpperDrive (isClean_resolution s)).symm

/-- A resolution holds no backslash. -/
theorem notMem_backslash_resolution (h : t ∈ (resolution s).segments) : '\\' ∉ t.toList := by
  rw [resolution, resolveDots, ofString] at h
  dsimp only at h
  rcases mem_cancelDots h with h | rfl
  · rw [segmentsOf] at h
    obtain ⟨ht, -⟩ := List.mem_filter.mp h
    obtain ⟨piece, hpiece, rfl⟩ := List.mem_map.mp ht
    rw [String.toList_ofList]
    intro hback
    have hmem := Text.mem_of_mem_piece hpiece hback
    rw [String.toList_ofList] at hmem
    obtain ⟨c, -, hc⟩ := List.mem_map.mp hmem
    split at hc
    · cases hc
    · next hne => exact hne hc
  · decide

/-- **A normal form is read as the path that it is the text of.** -/
theorem resolution_normalForm (s : String) :
    resolution (normalForm s) = (resolution s).withUpperDrive := by
  have hclean := (isClean_resolution s).withUpperDrive
  have hresolved := isResolved_withUpperDrive (resolves_iff.mpr (rfl : resolution s = _)).resolved
  rw [normalForm_eq, resolution_eq, ofString_toString hclean, resolveDots,
    cancelDots_of_isResolved hresolved]
  rw [ofString_toString hclean]
  intro t ht hback
  rcases mem_withUpperDrive ht with ht | ⟨u, hu, rfl⟩
  · exact notMem_backslash_resolution ht hback
  · exact notMem_backslash_resolution hu (mem_upperDriveSegment (by decide) hback)

theorem normalForm_normalForm (s : String) : normalForm (normalForm s) = normalForm s := by
  rw [normalForm_eq (normalForm s), resolution_normalForm, normalForm_eq,
    withUpperDrive_withUpperDrive]

/-- **Two texts have the same normal form where they stand for the same path up to the letter of a
drive.** -/
theorem normalForm_eq_iff :
    normalForm s = normalForm t ↔ SameUpToDrive (resolution s) (resolution t) := by
  rw [← withUpperDrive_eq_iff, normalForm_eq, normalForm_eq]
  constructor
  · exact toString_injective (isClean_resolution s).withUpperDrive
      (isClean_resolution t).withUpperDrive
  · exact congrArg toString

end DeclLint.Path
