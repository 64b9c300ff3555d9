/-
DeclLint/Proofs/Package/Folders.lean

The version folders of a package.  `HasFolders w d vs` says what the file
system shows of them: among the entries of `d` that are named like a version
folder, in whatever order and between whatever others they are listed, the
directories are exactly those named for the shipped releases at the positions
`vs`.  Then `findVersions` finds these releases, oldest first
(`findVersions_eq`): the listing holds no name twice, a name determines the
release, and there is only one way to sort a list without ties.
-/
import DeclLint.Package
import DeclLint.Proofs.Path.Role
import DeclLint.Proofs.Release.Order
import Mathlib.Data.List.Nodup

namespace DeclLint

/-! ### Names of version folders -/

/-- The name of the folder for the release at a position. -/
def Release.folderName (v : Position) : String :=
  "ts" ++ (shipped v).name

theorem Release.folderVersion?_folderName (v : Position) :
    Path.folderVersion? (folderName v) = some (shipped v).name := by
  revert v
  decide +kernel

theorem Release.release?_name (r : Release) :
    (VersionArg.value (.text r.name)).release? = .ok r := by
  simp [VersionArg.release?, Release.ofName?_name]

/-! ### Listings -/

theorem FileTree.nodup_children (t : FileTree) (p : Place) : (t.children p).Nodup := by
  apply t.nodup.filterMap
  intro q q' n hq hq'
  split at hq
  · next m hm =>
    obtain rfl := Option.some.inj hq
    split at hq'
    · next m' hm' =>
      obtain rfl := Option.some.inj hq'
      rw [Text.afterPrefix?_eq_some_iff.mp hm, Text.afterPrefix?_eq_some_iff.mp hm']
    · cases hq'
  · cases hq

theorem Workspace.nodup_of_list {w : Workspace} {p : Path} {names : List String}
    (h : w.list p = .ok names) : names.Nodup := by
  unfold Workspace.list at h
  split at h
  · cases h
  · split at h
    · obtain rfl := Except.ok.inj h
      exact w.tree.nodup_children _
    · cases h
    · cases h

namespace Package

open Release (Position folderName)

/-- The entry of a directory, if it is named like a version folder, can be looked at, and is only
a directory if it is named for one of the releases `vs`. -/
def EntryFits (w : Workspace) (directory : Path) (vs : List Position) (name : String) : Prop :=
  ∀ version ∈ Path.folderVersion? name,
    (w.isDir (directory.child name)).isOk = true ∧
      (w.isDir (directory.child name) = .ok true → ∃ v ∈ vs, version = (Release.shipped v).name)

instance (w : Workspace) (directory : Path) (vs : List Position) (name : String) :
    Decidable (EntryFits w directory vs name) :=
  inferInstanceAs (Decidable (∀ version ∈ Path.folderVersion? name, _))

/-- The version folders of a package are those for the releases `vs`. -/
structure HasFolders (w : Workspace) (directory : Path) (vs : List Position) : Prop where
  ascending : vs.Pairwise (· < ·)
  listed : ∃ names, w.list directory = .ok names ∧
    (∀ name ∈ names, EntryFits w directory vs name) ∧
    ∀ v ∈ vs, folderName v ∈ names ∧ w.isDir (directory.child (folderName v)) = .ok true

/-! ### Finding them -/

variable {w : Workspace} {directory : Path} {vs : List Position}

theorem folderReleases_cons_none {name : String} (names : List String)
    (h : Path.folderVersion? name = none) :
    folderReleases w directory (name :: names) = folderReleases w directory names := by
  simp only [folderReleases, h]

theorem folderReleases_cons_false {name version : String} (names : List String)
    (h : Path.folderVersion? name = some version)
    (hd : w.isDir (directory.child name) = .ok false) :
    folderReleases w directory (name :: names) = folderReleases w directory names := by
  simp only [folderReleases, h, hd]
  rfl

theorem folderReleases_cons_true {v : Position} {name : String} {names : List String}
    {rs : List Release} (h : Path.folderVersion? name = some (Release.shipped v).name)
    (hd : w.isDir (directory.child name) = .ok true)
    (hs : folderReleases w directory names = .ok rs) :
    folderReleases w directory (name :: names) = .ok (.shipped v :: rs) := by
  simp only [folderReleases, h, hd, Release.release?_name, hs]
  rfl

/-- The releases that the entries of a directory stand for. -/
theorem folderReleases_eq (names : List String) (hn : names.Nodup)
    (hfit : ∀ name ∈ names, EntryFits w directory vs name) :
    ∃ is : List Position, folderReleases w directory names = .ok (is.map .shipped) ∧ is.Nodup ∧
      ∀ v, v ∈ is ↔
        folderName v ∈ names ∧ w.isDir (directory.child (folderName v)) = .ok true := by
  induction names with
  | nil => exact ⟨[], rfl, List.nodup_nil, by simp⟩
  | cons name names ih =>
    obtain ⟨hname, hnames⟩ := List.nodup_cons.mp hn
    obtain ⟨is, his, hnodup, hmem⟩ := ih hnames fun n hn => hfit n (List.mem_cons_of_mem _ hn)
    rcases hv : Path.folderVersion? name with - | version
    -- an entry with any other name is passed over
    · refine ⟨is, by rw [folderReleases_cons_none names hv, his], hnodup, fun v => ?_⟩
      have hne : folderName v ≠ name := by
        rintro rfl
        rw [Release.folderVersion?_folderName] at hv
        cases hv
      rw [hmem, List.mem_cons, or_iff_right hne]
    · obtain ⟨hok, hsome⟩ := hfit name List.mem_cons_self version hv
      rcases hd : w.isDir (directory.child name) with e | _ | _
      · rw [hd] at hok
        cases hok
      -- so is a file that is named like a folder
      · refine ⟨is, by rw [folderReleases_cons_false names hv hd, his], hnodup, fun v => ?_⟩
        rw [hmem, List.mem_cons]
        constructor
        · exact fun h => ⟨Or.inr h.1, h.2⟩
        · rintro ⟨rfl | h, hdir⟩
          · rw [hd] at hdir
            cases hdir
          · exact ⟨h, hdir⟩
      -- a folder stands for one of the releases, and its name is that of no other entry
      · obtain ⟨v, -, rfl⟩ := hsome hd
        obtain rfl : name = folderName v := Path.eq_of_folderVersion? hv
        refine ⟨v :: is, folderReleases_cons_true hv hd his, ?_, fun u => ?_⟩
        · exact List.nodup_cons.mpr ⟨fun h => hname ((hmem v).mp h).1, hnodup⟩
        · rw [List.mem_cons, hmem, List.mem_cons]
          constructor
          · rintro (rfl | h)
            · exact ⟨Or.inl rfl, hd⟩
            · exact ⟨Or.inr h.1, h.2⟩
          · rintro ⟨h | h, hdir⟩
            · refine Or.inl (Release.shipped.inj (Option.some.inj ?_))
              rw [← Release.ofName?_name, ← Release.ofName?_name (.shipped v)]
              exact congrArg _ (Option.some.inj
                (by rw [← Release.folderVersion?_folderName, h, hv]))
            · exact Or.inr ⟨h, hdir⟩

/-- Positions without ties have only one ascending order. -/
theorem mergeSort_positions {is : List Position} (h : is.Perm vs) (hvs : vs.Pairwise (· < ·)) :
    (is.mergeSort fun i j => decide (i ≤ j)) = vs := by
  have hsorted : (is.mergeSort fun i j => decide (i ≤ j)).Pairwise
      fun i j => decide (i ≤ j) = true := by
    refine List.pairwise_mergeSort ?_ ?_ is
    · intro i j k hij hjk
      exact decide_eq_true (Fin.le_trans (of_decide_eq_true hij) (of_decide_eq_true hjk))
    · intro i j
      simp [Fin.le_total]
  refine List.Perm.eq_of_pairwise ?_ hsorted ?_ ((List.mergeSort_perm is _).trans h)
  · intro i j _ _ hij hji
    exact Fin.le_antisymm (of_decide_eq_true hij) (of_decide_eq_true hji)
  · exact hvs.imp fun hlt => decide_eq_true (Fin.le_of_lt hlt)

/-- The releases that have a folder are found, oldest first. -/
theorem findVersions_eq (h : HasFolders w directory vs) :
    findVersions w directory = .ok (vs.map .shipped) := by
  obtain ⟨names, hnames, hfit, hall⟩ := h.listed
  obtain ⟨is, his, hnodup, hmem⟩ := folderReleases_eq names (Workspace.nodup_of_list hnames) hfit
  -- the entries stand for the same releases in another order
  have hperm : is.Perm vs := by
    have hvs : vs.Nodup := h.ascending.imp fun hlt => Fin.ne_of_lt hlt
    apply (List.perm_ext_iff_of_nodup hnodup hvs).mpr
    intro v
    rw [hmem]
    constructor
    · rintro ⟨hv, hd⟩
      obtain ⟨-, hsome⟩ := hfit _ hv _ (Release.folderVersion?_folderName v)
      obtain ⟨u, hu, hname⟩ := hsome hd
      have hr : some (Release.shipped v) = some (Release.shipped u) := by
        rw [← Release.ofName?_name, hname, Release.ofName?_name]
      rwa [Release.shipped.inj (Option.some.inj hr)]
    · exact hall v
  rw [findVersions, hnames]
  show (folderReleases w directory names).map _ = _
  -- and sorting by age is sorting by position
  have hsort : (is.mergeSort fun i j => decide (i ≤ j)).map Release.shipped
      = (is.map Release.shipped).mergeSort ageLe := List.map_mergeSort fun _ _ _ _ => rfl
  rw [mergeSort_positions hperm h.ascending] at hsort
  rw [his, hsort]
  rfl

end Package

end DeclLint
