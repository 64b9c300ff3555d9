/-
DeclLint/Proofs/Files/Walk.lean

Where paths lead in a tree.  The names in a file system are plain: they are
segments, no double dots, and here they hold no backslash.  In a tree with plain
names, whose places have one name each, following a path segment by segment comes
to the same as cancelling its double dots in the text (`eq_of_walk`): a directory
that was entered is left by the way it was entered.
-/
import DeclLint.Files.Workspace
import DeclLint.Proofs.Path.Role
import DeclLint.Proofs.Result
import DeclLint.Proofs.Table

namespace DeclLint

/-- The name is one that a file can have, and holds no backslash. -/
def IsPlainName (s : String) : Prop :=
  Path.IsSegment s ∧ s ≠ ".." ∧ '\\' ∉ s.toList

instance (s : String) : Decidable (IsPlainName s) :=
  inferInstanceAs (Decidable (_ ∧ _ ∧ _))

/-- The name is one that an entry of a directory can have. -/
def IsProperName (s : String) : Prop :=
  Path.IsSegment s ∧ s ≠ ".." ∧ '\x00' ∉ s.toList ∧ s.utf8ByteSize ≤ segmentLimit

instance (s : String) : Decidable (IsProperName s) :=
  inferInstanceAs (Decidable (_ ∧ _ ∧ _ ∧ _))

namespace FileTree

/-! ### Places in a tree -/

/-- All names in the tree are names that entries can have. -/
def HasProperNames (t : FileTree) : Prop :=
  ∀ p ∈ t.entries.keys, ∀ s ∈ p, IsProperName s

instance (t : FileTree) : Decidable t.HasProperNames :=
  inferInstanceAs (Decidable (∀ p ∈ t.entries.keys, ∀ s ∈ p, IsProperName s))

/-- All names in the tree are plain. -/
def HasPlainNames (t : FileTree) : Prop :=
  ∀ p ∈ t.entries.keys, ∀ s ∈ p, IsPlainName s

instance (t : FileTree) : Decidable t.HasPlainNames :=
  inferInstanceAs (Decidable (∀ p ∈ t.entries.keys, ∀ s ∈ p, IsPlainName s))

variable {t : FileTree} {p q here place : Place} {s : String} {n : Node}

theorem mem_keys_of_node? (h : t.node? p = some n) (hp : p ≠ []) : p ∈ t.entries.keys := by
  rw [node?, if_neg hp] at h
  exact List.mem_map.mpr ⟨(p, n), Table.mem_of_get? h, rfl⟩

theorem HasPlainNames.of_node? (hplain : t.HasPlainNames) (h : t.node? p = some n) :
    ∀ s ∈ p, IsPlainName s := by
  by_cases hp : p = []
  · rw [hp]
    exact fun s hs => absurd hs List.not_mem_nil
  · exact hplain p (mem_keys_of_node? h hp)

theorem HasProperNames.of_node? (hproper : t.HasProperNames) (h : t.node? p = some n) :
    ∀ s ∈ p, IsProperName s := by
  by_cases hp : p = []
  · rw [hp]
    exact fun s hs => absurd hs List.not_mem_nil
  · exact hproper p (mem_keys_of_node? h hp)

/-- What lies below a place lies in a directory. -/
theorem node?_of_append (h : t.node? (p ++ q) = some n) (hq : q ≠ []) : t.node? p = some .dir := by
  induction q using List.reverseRecOn generalizing n with
  | nil => exact absurd rfl hq
  | append_singleton q s ih =>
    rw [← List.append_assoc] at h
    have hmem := mem_keys_of_node? h (by simp)
    have hdir : t.node? (p ++ q) = some .dir := by
      by_cases hnil : p ++ q = []
      · rw [hnil]
        rfl
      · rw [node?, if_neg hnil]
        exact (t.closed (p ++ q) s hmem).resolve_left hnil
    by_cases hq : q = []
    · rwa [hq, List.append_nil] at hdir
    · exact ih hdir hq

theorem mem_children (h : t.node? (p ++ [s]) = some n) : s ∈ t.children p := by
  refine List.mem_filterMap.mpr ⟨p ++ [s], mem_keys_of_node? h (by simp), ?_⟩
  rw [Text.afterPrefix?_eq_some_iff.mpr rfl]

/-! ### Following a path -/

theorem walk_append (here : Place) (xs ys : List String) :
    t.walk here (xs ++ ys) = t.walk here xs >>= fun p => t.walk p ys := by
  induction xs generalizing here with
  | nil => rfl
  | cons x xs ih =>
    rw [List.cons_append, walk, walk]
    split
    · split
      · exact ih _
      · split
        · rfl
        · split
          · exact ih _
          · rfl
    · rfl
    · rfl

/-- What lies below a place is found by the names that lead there. -/
theorem walk_of_node? (hnames : ∀ s ∈ q, IsProperName s) (h : t.node? (p ++ q) = some n) :
    t.walk p q = .ok (p ++ q) := by
  induction q generalizing p with
  | nil => rw [walk, List.append_nil]
  | cons s rest ih =>
    obtain ⟨⟨-, hdots, -, hsize⟩, hrest⟩ := List.forall_mem_cons.mp hnames
    rw [List.append_cons] at h ⊢
    have hnext : (t.node? (p ++ [s])).isSome = true := by
      by_cases hnil : rest = []
      · rw [hnil, List.append_nil] at h
        rw [h]
        rfl
      · rw [node?_of_append h hnil]
        rfl
    have hhere : t.node? p = some .dir := by
      rw [List.append_assoc] at h
      exact node?_of_append h (by simp)
    rw [walk, hhere]
    dsimp only
    rw [if_neg hdots, if_neg (Nat.not_lt.mpr hsize), if_pos hnext]
    exact ih hrest h

/-- Leaving a place with plain names by a double dot is leaving its last one. -/
theorem push_dots (hhere : ∀ s ∈ here, IsPlainName s) :
    Path.push true here.reverse ".." = here.dropLast.reverse := by
  rcases List.eq_nil_or_concat here with rfl | ⟨above, last, rfl⟩
  · rfl
  · have hlast : last ≠ ".." := (hhere last (by simp)).2.1
    simp [Path.push, hlast]

/-- **Following a path is cancelling its double dots**, and each segment that is followed is a
double dot or a name. -/
theorem eq_of_walk (hplain : t.HasPlainNames) {segments : List String}
    (hhere : ∀ s ∈ here, IsPlainName s) (h : t.walk here segments = .ok place) :
    place = (segments.foldl (Path.push true) here.reverse).reverse ∧
      ∀ s ∈ segments, s = ".." ∨ IsPlainName s := by
  induction segments generalizing here with
  | nil =>
    obtain rfl := Except.ok.inj h
    exact ⟨here.reverse_reverse.symm, by simp⟩
  | cons s rest ih =>
    rw [walk] at h
    split at h
    · split at h
      -- a double dot leaves the directory
      · next hs =>
        subst hs
        have hup : ∀ s ∈ here.dropLast, IsPlainName s :=
          fun s hs => hhere s (List.dropLast_subset _ hs)
        obtain ⟨hplace, hrest⟩ := ih hup h
        refine ⟨?_, List.forall_mem_cons.mpr ⟨Or.inl rfl, hrest⟩⟩
        rw [List.foldl_cons, push_dots hhere]
        exact hplace
      · next hs =>
        split at h
        · cases h
        · split at h
          -- a name enters what it names
          · next hnode =>
            obtain ⟨n, hnode⟩ := Option.isSome_iff_exists.mp hnode
            have hdown := hplain.of_node? hnode
            obtain ⟨hplace, hrest⟩ := ih hdown h
            refine ⟨?_, List.forall_mem_cons.mpr ⟨Or.inr (hdown s (by simp)), hrest⟩⟩
            rw [List.foldl_cons, Path.push_of_ne _ _ hs]
            rw [List.reverse_append] at hplace
            exact hplace
          · cases h
    · cases h
    · cases h

end FileTree

namespace Workspace

variable {w : Workspace} {p : Path} {place : Place}

theorem locate_eq_ok_iff :
    w.locate p = .ok place ↔ hasNul p = false ∧ p.toString.utf8ByteSize ≤ pathLimit ∧
      w.tree.walk [] (w.absolute p).segments = .ok place := by
  unfold locate
  split
  · next h => simp [h]
  · next h =>
    rw [Bool.not_eq_true] at h
    split
    · next hlimit => simp [Nat.not_le_of_lt hlimit]
    · next hlimit => simp [h, Nat.not_lt.mp hlimit]

theorem isFile_eq_ok_true_iff :
    w.isFile p = .ok true ↔
      ∃ place bytes, w.locate p = .ok place ∧ w.tree.node? place = some (.file bytes) := by
  unfold isFile node?
  constructor
  · intro h
    obtain ⟨n, hn, hfile⟩ := Except.map_eq_ok_iff.mp h
    split at hfile
    · next bytes =>
      split at hn
      · next place hplace => exact ⟨place, bytes, hplace, Except.ok.inj hn⟩
      · cases hn
      · cases hn
    · cases hfile
  · rintro ⟨place, bytes, hplace, hnode⟩
    rw [hplace]
    show Except.map _ (.ok (w.tree.node? place)) = _
    rw [hnode]
    rfl

theorem isAbsolute_absolute (w : Workspace) (p : Path) : (w.absolute p).isAbsolute = true := by
  show (Path.join w.cwdPath p).isAbsolute = true
  by_cases h : p.isAbsolute = true
  · rw [Path.join_absolute h]
    exact h
  · rw [Path.join_relative (Bool.not_eq_true _ ▸ h)]
    rfl

theorem absolute_of_isAbsolute (h : p.isAbsolute = true) : w.absolute p = p :=
  Path.join_absolute h

theorem mem_segments_absolute {s : String} (h : s ∈ p.segments) : s ∈ (w.absolute p).segments := by
  show s ∈ (Path.join w.cwdPath p).segments
  by_cases habs : p.isAbsolute = true
  · rw [Path.join_absolute habs]
    exact h
  · rw [Path.join_relative (Bool.not_eq_true _ ▸ habs)]
    exact List.mem_append_right _ h

theorem segments_absolute_append (w : Workspace) (p : Path) (names : List String) :
    (w.absolute ⟨p.root, p.segments ++ names⟩).segments = (w.absolute p).segments ++ names := by
  obtain ⟨root, segments⟩ := p
  cases root with
  | relative => exact (List.append_assoc w.cwd segments names).symm
  | single => rfl
  | double => rfl

/-- Names behind a path that leads somewhere are followed from there, unless the whole path is too
long. -/
theorem locate_append {names : List String} (hp : w.locate p = .ok place)
    (hnul : ∀ s ∈ names, '\x00' ∉ s.toList) :
    w.locate ⟨p.root, p.segments ++ names⟩ =
      if pathLimit < (Path.mk p.root (p.segments ++ names)).toString.utf8ByteSize
      then .error .nameTooLong else w.tree.walk place names := by
  obtain ⟨hp₀, -, hwalk⟩ := locate_eq_ok_iff.mp hp
  have hnul' : hasNul ⟨p.root, p.segments ++ names⟩ = false := by
    have happend : hasNul ⟨p.root, p.segments ++ names⟩ =
        (hasNul p || names.any fun s => s.toList.contains '\x00') := List.any_append
    rw [happend, hp₀, Bool.false_or, List.any_eq_false]
    simpa using hnul
  rw [locate, hnul', if_neg Bool.false_ne_true, segments_absolute_append, FileTree.walk_append,
    hwalk]
  rfl

/-- A name seen from a path that leads somewhere is followed from there, unless the whole path is
too long. -/
theorem locate_child_cases {name : String} (hp : w.locate p = .ok place)
    (hname : Path.IsSegment name) (hnul : '\x00' ∉ name.toList) :
    w.locate (p.child name) = w.tree.walk place [name] ∨
      w.locate (p.child name) = .error .nameTooLong := by
  rw [Path.child_segment p hname, locate_append hp (by simpa using hnul)]
  split
  · exact Or.inr rfl
  · exact Or.inl rfl

/-- Whatever lies in the place that a path leads to is found by its name, unless a name or the whole
path is too long. -/
theorem locate_child {name : String} {n : Node} (hp : w.locate p = .ok place)
    (hname : Path.IsSegment name) (hdots : name ≠ "..") (hnul : '\x00' ∉ name.toList)
    (hnode : w.tree.node? (place ++ [name]) = some n) :
    w.locate (p.child name) = .ok (place ++ [name]) ∨
      w.locate (p.child name) = .error .nameTooLong := by
  rcases locate_child_cases hp hname hnul with h | h
  · rw [h, FileTree.walk, FileTree.node?_of_append hnode (List.cons_ne_nil _ _)]
    dsimp only
    rw [if_neg hdots, hnode]
    split
    · exact Or.inr rfl
    · exact Or.inl rfl
  · exact Or.inr h

/-- A name that is too long is no name of anything. -/
theorem locate_child_of_overlong {name : String} (hp : w.locate p = .ok place)
    (hdir : w.tree.node? place = some .dir) (hname : Path.IsSegment name) (hdots : name ≠ "..")
    (hnul : '\x00' ∉ name.toList) (hlong : segmentLimit < name.utf8ByteSize) :
    w.locate (p.child name) = .error .nameTooLong := by
  rcases locate_child_cases hp hname hnul with h | h
  · rw [h, FileTree.walk, hdir]
    dsimp only
    rw [if_neg hdots, if_pos hlong]
  · exact h

section Followed

variable (hplain : w.tree.HasPlainNames)

include hplain

/-- A path that leads somewhere has only double dots and plain names. -/
theorem segments_of_walk (h : w.tree.walk [] (w.absolute p).segments = .ok place) :
    ∀ s ∈ (w.absolute p).segments, s = ".." ∨ IsPlainName s :=
  (FileTree.eq_of_walk hplain (by simp) h).2

theorem isClean_of_walk (h : w.tree.walk [] (w.absolute p).segments = .ok place) :
    (w.absolute p).IsClean := by
  intro s hs
  rcases segments_of_walk hplain h s hs with rfl | hs
  · decide
  · exact hs.1

/-- The text of a path that leads somewhere is resolved without regard to backslashes. -/
theorem resolution_of_walk {text : String}
    (h : w.tree.walk [] (w.absolute (.ofString text)).segments = .ok place) :
    Path.resolution text = Path.resolveDots (.ofString text) := by
  refine Path.resolution_eq fun s hs => ?_
  rcases segments_of_walk hplain h s (mem_segments_absolute hs) with rfl | hs
  · decide
  · exact hs.2.2

/-- An absolute path leads to its resolution, if it leads anywhere. -/
theorem segments_resolution_of_walk {text : String}
    (h : w.tree.walk [] (w.absolute (.ofString text)).segments = .ok place)
    (habs : (Path.resolution text).isAbsolute = true) :
    (Path.resolution text).segments = place := by
  rw [resolution_of_walk hplain h] at habs ⊢
  have habs' : (Path.ofString text).isAbsolute = true := habs
  rw [absolute_of_isAbsolute habs'] at h
  show Path.cancelDots (Path.ofString text).isAbsolute _ = place
  rw [habs']
  exact (FileTree.eq_of_walk hplain (by simp) h).1.symm

end Followed

end Workspace

end DeclLint
