/-
DeclLint/Proofs/Project/Collect.lean

The files of a project, as a list.  What the collection of files promises is
stated without the way it goes about it (`IsCollection`): it is refused exactly if
a listed name leads to no file, with the first such name; otherwise the listed
files come first, and after them exactly the source files below the root that the
patterns select and that are not listed, in ascending order.

Each part of the collection is compared with what it looks for, and what it looks
for depends only on what is found at each place: the order in which directories
list their entries does not matter (`collect_congr`).  Beside a refusal there is
one other way to end early, a limit (`WithinLimits`): a path that is too long to be
looked up, a directory that lies too deep to be searched, or a pattern whose matching
is nested too deep.
-/
import DeclLint.Project.Files
import DeclLint.Proofs.Files.Below
import DeclLint.Proofs.Path.Glob

namespace DeclLint

/-! ### Patterns -/

namespace Path

/-- The pattern of which nothing is left out selects everything. -/
theorem matchesGlob_everything {segments : List String} (h : segments ≠ []) :
    matchesGlob segments (LooseText.ofString "**/*") = true := by
  have hglob : globOf (LooseText.ofString "**/*") =
      [.deep, .one (LooseText.ofString "*")] := by decide +kernel
  rw [matchesGlob, hglob, globMatches_everything]
  exact h

end Path

namespace Project

/-! ### What the collection looks for -/

/-- What a name leads to from the root, if it is a text that leads anywhere. -/
def foundAt? (w : Workspace) (root : Path) (name : LooseText) : Option Node :=
  name.toString?.bind fun t => (w.node? (root.child t)).toOption.join

/-- The name leads from the root to a file. -/
def leadsToFile (w : Workspace) (root : Path) (name : LooseText) : Bool :=
  match foundAt? w root name with
  | some (.file _) => true
  | _ => false

/-- What an include pattern stands for: everything below, where it names a directory. -/
def meant (w : Workspace) (root : Path) (pattern : LooseText) : LooseText :=
  if hasWildcard pattern = false ∧ foundAt? w root pattern = some .dir then everythingBelow pattern
  else pattern

/-- The names lead from the root down to something. -/
def IsBelow (w : Workspace) (root : Path) (segments : Place) (n : Node) : Prop :=
  segments ≠ [] ∧ ∃ place, w.locate root = .ok place ∧ w.tree.node? (place ++ segments) = some n

/-- The names lead from the root down to a file with the name of a source file. -/
def IsSource (w : Workspace) (root : Path) (segments : Place) : Prop :=
  segments ≠ [] ∧ isSourceName (segments.getLast?.getD "") = true ∧
    ∃ place bytes, w.locate root = .ok place ∧
      w.tree.node? (place ++ segments) = some (.file bytes)

/-- The names of the files that a project lists. -/
def Selection.listed (s : Selection) : List LooseText :=
  s.files.getD []

/-- A file below the root is selected.  Without patterns everything is, unless files are listed. -/
def IsSelected (w : Workspace) (root : Path) (s : Selection) (segments : Place) : Prop :=
  match s.includes, s.files with
  | some patterns, _ => ∃ p ∈ patterns, Path.matchesGlob segments (meant w root p) = true
  | none, some _ => False
  | none, none => True

/-- The paths of the files that a project lists, each once. -/
def listedPaths (root : Path) (s : Selection) : List Path :=
  (s.listed.map fun name => root.child name.escaped).eraseDups

/-- The name is the first of some names that leads to no file. -/
def IsFirstAbsent (w : Workspace) (root : Path) (names : List LooseText) (name : LooseText) :
    Prop :=
  ∃ before after, names = before ++ name :: after ∧
    (∀ n ∈ before, leadsToFile w root n = true) ∧ leadsToFile w root name = false

/-- The collection of the files of a project ends with `r`, as it should. -/
structure IsCollection (w : Workspace) (root : Path) (s : Selection)
    (r : Except LintError (List Path)) : Prop where
  /-- It is refused exactly for the first listed name that leads to no file. -/
  refused : ∀ e, r = .error e ↔ ∃ name, IsFirstAbsent w root s.listed name ∧
    e = .project (.listedAbsent name.escaped root)
  /-- Otherwise it is a list of the listed files, and then of others. -/
  collected : (∀ n ∈ s.listed, leadsToFile w root n = true) →
    ∃ chosen : List Place, r = .ok (listedPaths root s ++ chosen.map (pathBelow root)) ∧
      (chosen.map fun c => (pathBelow root c).segments).Pairwise (· < ·) ∧
      ∀ segments, segments ∈ chosen ↔ IsSource w root segments ∧
        pathBelow root segments ∉ listedPaths root s ∧
        Path.isExcluded segments (s.excludes.getD defaultExclude) = false ∧
        IsSelected w root s segments

/-! ### Limits -/

/-- The error is about a limit: a path that is too long, a directory that lies too deep, or a
pattern that is nested too deep. -/
def IsLimitError : LintError → Prop
  | .access _ .nameTooLong => True
  | .excess (.nesting .directory) => True
  | .excess (.nesting .pattern) => True
  | _ => False

/-- The matching of the pattern with the path is nested too deep, or the pattern is looked up as a
name that is too long. -/
def ExceedsLimit (w : Workspace) (root : Path) (segments : Place) (pattern : LooseText) : Prop :=
  (hasWildcard pattern = false ∧ w.IsOverlong (root.child pattern.escaped)) ∨
    Path.isTooDeep w.room.patterns (Path.globOf (meant w root pattern)) segments = true

/-- Whatever lies below the root can be searched: its path is not too long, and no directory lies
too deep. -/
def IsSearchable (w : Workspace) (root : Path) : Prop :=
  ∀ segments n, IsBelow w root segments n →
    (pathBelow root segments).toString.utf8ByteSize ≤ pathLimit ∧
      (n = .dir → segments.length ≤ w.room.directories)

/-- No path that may have to be looked up is too long, no directory that may have to be searched
lies too deep, and no pattern is nested too deep to be matched with a source file. -/
structure WithinLimits (w : Workspace) (root : Path) (s : Selection) : Prop where
  notOverlong : ¬ w.IsOverlong root ∧ ∀ name ∈ s.listed, ¬ w.IsOverlong (root.child name.escaped)
  searchable : s.effectiveInclude ≠ [] → IsSearchable w root
  included : ∀ segments, IsSource w root segments →
    ∀ p ∈ s.effectiveInclude, ¬ ExceedsLimit w root segments p
  excluded : ∀ segments, IsSource w root segments →
    ∀ p ∈ s.effectiveExclude, isTooDeepBelow w.room.patterns segments p = false

/-- The computation ends with `r`, or else at a limit, which it can only under a condition. -/
def Gives {α : Type} (limited : Prop) (x r : Except LintError α) : Prop :=
  x = r ∨ limited ∧ ∃ e, x = .error e ∧ IsLimitError e

section

variable {α β : Type} {p q : Prop} {x r : Except LintError α} {f g : α → Except LintError β}

theorem Gives.bind (hx : Gives p x r) (hf : ∀ a, r = .ok a → Gives p (f a) (g a)) :
    Gives p (x >>= f) (r >>= g) := by
  rcases hx with rfl | ⟨hp, e, rfl, he⟩
  · cases x with
    | error e => exact Or.inl rfl
    | ok a => exact hf a rfl
  · exact Or.inr ⟨hp, e, rfl, he⟩

theorem Gives.bind_ok {a : α} {y : Except LintError β} (hx : Gives p x (.ok a))
    (hf : Gives p (f a) y) : Gives p (x >>= f) y :=
  Gives.bind (g := fun _ => y) hx fun _ h => Except.ok.inj h ▸ hf

theorem Gives.mono (h : Gives p x r) (hpq : p → q) : Gives q x r :=
  h.imp_right fun ⟨hp, he⟩ => ⟨hpq hp, he⟩

theorem Gives.of_not (h : Gives p x r) (hp : ¬ p) : x = r :=
  h.resolve_right fun hlimited => hp hlimited.1

theorem Gives.eq_of_ok {a b : α} (h : Gives p x (.ok a)) (hx : x = .ok b) : b = a := by
  rcases h with hok | ⟨-, e, herror, -⟩
  · exact Except.ok.inj (hx.symm.trans hok)
  · rw [herror] at hx
    cases hx

theorem Gives.limited {a : α} {e : LintError} (h : Gives p x (.ok a)) (hx : x = .error e) : p := by
  rcases h with hok | ⟨hp, -⟩
  · rw [hok] at hx
    cases hx
  · exact hp

theorem Gives.isLimitError {a : α} {e : LintError} (h : Gives p x (.ok a)) (hx : x = .error e) :
    IsLimitError e := by
  rcases h with hok | ⟨-, e', herror, hlimit⟩
  · rw [hok] at hx
    cases hx
  · obtain rfl := Except.error.inj (hx.symm.trans herror)
    exact hlimit

end

/-! ### The parts of the collection -/

variable {w : Workspace} {root : Path} {s : Selection}

theorem gives_namedNode? (w : Workspace) (root : Path) (name : LooseText) :
    Gives (w.IsOverlong (root.child name.escaped)) (namedNode? w root name)
      (.ok (foundAt? w root name)) := by
  have hnode : ∀ p, (∃ n, w.node? p = .ok n) ∨
      w.IsOverlong p ∧ w.node? p = .error .nameTooLong := by
    intro p
    cases h : w.node? p with
    | ok n => exact Or.inl ⟨n, rfl⟩
    | error f =>
      obtain ⟨rfl, hlong⟩ := Workspace.isOverlong_of_node? h
      exact Or.inr ⟨hlong, rfl⟩
  unfold namedNode? foundAt?
  cases hname : name.toString? with
  | some t =>
    rw [LooseText.eq_ofString hname, LooseText.escaped_ofString, Option.bind_some]
    show Gives _ (LintError.atPath (root.child t) (w.node? (root.child t))) _
    rcases hnode (root.child t) with ⟨n, hn⟩ | ⟨hlong, hn⟩
    · rw [hn]
      exact Or.inl rfl
    · rw [hn]
      exact Or.inr ⟨hlong, _, rfl, trivial⟩
  | none =>
    rw [Option.bind_none]
    dsimp only
    split
    · rcases hnode (root.child name.escaped) with ⟨n, hn⟩ | ⟨hlong, hn⟩
      · rw [hn]
        exact Or.inl rfl
      · rw [hn]
        exact Or.inr ⟨hlong, _, rfl, trivial⟩
    · exact Or.inl rfl

/-- A name that leads somewhere is a text, and its path can be followed. -/
theorem exists_locate_of_foundAt? {name : LooseText} {n : Node}
    (h : foundAt? w root name = some n) :
    ∃ text place, name = LooseText.ofString text ∧ w.locate (root.child text) = .ok place := by
  obtain ⟨text, htext, hfound⟩ := Option.bind_eq_some_iff.mp h
  cases hlocate : w.locate (root.child text) with
  | ok place => exact ⟨text, place, LooseText.eq_ofString htext, hlocate⟩
  | error f =>
    rw [Workspace.node?, hlocate] at hfound
    cases f <;> cases hfound

theorem exists_locate_of_leadsToFile {name : LooseText} (h : leadsToFile w root name = true) :
    ∃ place, w.locate (root.child name.escaped) = .ok place := by
  unfold leadsToFile at h
  split at h
  · next hfound =>
    obtain ⟨text, place, rfl, hplace⟩ := exists_locate_of_foundAt? hfound
    rw [LooseText.escaped_ofString]
    exact ⟨place, hplace⟩
  · cases h

theorem gives_isMatched (room : Nat) (segments : Place) (pattern : LooseText) :
    Gives (Path.isTooDeep room (Path.globOf pattern) segments = true)
      (isMatched room segments pattern) (.ok (Path.matchesGlob segments pattern)) := by
  unfold isMatched
  split
  · next h => exact Or.inr ⟨h, _, rfl, trivial⟩
  · exact Or.inl rfl

theorem gives_isIncludedBy (w : Workspace) (root : Path) (segments : Place) (pattern : LooseText) :
    Gives (ExceedsLimit w root segments pattern) (isIncludedBy w root segments pattern)
      (.ok (Path.matchesGlob segments (meant w root pattern))) := by
  have hmatched := (gives_isMatched w.room.patterns segments (meant w root pattern)).mono
    (q := ExceedsLimit w root segments pattern) Or.inr
  unfold isIncludedBy
  cases hwild : hasWildcard pattern with
  | true =>
    have hmeant : meant w root pattern = pattern := if_neg (by rw [hwild]; simp)
    rw [hmeant] at hmatched ⊢
    exact hmatched
  | false =>
    refine Gives.bind_ok ((gives_namedNode? w root pattern).mono fun h => Or.inl ⟨hwild, h⟩) ?_
    have hmeant : meant w root pattern =
        if foundAt? w root pattern = some .dir then everythingBelow pattern else pattern := by
      rw [meant, hwild]
      simp
    rw [hmeant] at hmatched ⊢
    exact hmatched

theorem gives_isIncluded (w : Workspace) (root : Path) (segments : Place)
    (patterns : List LooseText) :
    Gives (∃ p ∈ patterns, ExceedsLimit w root segments p) (isIncluded w root segments patterns)
      (.ok (patterns.any fun p => Path.matchesGlob segments (meant w root p))) := by
  induction patterns with
  | nil => exact Or.inl rfl
  | cons p ps ih =>
    refine Gives.bind_ok ((gives_isIncludedBy w root segments p).mono fun h =>
      ⟨p, List.mem_cons_self, h⟩) ?_
    rw [List.any_cons]
    cases Path.matchesGlob segments (meant w root p) with
    | true => exact Or.inl rfl
    | false => exact ih.mono fun ⟨q, hq, h⟩ => ⟨q, List.mem_cons_of_mem p hq, h⟩

theorem gives_isLeftOut (room : Nat) (segments : Place) (patterns : List LooseText) :
    Gives (∃ p ∈ patterns, isTooDeepBelow room segments p = true)
      (isLeftOut room segments patterns) (.ok (Path.isExcluded segments patterns)) := by
  unfold isLeftOut
  dsimp only
  split
  -- a pattern in front of those that are too deep is enough
  · next h =>
    obtain ⟨p, hp, hexcluded⟩ := List.any_eq_true.mp h
    refine Or.inl (congrArg Except.ok ?_)
    exact (List.any_eq_true.mpr
      ⟨p, (List.takeWhile_prefix _).subset hp, hexcluded⟩).symm
  · next h =>
    split
    · next hlength =>
      refine Or.inr ⟨?_, _, rfl, trivial⟩
      by_contra hnone
      have hall : patterns.takeWhile (!isTooDeepBelow room segments ·) = patterns := by
        rw [List.takeWhile_eq_self_iff]
        exact fun p hp => by simpa using fun hdeep => hnone ⟨p, hp, hdeep⟩
      rw [hall] at hlength
      exact Nat.lt_irrefl _ hlength
    · next hlength =>
      refine Or.inl (congrArg Except.ok ?_)
      have hall : patterns.takeWhile (!isTooDeepBelow room segments ·) = patterns :=
        (List.takeWhile_prefix _).eq_of_length_le (Nat.not_lt.mp hlength)
      rw [hall, Bool.not_eq_true] at h
      exact h.symm

theorem isSource_iff {segments : Place} : IsSource w root segments ↔
    isSourceName (segments.getLast?.getD "") = true ∧
      ∃ bytes, IsBelow w root segments (.file bytes) := by
  constructor
  · rintro ⟨hne, hname, place, bytes, hplace, hnode⟩
    exact ⟨hname, bytes, hne, place, hplace, hnode⟩
  · rintro ⟨hname, bytes, hne, place, hplace, hnode⟩
    exact ⟨hne, hname, place, bytes, hplace, hnode⟩

/-- The file is a source file and chosen by the patterns. -/
def isChosen (w : Workspace) (root : Path) (s : Selection) (segments : Place) : Bool :=
  isSourceName (segments.getLast?.getD "") &&
    (!Path.isExcluded segments s.effectiveExclude &&
      s.effectiveInclude.any fun p => Path.matchesGlob segments (meant w root p))

theorem gives_checkLength (root : Path) (segments : Place) :
    Gives (¬ (pathBelow root segments).toString.utf8ByteSize ≤ pathLimit)
      (checkLength root segments) (.ok ()) := by
  unfold checkLength
  dsimp only
  split
  · next h => exact Or.inr ⟨Nat.not_le.mpr h, _, rfl, trivial⟩
  · exact Or.inl rfl

/-- Among files below a root, those that are chosen are selected. -/
theorem gives_selected (w : Workspace) (root : Path) (s : Selection) (hs : s.effectiveInclude ≠ [])
    {candidates : List Place} (h : ∀ c ∈ candidates, ∃ bytes, IsBelow w root c (.file bytes)) :
    Gives (¬ WithinLimits w root s)
      (selected w root s.effectiveInclude s.effectiveExclude candidates)
      (.ok (candidates.filter (isChosen w root s))) := by
  induction candidates with
  | nil => exact Or.inl rfl
  | cons segments more ih =>
    obtain ⟨⟨bytes, hbelow⟩, hmore⟩ := List.forall_mem_cons.mp h
    have hrest := ih hmore
    have hlength := (gives_checkLength root segments).mono
      (q := ¬ WithinLimits w root s) fun hlong hwithin =>
        hlong (hwithin.searchable hs segments _ hbelow).1
    refine Gives.bind_ok hlength ?_
    rw [List.filter_cons, isChosen]
    cases hname : isSourceName (segments.getLast?.getD "") with
    | false => exact hrest
    | true =>
      have hsource : IsSource w root segments := isSource_iff.mpr ⟨hname, bytes, hbelow⟩
      have hleft := (gives_isLeftOut w.room.patterns segments s.effectiveExclude).mono
        (q := ¬ WithinLimits w root s) fun ⟨p, hp, hdeep⟩ hwithin => by
          rw [hwithin.excluded segments hsource p hp] at hdeep
          cases hdeep
      have hincluded := (gives_isIncluded w root segments s.effectiveInclude).mono
        (q := ¬ WithinLimits w root s) fun ⟨p, hp, hexceeds⟩ hwithin =>
          hwithin.included segments hsource p hp hexceeds
      refine Gives.bind_ok hleft ?_
      cases Path.isExcluded segments s.effectiveExclude with
      | true => exact hrest
      | false =>
        refine Gives.bind_ok hincluded (Gives.bind_ok hrest ?_)
        rw [Bool.not_false, Bool.true_and, Bool.true_and]
        exact Or.inl (by split <;> rfl)

/-! ### The files below a root -/

theorem placeLe_iff {p q : Place} : placeLe p q = true ↔ List.le p q := by
  rw [placeLe, Bool.not_eq_true', decide_eq_false_iff_not, List.le]

/-- Sorting puts entries at places that are all different in ascending order. -/
theorem pairwise_mergeSort {es : List (Place × Node)} (h : (es.map (·.1)).Nodup) :
    ((es.mergeSort fun e f => placeLe e.1 f.1).map (·.1)).Pairwise (· < ·) := by
  have htrans : ∀ e f g : Place × Node, placeLe e.1 f.1 = true → placeLe f.1 g.1 = true →
      placeLe e.1 g.1 = true := by
    intro e f g hef hfg
    exact placeLe_iff.mpr (List.le_trans (placeLe_iff.mp hef) (placeLe_iff.mp hfg))
  have htotal : ∀ e f : Place × Node, (placeLe e.1 f.1 || placeLe f.1 e.1) = true := by
    intro e f
    rw [Bool.or_eq_true, placeLe_iff, placeLe_iff]
    exact List.le_total e.1 f.1
  have hsorted := List.pairwise_map.mpr ((List.pairwise_mergeSort htrans htotal es).imp
    fun {e f} hle => placeLe_iff.mp hle)
  have hnodup := ((List.mergeSort_perm es fun e f => placeLe e.1 f.1).map (·.1)).nodup_iff.mpr h
  refine (hsorted.and hnodup).imp fun {p q} ⟨hle, hne⟩ => ?_
  by_contra hlt
  exact hne (List.le_antisymm hle hlt)

/-- What lies below a root, in the order of the places. -/
def found (w : Workspace) (root : Path) : List (Place × Node) :=
  match w.locate root with
  | .ok place => (w.tree.below place).mergeSort fun e f => placeLe e.1 f.1
  | .error _ => []

/-- The files below a root, in ascending order. -/
def files (w : Workspace) (root : Path) : List Place :=
  ((found w root).filter fun e => e.2 ≠ .dir).map (·.1)

theorem mem_found_iff {segments : Place} {n : Node} :
    (segments, n) ∈ found w root ↔ IsBelow w root segments n := by
  unfold found IsBelow
  cases w.locate root with
  | error f => simp
  | ok place => simp [FileTree.mem_below_iff]

theorem mem_files_iff {segments : Place} :
    segments ∈ files w root ↔ ∃ bytes, IsBelow w root segments (.file bytes) := by
  rw [files, List.mem_map]
  constructor
  · rintro ⟨⟨c, n⟩, he, rfl⟩
    obtain ⟨he, hfile⟩ := List.mem_filter.mp he
    cases n with
    | dir => simp at hfile
    | file bytes => exact ⟨bytes, mem_found_iff.mp he⟩
  · rintro ⟨bytes, hbelow⟩
    exact ⟨(segments, .file bytes), List.mem_filter.mpr ⟨mem_found_iff.mpr hbelow, by simp⟩, rfl⟩

theorem pairwise_found (w : Workspace) (root : Path) :
    ((found w root).map (·.1)).Pairwise (· < ·) := by
  unfold found
  split
  · next place _ => exact pairwise_mergeSort (FileTree.nodup_below w.tree place)
  · exact List.Pairwise.nil

theorem pairwise_files (w : Workspace) (root : Path) : (files w root).Pairwise (· < ·) :=
  (pairwise_found w root).sublist (List.filter_sublist.map _)

theorem gives_searchDirectory (w : Workspace) (root : Path) (segments : Place) :
    Gives (¬ (segments.length ≤ w.room.directories ∧
        (pathBelow root segments).toString.utf8ByteSize ≤ pathLimit))
      (searchDirectory w root segments) (.ok ()) := by
  unfold searchDirectory
  split
  · next h => exact Or.inr ⟨fun hfits => Nat.not_le.mpr h hfits.1, _, rfl, trivial⟩
  · exact (gives_checkLength root segments).mono fun hlong hfits => hlong hfits.2

/-- Going through entries below a root, each directory is searched on its own. -/
theorem gives_forM_search (w : Workspace) (root : Path) {es : List (Place × Node)}
    (h : ∀ e ∈ es, IsBelow w root e.1 e.2) :
    Gives (¬ IsSearchable w root)
      (es.forM fun e => if e.2 = .dir then searchDirectory w root e.1 else .ok ()) (.ok ()) := by
  induction es with
  | nil => exact Or.inl rfl
  | cons e es ih =>
    obtain ⟨hbelow, hes⟩ := List.forall_mem_cons.mp h
    refine Gives.bind_ok (a := ()) ?_ (ih hes)
    dsimp only
    split
    · next hdir =>
      refine (gives_searchDirectory w root e.1).mono fun hnot hsearchable => hnot ?_
      obtain ⟨hfits, hdepth⟩ := hsearchable e.1 e.2 hbelow
      exact ⟨hdepth hdir, hfits⟩
    · exact Or.inl rfl

theorem gives_filesBelow (w : Workspace) (root : Path) :
    Gives (w.IsOverlong root ∨ ¬ IsSearchable w root) (filesBelow w root) (.ok (files w root)) := by
  rcases hplace : w.locate root with f | place
  · rw [filesBelow, files, found, hplace]
    cases f with
    | nameTooLong => exact Or.inr ⟨.inl (Workspace.isOverlong_of_locate hplace), _, rfl, trivial⟩
    | _ => exact Or.inl rfl
  · have hfound : found w root = (w.tree.below place).mergeSort fun e f => placeLe e.1 f.1 := by
      rw [found, hplace]
    rw [filesBelow, hplace, files, hfound]
    refine Gives.bind_ok ((gives_forM_search w root fun e he => ?_).mono Or.inr) (Or.inl rfl)
    exact mem_found_iff.mp (hfound ▸ he)

/-! ### The listed files -/

/-- The first listed name that leads to no file. -/
def firstAbsent? (w : Workspace) (root : Path) (names : List LooseText) : Option LooseText :=
  names.find? (!leadsToFile w root ·)

theorem firstAbsent?_eq_some_iff {names : List LooseText} {name : LooseText} :
    firstAbsent? w root names = some name ↔ IsFirstAbsent w root names name := by
  rw [firstAbsent?, List.find?_eq_some_iff_append, IsFirstAbsent]
  simp only [Bool.not_eq_true', Bool.not_not]
  constructor
  · rintro ⟨hname, before, after, hnames, hbefore⟩
    exact ⟨before, after, hnames, hbefore, hname⟩
  · rintro ⟨before, after, hnames, hbefore, hname⟩
    exact ⟨hname, before, after, hnames, hbefore⟩

theorem firstAbsent?_eq_none_iff {names : List LooseText} :
    firstAbsent? w root names = none ↔ ∀ n ∈ names, leadsToFile w root n = true := by
  rw [firstAbsent?, List.find?_eq_none]
  simp only [Bool.not_eq_true', Bool.not_eq_false]

theorem firstAbsent?_cons (name : LooseText) (names : List LooseText) :
    firstAbsent? w root (name :: names) =
      if leadsToFile w root name then firstAbsent? w root names else some name := by
  rw [firstAbsent?, List.find?_cons]
  cases leadsToFile w root name with
  | true => rfl
  | false => rfl

/-- What a listed name comes to. -/
def listing (w : Workspace) (root : Path) (name : LooseText) : Except LintError Path :=
  if leadsToFile w root name then .ok (root.child name.escaped)
  else .error (.project (.listedAbsent name.escaped root))

theorem gives_listedFile (w : Workspace) (root : Path) (name : LooseText) :
    Gives (w.IsOverlong (root.child name.escaped)) (listedFile w root name)
      (listing w root name) := by
  refine Gives.bind_ok (gives_namedNode? w root name) (Or.inl ?_)
  unfold listing leadsToFile
  rcases foundAt? w root name with - | bytes | -
  · rfl
  · rfl
  · rfl

theorem gives_mapM_listedFile (w : Workspace) (root : Path) (names : List LooseText) :
    Gives (∃ name ∈ names, w.IsOverlong (root.child name.escaped))
      (names.mapM (listedFile w root)) (names.mapM (listing w root)) := by
  induction names with
  | nil => exact Or.inl rfl
  | cons name names ih =>
    rw [List.mapM_cons, List.mapM_cons]
    refine Gives.bind ((gives_listedFile w root name).mono fun h =>
      ⟨name, List.mem_cons_self, h⟩) fun p _ => ?_
    refine Gives.bind (ih.mono fun ⟨n, hn, h⟩ => ⟨n, List.mem_cons_of_mem name hn, h⟩)
      fun ps _ => ?_
    exact Or.inl rfl

/-- The listed files are found one after the other, up to the first that is not there. -/
theorem mapM_listing (w : Workspace) (root : Path) (names : List LooseText) :
    names.mapM (listing w root) =
      match firstAbsent? w root names with
      | some name => .error (.project (.listedAbsent name.escaped root))
      | none => .ok (names.map fun name => root.child name.escaped) := by
  induction names with
  | nil => rfl
  | cons name names ih =>
    rw [List.mapM_cons, ih, listing, firstAbsent?_cons]
    cases leadsToFile w root name with
    | false => rfl
    | true =>
      rw [if_pos rfl, if_pos rfl]
      cases firstAbsent? w root names with
      | none => rfl
      | some absent => rfl

/-! ### The whole collection -/

/-- The files that are chosen beside the listed ones. -/
def chosen (w : Workspace) (root : Path) (s : Selection) (listed : List Path) : List Place :=
  ((files w root).filter fun segments => !listed.contains (pathBelow root segments)).filter
    (isChosen w root s)

theorem gives_collect (w : Workspace) (root : Path) (s : Selection) :
    Gives (¬ WithinLimits w root s) (collect w root s)
      (s.listed.mapM (listing w root) >>= fun listed =>
        .ok (listed.eraseDups ++ (chosen w root s listed.eraseDups).map (pathBelow root))) := by
  refine Gives.bind ((gives_mapM_listedFile w root s.listed).mono ?_) fun listed _ => ?_
  · rintro ⟨name, hname, hlong⟩ hwithin
    exact hwithin.notOverlong.2 name hname hlong
  dsimp only
  split
  -- without include patterns nothing is chosen
  · next hempty =>
    have hnone : chosen w root s listed.eraseDups = [] := by
      refine List.filter_eq_nil_iff.mpr fun segments _ => ?_
      rw [isChosen, List.isEmpty_iff.mp hempty, List.any_nil, Bool.and_false, Bool.and_false]
      exact Bool.false_ne_true
    rw [hnone]
    exact Or.inl (congrArg Except.ok (List.append_nil _).symm)
  · next hempty =>
    have hsome : s.effectiveInclude ≠ [] := fun hnil => hempty (List.isEmpty_iff.mpr hnil)
    refine Gives.bind_ok ((gives_filesBelow w root).mono fun h hwithin =>
      h.elim hwithin.notOverlong.1 fun hnot => hnot (hwithin.searchable hsome)) ?_
    have hfiles : ∀ c ∈ (files w root).filter fun segments =>
        !listed.eraseDups.contains (pathBelow root segments),
        ∃ bytes, IsBelow w root c (.file bytes) :=
      fun c h => mem_files_iff.mp (List.mem_of_mem_filter h)
    refine Gives.bind_ok (gives_selected w root s hsome hfiles) ?_
    exact Or.inl rfl

theorem isSelected_iff {segments : Place} (h : segments ≠ []) :
    (s.effectiveInclude.any fun p => Path.matchesGlob segments (meant w root p)) = true ↔
      IsSelected w root s segments := by
  obtain ⟨files, includes, excludes⟩ := s
  unfold IsSelected Selection.effectiveInclude
  cases includes with
  | some patterns => exact List.any_eq_true
  | none =>
    cases files with
    | some names => simp
    | none =>
      have heverything : meant w root (LooseText.ofString "**/*") = LooseText.ofString "**/*" :=
        if_neg fun hwild => absurd hwild.1 (by decide)
      simp [defaultInclude, heverything, Path.matchesGlob_everything h]

theorem mem_chosen_iff {listed : List Path} {segments : Place} :
    segments ∈ chosen w root s listed ↔ IsSource w root segments ∧
      pathBelow root segments ∉ listed ∧
      Path.isExcluded segments (s.excludes.getD defaultExclude) = false ∧
      IsSelected w root s segments := by
  rw [chosen, List.mem_filter, List.mem_filter, mem_files_iff, isChosen, Bool.and_eq_true,
    Bool.and_eq_true, Bool.not_eq_true', Bool.not_eq_true', ← Bool.not_eq_true,
    List.contains_iff_mem]
  constructor
  · rintro ⟨⟨hbelow, hlisted⟩, hname, hexcluded, hselected⟩
    have hsource := isSource_iff.mpr ⟨hname, hbelow⟩
    exact ⟨hsource, hlisted, hexcluded, (isSelected_iff hsource.1).mp hselected⟩
  · rintro ⟨hsource, hlisted, hexcluded, hselected⟩
    obtain ⟨hname, hbelow⟩ := isSource_iff.mp hsource
    exact ⟨⟨hbelow, hlisted⟩, hname, hexcluded, (isSelected_iff hsource.1).mpr hselected⟩

/-- The chosen files are in ascending order, as all files are. -/
theorem pairwise_chosen (w : Workspace) (root : Path) (s : Selection) (listed : List Path) :
    ((chosen w root s listed).map fun c => (pathBelow root c).segments).Pairwise (· < ·) := by
  rw [List.pairwise_map]
  have hsorted := (pairwise_files w root).filter fun segments =>
    !listed.contains (pathBelow root segments)
  exact (hsorted.filter (isChosen w root s)).imp List.append_left_lt

theorem isCollection_of_eq {r : Except LintError (List Path)}
    (h : r = s.listed.mapM (listing w root) >>= fun listed =>
      .ok (listed.eraseDups ++ (chosen w root s listed.eraseDups).map (pathBelow root))) :
    IsCollection w root s r := by
  rw [mapM_listing] at h
  cases hfirst : firstAbsent? w root s.listed with
  | some name =>
    have hname := firstAbsent?_eq_some_iff.mp hfirst
    rw [hfirst] at h
    refine ⟨fun e => ?_, fun hall => ?_⟩
    · rw [h]
      constructor
      · rintro ⟨⟩
        exact ⟨name, hname, rfl⟩
      · rintro ⟨name', hname', rfl⟩
        obtain rfl := Option.some.inj (hfirst.symm.trans (firstAbsent?_eq_some_iff.mpr hname'))
        rfl
    · rw [firstAbsent?_eq_none_iff.mpr hall] at hfirst
      cases hfirst
  | none =>
    rw [hfirst] at h
    refine ⟨fun e => ?_, fun _ => ⟨_, h, pairwise_chosen w root s _, fun _ => mem_chosen_iff⟩⟩
    rw [h]
    constructor
    · nofun
    · rintro ⟨name, hname, -⟩
      rw [firstAbsent?_eq_some_iff.mpr hname] at hfirst
      cases hfirst

/-! ### The order of entries -/

section

variable {t : FileTree} (h : ∀ place, t.node? place = w.tree.node? place)

include h

theorem isBelow_congr (root : Path) (segments : Place) (n : Node) :
    IsBelow { w with tree := t } root segments n ↔ IsBelow w root segments n := by
  simp only [IsBelow, Workspace.locate_congr h, h]

theorem found_congr (root : Path) : found { w with tree := t } root = found w root := by
  have hpairwise := fun w => List.pairwise_map.mp (pairwise_found w root)
  have hnodup : ∀ w, (found w root).Nodup := fun w =>
    List.Nodup.of_map Prod.fst ((pairwise_found w root).imp fun {p q} (hlt : p < q) (heq : p = q) =>
      List.lt_irrefl q (heq ▸ hlt))
  refine List.Perm.eq_of_pairwise (fun e f _ _ hef hfe => absurd hfe (List.lt_asymm hef))
    (hpairwise _) (hpairwise _) ?_
  refine (List.perm_ext_iff_of_nodup (hnodup _) (hnodup _)).mpr fun e => ?_
  rw [mem_found_iff, mem_found_iff, isBelow_congr h]

theorem filesBelow_congr (root : Path) :
    filesBelow { w with tree := t } root = filesBelow w root := by
  have hok : ∀ {w : Workspace} {place : Place}, w.locate root = .ok place →
      filesBelow w root = (do
        (found w root).forM fun e => if e.2 = .dir then searchDirectory w root e.1 else .ok ()
        return files w root) := by
    intro w place hplace
    rw [filesBelow, files, found, hplace]
  have hlocate := Workspace.locate_congr h root
  rcases hplace : w.locate root with f | place
  · rw [filesBelow, filesBelow, hlocate, hplace]
    cases f <;> rfl
  · rw [hok hplace, hok (hlocate.trans hplace), files, files, found_congr h]
    rfl

theorem namedNode?_congr (root : Path) (name : LooseText) :
    namedNode? { w with tree := t } root name = namedNode? w root name := by
  unfold namedNode?
  simp only [Workspace.node?_congr h]

theorem isIncluded_congr (root : Path) (segments : Place) (patterns : List LooseText) :
    isIncluded { w with tree := t } root segments patterns =
      isIncluded w root segments patterns := by
  induction patterns with
  | nil => rfl
  | cons p ps ih => rw [isIncluded, isIncluded, isIncludedBy, isIncludedBy, namedNode?_congr h, ih]

theorem selected_congr (root : Path) (includes excludes : List LooseText) (places : List Place) :
    selected { w with tree := t } root includes excludes places =
      selected w root includes excludes places := by
  induction places with
  | nil => rfl
  | cons segments more ih => simp only [selected, isIncluded_congr h, ih]

/-- What is collected does not depend on the order in which entries were made. -/
theorem collect_congr (root : Path) (s : Selection) :
    collect { w with tree := t } root s = collect w root s := by
  have hlisted : listedFile { w with tree := t } root = listedFile w root := by
    funext name
    rw [listedFile, listedFile, namedNode?_congr h]
  unfold collect
  simp only [hlisted, filesBelow_congr h, selected_congr h]

end

/-! ### What the collection promises -/

/-- **The collection of files is refused for a listed name that leads nowhere, and is otherwise
exact**: unless it ends at a limit, which it does only where one is exceeded, it is refused for the
first such name, and collects the listed files and those that are selected, in order.  Trees that
hold the same files give the same collection. -/
theorem collect_isCollection (w : Workspace) (root : Path) (s : Selection) :
    ((∃ e, collect w root s = .error e ∧ IsLimitError e) ∧ ¬ WithinLimits w root s ∨
      IsCollection w root s (collect w root s)) ∧
    ∀ t : FileTree, (∀ place, t.node? place = w.tree.node? place) →
      collect { w with tree := t } root s = collect w root s := by
  refine ⟨?_, fun t h => collect_congr h root s⟩
  rcases gives_collect w root s with h | ⟨hlimits, he⟩
  · exact Or.inr (isCollection_of_eq h)
  · exact Or.inl ⟨he, hlimits⟩

/-- A collection that includes anything has searched all directories. -/
theorem searched_of_collect {ps : List Path} (h : collect w root s = .ok ps)
    (hincludes : s.effectiveInclude ≠ []) {segments : Place}
    (hbelow : IsBelow w root segments .dir) : searchDirectory w root segments = .ok () := by
  obtain ⟨listed, -, h⟩ := Except.bind_eq_ok_iff.mp h
  dsimp only at h
  split at h
  · next hempty => exact absurd (List.isEmpty_iff.mp hempty) hincludes
  · obtain ⟨places, hplaces, -⟩ := Except.bind_eq_ok_iff.mp h
    obtain ⟨-, place, hplace, -⟩ := id hbelow
    have hfound : (segments, .dir) ∈ found w root := mem_found_iff.mpr hbelow
    rw [found, hplace] at hfound
    rw [filesBelow, hplace] at hplaces
    obtain ⟨_, hsearch, -⟩ := Except.bind_eq_ok_iff.mp hplaces
    have hdirectory := Except.forM_eq_ok_iff.mp hsearch _ hfound
    rwa [if_pos rfl] at hdirectory

/-- A root with one source file. -/
def sampleRoot : Workspace where
  tree := FileTree.empty.writeFile ["T", "p", "a.ts"] []
  cwd := ["T"]
  environment := []

/-- A name that is too long for a file. -/
def overlongName : String :=
  String.ofList (List.replicate 256 'n')

/-- A selection that lists it. -/
def overlongSelection : Selection :=
  ⟨some [LooseText.ofString overlongName], none, none⟩

/-- A selection with a pattern of four hundred segments that match any number of names. -/
def nestedSelection : Selection :=
  ⟨none, some [(List.replicate 399 (LooseText.ofString "**/")).flatten ++ LooseText.ofString "**"],
    none⟩

theorem node?_overlongName : sampleRoot.node? ((Path.ofString "/T/p").child overlongName) =
    .error .nameTooLong := by
  have hletters : ∀ c, c ≠ 'n' → c ∉ overlongName.toList := by
    intro c hc hmem
    have hlist : overlongName.toList = List.replicate 256 'n' := String.toList_ofList
    rw [hlist, List.mem_replicate] at hmem
    exact hc hmem.2
  have hlocate : sampleRoot.locate (.ofString "/T/p") = .ok ["T", "p"] :=
    Except.toOption_eq_some_iff.mp (by decide +kernel)
  have hname : Path.IsSegment overlongName := ⟨by decide +kernel, hletters '/' (by decide)⟩
  have hdots : overlongName ≠ ".." := by decide +kernel
  have hsize : segmentLimit < overlongName.utf8ByteSize := by decide +kernel
  have hlong := Workspace.locate_child_of_overlong hlocate (by decide +kernel) hname hdots
    (hletters '\x00' (by decide)) hsize
  rw [Workspace.node?, hlong]

/-- Directories in each other, so many of them. -/
def nestedDirectories (depth : Nat) : Table Place Node :=
  (List.range depth).map fun n => (List.replicate (n + 1) "d", .dir)

theorem nodup_nestedDirectories (depth : Nat) : (nestedDirectories depth).keys.Nodup := by
  rw [nestedDirectories, Table.keys, List.map_map]
  refine List.nodup_range.map fun m n h => ?_
  simpa using congrArg List.length h

theorem get?_nestedDirectories {depth n : Nat} (h : n < depth) :
    (nestedDirectories depth).get? (List.replicate (n + 1) "d") = some .dir := by
  refine (Table.get?_eq_some_iff_mem (nodup_nestedDirectories depth)).mpr ?_
  exact List.mem_map.mpr ⟨n, List.mem_range.mpr h, rfl⟩

/-- A root with so many directories in each other. -/
def deepRoot (depth : Nat) : Workspace where
  tree := {
    entries := nestedDirectories depth
    nodup := nodup_nestedDirectories depth
    closed := by
      intro p s h
      obtain ⟨e, he, hp⟩ := List.mem_map.mp h
      obtain ⟨n, hn, rfl⟩ := List.mem_map.mp he
      dsimp only at hp
      rw [List.replicate_succ'] at hp
      obtain ⟨rfl, -⟩ := List.append_inj' hp rfl
      cases n with
      | zero => exact .inl rfl
      | succ n => exact .inr (get?_nestedDirectories (Nat.lt_of_succ_lt (List.mem_range.mp hn))) }
  cwd := []
  environment := []

theorem isBelow_deepRoot {depth n : Nat} (h : n < depth) :
    IsBelow (deepRoot depth) (.ofString "/") (List.replicate (n + 1) "d") .dir :=
  ⟨List.cons_ne_nil _ _, [], rfl, get?_nestedDirectories h⟩

/-- At a limit, a name that leads nowhere is not what is complained about, and a collection that is
not refused gives no list, neither for a pattern that is nested too deep nor, without any pattern,
for directories that are. -/
theorem not_all_collected :
    (¬ ∀ (w : Workspace) (root : Path) (s : Selection),
      (∃ name, IsFirstAbsent w root s.listed name) →
        ∃ fault, collect w root s = .error (.project fault)) ∧
    (¬ ∀ (w : Workspace) (root : Path) (s : Selection),
      (∀ name ∈ s.listed, leadsToFile w root name = true) → ∃ ps, collect w root s = .ok ps) ∧
    ¬ ∀ (w : Workspace) (root : Path), ∃ ps, collect w root ⟨none, none, none⟩ = .ok ps := by
  refine ⟨fun hall => ?_, fun hall => ?_, fun hall => ?_⟩
  · have habsent : leadsToFile sampleRoot (.ofString "/T/p") (.ofString overlongName) = false := by
      rw [leadsToFile, foundAt?, LooseText.toString?_ofString, Option.bind_some,
        node?_overlongName]
      rfl
    obtain ⟨fault, hfault⟩ := hall sampleRoot (.ofString "/T/p") overlongSelection
      ⟨_, [], [], rfl, List.forall_mem_nil _, habsent⟩
    have hnamed : namedNode? sampleRoot (.ofString "/T/p") (.ofString overlongName) =
        .error (.access ((Path.ofString "/T/p").child overlongName) .nameTooLong) := by
      rw [namedNode?, LooseText.toString?_ofString, LooseText.escaped_ofString]
      show LintError.atPath _ (sampleRoot.node? ((Path.ofString "/T/p").child overlongName)) = _
      rw [node?_overlongName]
      rfl
    have hcollect : collect sampleRoot (.ofString "/T/p") overlongSelection =
        .error (.access ((Path.ofString "/T/p").child overlongName) .nameTooLong) := by
      show [LooseText.ofString overlongName].mapM (listedFile sampleRoot (.ofString "/T/p")) >>=
        _ = _
      rw [List.mapM_cons, listedFile, hnamed]
      rfl
    rw [hcollect] at hfault
    cases hfault
  · obtain ⟨ps, hps⟩ := hall sampleRoot (.ofString "/T/p") nestedSelection (List.forall_mem_nil _)
    have hnone : (collect sampleRoot (.ofString "/T/p") nestedSelection).toOption = none := by
      decide +kernel
    rw [hps] at hnone
    cases hnone
  · obtain ⟨ps, hps⟩ := hall (deepRoot (usualDepth + 1)) (.ofString "/")
    have hsearch := searched_of_collect hps (by decide) (isBelow_deepRoot (Nat.lt_succ_self _))
    have hdeep : (deepRoot (usualDepth + 1)).room.directories <
        (List.replicate (usualDepth + 1) "d").length :=
      Nat.lt_of_lt_of_eq (Nat.lt_succ_self usualDepth) List.length_replicate.symm
    rw [searchDirectory, if_pos hdeep] at hsearch
    cases hsearch

end Project

end DeclLint
