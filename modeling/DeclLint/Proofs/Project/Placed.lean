/-
DeclLint/Proofs/Project/Placed.lean

One project at two places.  Where the same lies below two roots, a path that goes on
from one of them by names that do not lead back leads to the same as the path that
goes on from the other by these names (`lookup_sameBelow`), as far as neither is too
long.  Step by step, whatever is read of a project is then the same: what its
tsconfig.json selects, the source files below the root, which of them the patterns
select, and the texts of the files.

Names that lead out of the project are of no account in patterns: neither a root nor a
double dot matches the name of a file (`matchesGlob_of_leadsOut`).  Where they are
listed, they lead to files of someone else, so that is excluded.
-/
import DeclLint.Proofs.Json.Limits
import DeclLint.Proofs.Path.Dependency
import DeclLint.Proofs.Project.Distinct
import DeclLint.Proofs.Project.Inclusion
import DeclLint.Proofs.Trace
import DeclLint.Project.Program

namespace DeclLint

/-! ### Trees -/

namespace FileTree

variable {t t' : FileTree} {p p' here : Place}

/-- The same lies below two places. -/
def SameBelow (t : FileTree) (p : Place) (t' : FileTree) (p' : Place) : Prop :=
  ∀ names, t.node? (p ++ names) = t'.node? (p' ++ names)

/-- The same lies below two places if the same is listed there. -/
theorem sameBelow_of_below (hplace : t.node? p = t'.node? p') (h : t.below p = t'.below p') :
    t.SameBelow p t' p' := by
  intro names
  by_cases hnames : names = []
  · rw [hnames, List.append_nil, List.append_nil]
    exact hplace
  · refine Option.ext fun n => ?_
    have hlisted : (names, n) ∈ t.below p ↔ (names, n) ∈ t'.below p' := by rw [h]
    rw [mem_below_iff, mem_below_iff] at hlisted
    simpa [hnames] using hlisted

/-- A double dot that is left on a stack stays there. -/
theorem dots_mem_foldl_push {rooted : Bool} {segments stack : List String} (h : ".." ∈ stack) :
    ".." ∈ segments.foldl (Path.push rooted) stack := by
  induction segments generalizing stack with
  | nil => exact h
  | cons s rest ih =>
    refine ih ?_
    rcases Path.push_cases rooted stack s with
      ⟨-, hpush⟩ | ⟨-, t, more, ht, hstack, hpush⟩ | ⟨-, -, hstack, -⟩ | ⟨-, -, -, hpush⟩
    · rw [hpush]
      exact List.mem_cons_of_mem s h
    · rw [hpush]
      rw [hstack] at h
      exact (List.mem_cons.mp h).resolve_left (Ne.symm ht)
    · rw [hstack] at h
      cases h
    · rw [hpush]
      exact List.mem_cons_self

/-- Names that do not lead back are followed alike from places below which the same lies. -/
theorem walk_sameBelow (h : t.SameBelow p t' p') {segments : List String} (hhere : ".." ∉ here)
    (hstay : ".." ∉ segments.foldl (Path.push false) here.reverse) :
    (∃ there, t.walk (p ++ here) segments = .ok (p ++ there) ∧
      t'.walk (p' ++ here) segments = .ok (p' ++ there)) ∨
    ∃ f, t.walk (p ++ here) segments = .error f ∧ t'.walk (p' ++ here) segments = .error f := by
  induction segments generalizing here with
  | nil => exact Or.inl ⟨here, rfl, rfl⟩
  | cons s rest ih =>
    rw [List.foldl_cons] at hstay
    rw [walk, walk, h here]
    rcases t'.node? (p' ++ here) with - | bytes | -
    · exact Or.inr ⟨_, rfl, rfl⟩
    · exact Or.inr ⟨_, rfl, rfl⟩
    · dsimp only
      by_cases hs : s = ".."
      -- there is a name to be left, else the double dot would stay
      · rw [if_pos hs, if_pos hs]
        rcases List.eq_nil_or_concat' here with rfl | ⟨above, last, rfl⟩
        · rw [hs] at hstay
          exact absurd (dots_mem_foldl_push List.mem_cons_self) hstay
        · have hlast : last ≠ ".." := by
            rintro rfl
            exact hhere (by simp)
          have hup : Path.push false (above ++ [last]).reverse s = above.reverse := by
            rw [hs]
            simp [Path.push, hlast]
          rw [hup] at hstay
          rw [← List.append_assoc, ← List.append_assoc, List.dropLast_concat,
            List.dropLast_concat]
          exact ih (fun hmem => hhere (List.mem_append_left _ hmem)) hstay
      · rw [if_neg hs, if_neg hs]
        split
        · exact Or.inr ⟨_, rfl, rfl⟩
        · rw [List.append_assoc, List.append_assoc, h (here ++ [s])]
          split
          · refine ih (by simp [hhere, Ne.symm hs]) ?_
            rwa [Path.push_of_ne _ _ hs, ← List.reverse_concat'] at hstay
          · exact Or.inr ⟨_, rfl, rfl⟩

end FileTree

namespace Project

open DeclLint.Path (GlobSegment globMatches segmentMatches)

variable {w w' : Workspace} {root root' : Path} {names segments : List String}

/-! ### Looking up -/

/-- The same lies below two roots. -/
def SameBelow (w : Workspace) (root : Path) (w' : Workspace) (root' : Path) : Prop :=
  ∃ place place', w.locate root = .ok place ∧ w'.locate root' = .ok place' ∧
    w.tree.SameBelow place w'.tree place'

theorem sameBelow_of_check (place place' : Place) (h : (w.locate root).toOption = some place ∧
    (w'.locate root').toOption = some place' ∧ w.tree.node? place = w'.tree.node? place' ∧
    w.tree.below place = w'.tree.below place') : SameBelow w root w' root' :=
  ⟨place, place', Except.toOption_eq_some_iff.mp h.1, Except.toOption_eq_some_iff.mp h.2.1,
    FileTree.sameBelow_of_below h.2.2.1 h.2.2.2⟩

theorem locate_of_hasNul (root : Path) {s : String} (hs : s ∈ names) (hnul : '\x00' ∈ s.toList) :
    w.locate (pathBelow root names) = .error .nulCharacter := by
  refine if_pos (List.any_eq_true.mpr ⟨s, List.mem_append_right _ hs, ?_⟩)
  exact List.contains_iff_mem.mpr hnul

/-- **What lies at the same names is the same**, unless one of the paths is too long. -/
theorem lookup_sameBelow (h : SameBelow w root w' root')
    (hstay : ".." ∉ Path.cancelDots false names) :
    (w.locate (pathBelow root names) = .error .nameTooLong ∨
      w'.locate (pathBelow root' names) = .error .nameTooLong) ∨
    w.node? (pathBelow root names) = w'.node? (pathBelow root' names) ∧
      w.readBytes (pathBelow root names) = w'.readBytes (pathBelow root' names) := by
  obtain ⟨place, place', hplace, hplace', hsame⟩ := h
  by_cases hnul : ∀ s ∈ names, '\x00' ∉ s.toList
  · have hlocate := Workspace.locate_append hplace hnul
    have hlocate' := Workspace.locate_append hplace' hnul
    rw [← pathBelow] at hlocate hlocate'
    split at hlocate
    · exact Or.inl (Or.inl hlocate)
    split at hlocate'
    · exact Or.inl (Or.inr hlocate')
    have hwalk := FileTree.walk_sameBelow hsame (List.not_mem_nil (a := ".."))
      (mt List.mem_reverse.mpr hstay)
    rw [List.append_nil, List.append_nil] at hwalk
    refine Or.inr ?_
    unfold Workspace.node? Workspace.readBytes
    rw [hlocate, hlocate']
    rcases hwalk with ⟨there, hwalk, hwalk'⟩ | ⟨f, hwalk, hwalk'⟩
    · rw [hwalk, hwalk']
      dsimp only
      rw [hsame there]
      exact ⟨rfl, rfl⟩
    · rw [hwalk, hwalk']
      cases f <;> exact ⟨rfl, rfl⟩
  · simp only [not_forall, not_not] at hnul
    obtain ⟨s, hs, hmem⟩ := hnul
    refine Or.inr ?_
    unfold Workspace.node? Workspace.readBytes
    rw [locate_of_hasNul root hs hmem, locate_of_hasNul root' hs hmem]
    exact ⟨rfl, rfl⟩

theorem node?_sameBelow (h : SameBelow w root w' root')
    (hstay : ".." ∉ Path.cancelDots false names) {n n' : Option Node}
    (hn : w.node? (pathBelow root names) = .ok n)
    (hn' : w'.node? (pathBelow root' names) = .ok n') : n = n' := by
  rcases lookup_sameBelow h hstay with (hlong | hlong) | ⟨hnode, -⟩
  · rw [Workspace.node?, hlong] at hn
    cases hn
  · rw [Workspace.node?, hlong] at hn'
    cases hn'
  · rw [hn, hn'] at hnode
    exact Except.ok.inj hnode

/-! ### Names that lead out -/

/-- The name leads out of a project: it starts at a root, or its double dots do not cancel among
its names. -/
def LeadsOut (text : String) : Prop :=
  (Path.ofString text).isAbsolute = true ∨
    ".." ∈ Path.cancelDots false (Path.ofString text).segments

theorem not_globMatches_of_dots {ps : List (GlobSegment LooseText)}
    (hps : .one (LooseText.ofString "..") ∈ ps) (hdots : ".." ∉ segments) :
    globMatches segmentMatches ps segments = false := by
  rw [← Bool.not_eq_true]
  intro h
  obtain ⟨before, after, rfl⟩ := List.append_of_mem hps
  obtain ⟨front, back, rfl, -, hback⟩ := (Path.globMatches_append _ _ _).mp h
  obtain ⟨piece, rest, rfl, htakes, -⟩ := (Path.globMatches_cons _ _ _).mp hback
  cases htakes with
  | @one _ s hs =>
    obtain rfl := (Path.segmentMatches_plain (by simp [Path.IsWildcard]) s).mp hs
    exact hdots (by simp)

theorem not_matchesGlob_of_isRooted {pattern : LooseText}
    (h : Path.IsRooted (Path.slashed pattern)) (hnames : ∀ s ∈ segments, '/' ∉ s.toList) :
    Path.matchesGlob segments pattern = false := by
  obtain ⟨root, hroot, hglob⟩ := Path.globOf_of_isRooted h
  rw [Path.matchesGlob, hglob]
  exact Path.not_globMatches_of_isRooted hroot _ hnames

/-- What lies below a rooted pattern is rooted. -/
theorem isRooted_everythingBelow {pattern : LooseText} (h : Path.IsRooted (Path.slashed pattern)) :
    Path.IsRooted (Path.slashed (everythingBelow pattern)) := by
  obtain ⟨trimmed, n, hbelow, -, hiff⟩ := exists_trimmed pattern
  have htrimmed : trimmed = [] ∨ Path.IsRooted (Path.slashed trimmed) := by
    by_contra hcontra
    rw [not_or] at hcontra
    exact (hiff.mpr hcontra).2 h
  rw [hbelow]
  rcases htrimmed with rfl | htrimmed
  · rfl
  · rcases trimmed with - | ⟨p, ps⟩
    · rfl
    · exact htrimmed

/-- The segments of a text stand in the pattern that it is. -/
theorem dots_mem_globOf {text : String}
    (hrelative : ¬ Path.IsRooted (Path.slashed (LooseText.ofString text)))
    (h : ".." ∈ (Path.ofString text).segments) :
    .one (LooseText.ofString "..") ∈ Path.globOf (LooseText.ofString text) := by
  have hslashed : Path.slashed (LooseText.ofString text) =
      LooseText.ofString (String.ofList (Path.forwardSlashes text.toList)) := by
    rw [Path.slashed, LooseText.ofString, LooseText.ofString, String.toList_ofList,
      Path.forwardSlashes, List.map_map, List.map_map]
    refine List.map_congr_left fun c _ => ?_
    by_cases hc : c = '\\' <;> simp [hc]
  have hnamed : ".." ∈ Path.named text := by
    rw [← Path.flatMap_named_ofString]
    exact List.mem_flatMap.mpr ⟨"..", h, by decide +kernel⟩
  rw [Path.globOf_of_not_isRooted hrelative, hslashed, Path.namedIn_ofString, String.toList_ofList,
    ← Path.named_eq_segmentsOf, List.map_map]
  exact List.mem_map.mpr ⟨"..", hnamed, by decide⟩

theorem isRooted_of_isAbsolute {text : String} (h : (Path.ofString text).isAbsolute = true) :
    Path.IsRooted (Path.slashed (LooseText.ofString text)) := by
  rcases hchars : text.toList with - | ⟨c, cs⟩
  · rw [Path.ofString, hchars] at h
    cases h
  · by_cases hc : c = '/'
    · simp [Path.IsRooted, Path.slashed, LooseText.ofString, hchars, hc]
    · have hroot : Path.rootOf (c :: cs) = .relative := by simp [Path.rootOf, hc]
      rw [Path.ofString, hchars, hroot] at h
      cases h

/-- A pattern that leads out of a project selects no file of it, nor does what lies below it. -/
theorem not_matchesGlob_of_leadsOut {text : String} (h : LeadsOut text)
    (hnames : ∀ s ∈ segments, IsProperName s) :
    Path.matchesGlob segments (LooseText.ofString text) = false ∧
      Path.matchesGlob segments (everythingBelow (LooseText.ofString text)) = false := by
  have hslash : ∀ s ∈ segments, '/' ∉ s.toList := fun s hs => (hnames s hs).1.2
  have hdots : ".." ∉ segments := fun hmem => (hnames _ hmem).2.1 rfl
  by_cases hrooted : Path.IsRooted (Path.slashed (LooseText.ofString text))
  · exact ⟨not_matchesGlob_of_isRooted hrooted hslash,
      not_matchesGlob_of_isRooted (isRooted_everythingBelow hrooted) hslash⟩
  · have hmem : ".." ∈ (Path.ofString text).segments := by
      have hstay := h.resolve_left (mt isRooted_of_isAbsolute hrooted)
      by_contra hnone
      rw [← List.nil_append (Path.ofString text).segments, Path.cancelDots_append hnone] at hstay
      exact hnone hstay
    have hglob := dots_mem_globOf hrooted hmem
    have hne : LooseText.ofString text ≠ [] := by
      intro hnil
      rw [hnil] at hglob
      cases hglob
    rw [Path.matchesGlob, Path.matchesGlob, globOf_everythingBelow hne hrooted]
    exact ⟨not_globMatches_of_dots hglob hdots,
      not_globMatches_of_dots (List.mem_append_left _ hglob) hdots⟩

/-! ### What is selected -/

theorem namedNode?_sameBelow (h : SameBelow w root w' root') {name : LooseText}
    (hname : ∀ text, name = LooseText.ofString text → ¬ LeadsOut text) {n n' : Option Node}
    (hn : namedNode? w root name = .ok n) (hn' : namedNode? w' root' name = .ok n') : n = n' := by
  unfold namedNode? at hn hn'
  cases htext : name.toString? with
  | some text =>
    obtain rfl := LooseText.eq_ofString htext
    obtain ⟨hrelative, hstay⟩ := not_or.mp (hname text rfl)
    rw [Bool.not_eq_true] at hrelative
    rw [htext, LooseText.escaped_ofString] at hn hn'
    have hn := Except.mapError_eq_ok_iff.mp hn
    have hn' := Except.mapError_eq_ok_iff.mp hn'
    rw [Path.child, Path.join_relative hrelative] at hn hn'
    exact node?_sameBelow h hstay hn hn'
  -- a name with a lone surrogate leads nowhere
  | none =>
    rw [htext] at hn hn'
    dsimp only at hn hn'
    split at hn
    · rw [if_pos ‹_›] at hn'
      obtain ⟨m, -, rfl⟩ := Except.map_eq_ok_iff.mp (Except.mapError_eq_ok_iff.mp hn)
      obtain ⟨m', -, rfl⟩ := Except.map_eq_ok_iff.mp (Except.mapError_eq_ok_iff.mp hn')
      rfl
    · rw [if_neg ‹_›] at hn'
      exact Except.ok.inj (hn.symm.trans hn')

theorem eq_of_isMatched {room : Nat} {pattern : LooseText} {b : Bool}
    (h : isMatched room segments pattern = .ok b) : b = Path.matchesGlob segments pattern :=
  (gives_isMatched room segments pattern).eq_of_ok h

theorem exists_named_of_isIncludedBy {pattern : LooseText} {b : Bool}
    (h : isIncludedBy w root segments pattern = .ok b) :
    ∃ n, (if hasWildcard pattern = true then .ok none else namedNode? w root pattern) = .ok n ∧
      b = Path.matchesGlob segments
        (if n = some .dir then everythingBelow pattern else pattern) := by
  rw [isIncludedBy] at h
  split at h
  · next hwild => exact ⟨none, if_pos hwild, eq_of_isMatched h⟩
  · next hwild =>
    obtain ⟨n, hn, h⟩ := Except.bind_eq_ok_iff.mp h
    exact ⟨n, (if_neg hwild).trans hn, eq_of_isMatched h⟩

theorem isIncludedBy_sameBelow (h : SameBelow w root w' root')
    (hnames : ∀ s ∈ segments, IsProperName s) {pattern : LooseText} {b b' : Bool}
    (hb : isIncludedBy w root segments pattern = .ok b)
    (hb' : isIncludedBy w' root' segments pattern = .ok b') : b = b' := by
  obtain ⟨n, hn, hb⟩ := exists_named_of_isIncludedBy hb
  obtain ⟨n', hn', hb'⟩ := exists_named_of_isIncludedBy hb'
  by_cases hout : ∃ text, pattern = LooseText.ofString text ∧ LeadsOut text
  -- whatever lies there, the pattern selects nothing
  · obtain ⟨text, rfl, hout⟩ := hout
    have hnone : ∀ m : Option Node, Path.matchesGlob segments
        (if m = some .dir then everythingBelow (LooseText.ofString text)
          else LooseText.ofString text) = false := by
      intro m
      obtain ⟨hpattern, hbelow⟩ := not_matchesGlob_of_leadsOut hout hnames
      split
      · exact hbelow
      · exact hpattern
    rw [hb, hb', hnone, hnone]
  · have hsame : n = n' := by
      split at hn
      · rw [if_pos ‹_›] at hn'
        exact Except.ok.inj (hn.symm.trans hn')
      · rw [if_neg ‹_›] at hn'
        exact namedNode?_sameBelow h (fun text htext hlead => hout ⟨text, htext, hlead⟩) hn hn'
    rw [hb, hb', hsame]

theorem isIncluded_sameBelow (h : SameBelow w root w' root')
    (hnames : ∀ s ∈ segments, IsProperName s) {patterns : List LooseText} {b b' : Bool}
    (hb : isIncluded w root segments patterns = .ok b)
    (hb' : isIncluded w' root' segments patterns = .ok b') : b = b' := by
  induction patterns with
  | nil => exact Except.ok.inj (hb.symm.trans hb')
  | cons p ps ih =>
    obtain ⟨c, hc, hb⟩ := Except.bind_eq_ok_iff.mp hb
    obtain ⟨c', hc', hb'⟩ := Except.bind_eq_ok_iff.mp hb'
    obtain rfl := isIncludedBy_sameBelow h hnames hc hc'
    cases c with
    | true => exact Except.ok.inj (hb.symm.trans hb')
    | false => exact ih hb hb'

theorem selected_sameBelow (h : SameBelow w root w' root') {includes excludes : List LooseText}
    {places chosen chosen' : List Place} (hnames : ∀ c ∈ places, ∀ s ∈ c, IsProperName s)
    (hc : selected w root includes excludes places = .ok chosen)
    (hc' : selected w' root' includes excludes places = .ok chosen') : chosen = chosen' := by
  induction places generalizing chosen chosen' with
  | nil => exact Except.ok.inj (hc.symm.trans hc')
  | cons segments more ih =>
    obtain ⟨hsegments, hmore⟩ := List.forall_mem_cons.mp hnames
    obtain ⟨-, -, hc⟩ := Except.bind_eq_ok_iff.mp hc
    obtain ⟨-, -, hc'⟩ := Except.bind_eq_ok_iff.mp hc'
    cases hname : isSourceName (segments.getLast?.getD "") with
    | false =>
      rw [hname] at hc hc'
      exact ih hmore hc hc'
    | true =>
      rw [hname] at hc hc'
      obtain ⟨out, hout, hc⟩ := Except.bind_eq_ok_iff.mp hc
      obtain ⟨out', hout', hc'⟩ := Except.bind_eq_ok_iff.mp hc'
      obtain rfl : out = out' :=
        ((gives_isLeftOut _ segments excludes).eq_of_ok hout).trans
          ((gives_isLeftOut _ segments excludes).eq_of_ok hout').symm
      cases out with
      | true => exact ih hmore hc hc'
      | false =>
        obtain ⟨b, hb, hc⟩ := Except.bind_eq_ok_iff.mp hc
        obtain ⟨b', hb', hc'⟩ := Except.bind_eq_ok_iff.mp hc'
        obtain ⟨rest, hrest, hc⟩ := Except.bind_eq_ok_iff.mp hc
        obtain ⟨rest', hrest', hc'⟩ := Except.bind_eq_ok_iff.mp hc'
        obtain rfl := isIncluded_sameBelow h hsegments hb hb'
        obtain rfl := ih hmore hrest hrest'
        exact Except.ok.inj (hc.symm.trans hc')

theorem isBelow_sameBelow (h : SameBelow w root w' root') {n : Node} :
    IsBelow w root segments n ↔ IsBelow w' root' segments n := by
  obtain ⟨place, place', hplace, hplace', hsame⟩ := h
  unfold IsBelow
  rw [hplace, hplace']
  simp [hsame segments]

theorem isSource_sameBelow (h : SameBelow w root w' root') :
    IsSource w root segments ↔ IsSource w' root' segments := by
  simp only [isSource_iff, isBelow_sameBelow h]

theorem filesFound_sameBelow (h : SameBelow w root w' root') : files w root = files w' root' := by
  have hsorted := pairwise_files w root
  have hsorted' := pairwise_files w' root'
  refine List.Perm.eq_of_pairwise (fun p q _ _ hpq hqp => absurd hqp (List.lt_asymm hpq))
    hsorted hsorted' ?_
  refine (List.perm_ext_iff_of_nodup hsorted.nodup hsorted'.nodup).mpr fun segments => ?_
  simp only [mem_files_iff, isBelow_sameBelow h]

/-! ### What is collected -/

/-- Dropping what comes twice, before or after an injective function. -/
theorem eraseDups_map {α β : Type} [BEq α] [LawfulBEq α] [BEq β] [LawfulBEq β] {f : α → β}
    (hf : Function.Injective f) (as : List α) : (as.map f).eraseDups = as.eraseDups.map f := by
  induction hn : as.length using Nat.strong_induction_on generalizing as with
  | _ n ih =>
    cases as with
    | nil => rfl
    | cons a as =>
      have hfilter : (as.map f).filter (fun b => !b == f a) =
          (as.filter fun b => !b == a).map f := by
        rw [List.filter_map]
        refine congrArg (List.map f) (List.filter_congr fun b _ => congrArg (!·) ?_)
        rw [Bool.eq_iff_iff, beq_iff_eq, beq_iff_eq, hf.eq_iff]
      have hlength : (as.filter fun b => !b == a).length < n := by
        rw [← hn, List.length_cons]
        exact Nat.lt_succ_of_le (List.length_filter_le _ _)
      rw [List.map_cons, List.eraseDups_cons, List.eraseDups_cons, hfilter, ih _ hlength _ rfl,
        List.map_cons]

theorem eq_of_listedFile {name : LooseText} {p : Path} (h : listedFile w root name = .ok p) :
    p = root.child name.escaped := by
  obtain ⟨n, -, h⟩ := Except.bind_eq_ok_iff.mp h
  split at h
  · exact (Except.ok.inj h).symm
  · cases h

/-- The segments of the names that a project lists, each once. -/
def listedPlaces (s : Selection) : List Place :=
  (s.listed.map fun name => (Path.ofString name.escaped).segments).eraseDups

theorem listedPaths_eq {s : Selection}
    (h : ∀ name ∈ s.listed, (Path.ofString name.escaped).isAbsolute = false) (root : Path) :
    listedPaths root s = (listedPlaces s).map (pathBelow root) := by
  have hinj : Function.Injective (pathBelow root) := fun _ _ => pathBelow_injective
  rw [listedPlaces, ← eraseDups_map hinj, List.map_map, listedPaths]
  refine congrArg List.eraseDups (List.map_congr_left fun name hname => ?_)
  exact Path.join_relative (h name hname)

/-- What is collected, where all listed names are relative. -/
theorem exists_selected_of_collect {s : Selection} {ps : List Path}
    (hlisted : ∀ name ∈ s.listed, (Path.ofString name.escaped).isAbsolute = false)
    (h : collect w root s = .ok ps) :
    ∃ chosen, ps = (listedPlaces s ++ chosen).map (pathBelow root) ∧
      (s.effectiveInclude.isEmpty = true ∧ chosen = [] ∨
        s.effectiveInclude.isEmpty = false ∧
        selected w root s.effectiveInclude s.effectiveExclude
          ((files w root).filter fun c => !(listedPlaces s).contains c) = .ok chosen) := by
  obtain ⟨listed, hmapM, h⟩ := Except.bind_eq_ok_iff.mp h
  have hpaths : listed = s.listed.map fun name => root.child name.escaped := by
    have heq := Except.map_eq_of_mapM (g := id) (fun _ _ => eq_of_listedFile) hmapM
    rwa [List.map_id] at heq
  have herased : listed.eraseDups = (listedPlaces s).map (pathBelow root) := by
    rw [hpaths]
    exact listedPaths_eq hlisted root
  dsimp only at h
  rw [herased] at h
  split at h
  · next hempty =>
    refine ⟨[], ?_, Or.inl ⟨hempty, rfl⟩⟩
    rw [List.append_nil]
    exact (Except.ok.inj h).symm
  · next hincludes =>
    obtain ⟨places, hplaces, hselected⟩ := Except.bind_eq_ok_iff.mp h
    obtain rfl := (gives_filesBelow w root).eq_of_ok hplaces
    obtain ⟨chosen, hchosen, hps⟩ := Except.bind_eq_ok_iff.mp hselected
    refine ⟨chosen, ?_, Or.inr ⟨Bool.not_eq_true _ ▸ hincludes, ?_⟩⟩
    · rw [List.map_append]
      exact (Except.ok.inj hps).symm
    · rw [← hchosen]
      refine congrArg _ (List.filter_congr fun c _ => congrArg (!·) ?_)
      rw [Bool.eq_iff_iff, List.contains_iff_mem, List.contains_iff_mem]
      exact (List.mem_map_of_injective fun _ _ => pathBelow_injective).symm

theorem collect_sameBelow (h : SameBelow w root w' root') {s : Selection} {ps ps' : List Path}
    (hproper : w.tree.HasProperNames)
    (hlisted : ∀ name ∈ s.listed, (Path.ofString name.escaped).isAbsolute = false)
    (hps : collect w root s = .ok ps) (hps' : collect w' root' s = .ok ps') :
    ∃ chosen, ps = (listedPlaces s ++ chosen).map (pathBelow root) ∧
      ps' = (listedPlaces s ++ chosen).map (pathBelow root') ∧
      ∀ c ∈ chosen, IsSource w root c := by
  obtain ⟨chosen, rfl, hchosen⟩ := exists_selected_of_collect hlisted hps
  obtain ⟨chosen', rfl, hchosen'⟩ := exists_selected_of_collect hlisted hps'
  rcases hchosen with ⟨hempty, rfl⟩ | ⟨hsome, hselected⟩
  · rcases hchosen' with ⟨-, rfl⟩ | ⟨hsome, -⟩
    · exact ⟨[], rfl, rfl, List.forall_mem_nil _⟩
    · cases hempty.symm.trans hsome
  · rcases hchosen' with ⟨hempty, -⟩ | ⟨-, hselected'⟩
    · cases hempty.symm.trans hsome
    · have hincludes : s.effectiveInclude ≠ [] := by
        rintro hnil
        rw [hnil] at hsome
        cases hsome
      have hfiles : ∀ c ∈ (files w root).filter fun c => !(listedPlaces s).contains c,
          ∃ bytes, IsBelow w root c (.file bytes) :=
        fun c hc => mem_files_iff.mp (List.mem_of_mem_filter hc)
      have hfiltered := (gives_selected w root s hincludes hfiles).eq_of_ok hselected
      rw [← filesFound_sameBelow h] at hselected'
      obtain rfl := selected_sameBelow h
        (fun c hc => (hfiles c hc).elim fun _ hbelow => hbelow.isProperName hproper)
        hselected hselected'
      refine ⟨chosen, rfl, rfl, fun c hc => ?_⟩
      rw [hfiltered] at hc
      obtain ⟨hc, hchosen⟩ := List.mem_filter.mp hc
      exact isSource_iff.mpr ⟨((Bool.and_eq_true _ _).mp hchosen).1, hfiles c hc⟩

/-! ### What is read -/

theorem locate_of_isSource (hnames : ∀ s ∈ segments, IsProperName s)
    (hsource : IsSource w root segments)
    (hfits : (pathBelow root segments).toString.utf8ByteSize ≤ pathLimit) :
    w.locate (pathBelow root segments) ≠ .error .nameTooLong := by
  obtain ⟨-, -, place, bytes, hplace, hnode⟩ := hsource
  have hlocate := Workspace.locate_append hplace fun s hs => (hnames s hs).2.2.1
  rw [← pathBelow, if_neg (Nat.not_lt.mpr hfits), FileTree.walk_of_node? hnames hnode] at hlocate
  rw [hlocate]
  nofun

theorem locate_of_leadsToFile {name : LooseText} (h : leadsToFile w root name = true) :
    w.locate (root.child name.escaped) ≠ .error .nameTooLong := by
  obtain ⟨place, hplace⟩ := exists_locate_of_leadsToFile h
  rw [hplace]
  nofun

/-- Files with the same bytes are read as the same text. -/
theorem result_readSource_congr {p p' : Path} (h : w.readBytes p = w'.readBytes p') :
    (Files.readSource w p).result = (Files.readSource w' p').result := by
  unfold Files.readSource
  rw [h]
  -- only what is logged names the paths
  rcases w'.readBytes p' with f | bytes
  · cases f with
    | nulCharacter => rfl
    | missing | throughFile | isDirectory | nameTooLong =>
      dsimp only
      rw [Traced.result_log_bind, Traced.result_log_bind]
  · dsimp only
    rcases Files.sourceText bytes with ⟨cs, - | -⟩
    · rfl
    · dsimp only
      rw [if_pos rfl, if_pos rfl, Traced.result_log_bind, Traced.result_log_bind]

/-- The same file below two roots. -/
inductive IsMoved (root root' : Path) : SourceFile → SourceFile → Prop where
  | at (names : List String) (text : String) (h : Path.StaysBelow names) :
      IsMoved root root' ⟨(pathBelow root names).toString, text⟩
        ⟨(pathBelow root' names).toString, text⟩

theorem readSources_sameBelow {places : List Place} {files files' : List SourceFile}
    (hread : ∀ c ∈ places, w.readBytes (pathBelow root c) = w'.readBytes (pathBelow root' c))
    (hstay : ∀ c ∈ places, Path.StaysBelow c)
    (h : (readSources w (places.map (pathBelow root))).result = .ok files)
    (h' : (readSources w' (places.map (pathBelow root'))).result = .ok files') :
    List.Forall₂ (IsMoved root root') files files' := by
  induction places generalizing files files' with
  | nil =>
    obtain rfl := Except.ok.inj h
    obtain rfl := Except.ok.inj h'
    exact .nil
  | cons c places ih =>
    obtain ⟨hc, hplaces⟩ := List.forall_mem_cons.mp hread
    obtain ⟨hcstay, hrest⟩ := List.forall_mem_cons.mp hstay
    obtain ⟨text, htext, h⟩ := Traced.result_bind_eq_ok_iff.mp h
    obtain ⟨text', htext', h'⟩ := Traced.result_bind_eq_ok_iff.mp h'
    obtain ⟨more, hmore, h⟩ := Traced.result_bind_eq_ok_iff.mp h
    obtain ⟨more', hmore', h'⟩ := Traced.result_bind_eq_ok_iff.mp h'
    obtain rfl := Except.ok.inj h
    obtain rfl := Except.ok.inj h'
    rw [result_readSource_congr hc, htext'] at htext
    obtain rfl := Except.ok.inj htext
    have hih := ih hplaces hrest hmore hmore'
    cases text' with
    | none => exact hih
    | some text => exact .cons (.at c text hcstay) hih

/-! ### The whole program -/

/-- The tsconfig.json below a root selects this. -/
def Selects (w : Workspace) (root : Path) (s : Selection) : Prop :=
  ∃ document, readDescription w (root.child descriptionFile) = .ok document ∧
    selectionOf (root.child descriptionFile) document = .ok s

/-- The project below a root has its files there: no name that it lists leads out, and none of its
source files has a name that does when it is read with slashes of both kinds, or a path that is too
long. -/
structure IsSelfContained (w : Workspace) (root : Path) : Prop where
  proper : w.tree.HasProperNames
  relative : ∀ s, Selects w root s → ∀ name ∈ s.listed,
    (Path.ofString name.escaped).isAbsolute = false
  listed : ∀ s, Selects w root s → ∀ name ∈ s.listed,
    Path.StaysBelow (Path.ofString name.escaped).segments
  sources : ∀ c, IsSource w root c → Path.StaysBelow c
  fits : ∀ c, IsSource w root c → (pathBelow root c).toString.utf8ByteSize ≤ pathLimit

theorem selects_iff {s : Selection} : Selects w root s ↔
    (readDescription w (root.child descriptionFile) >>=
      selectionOf (root.child descriptionFile)) = .ok s :=
  Except.bind_eq_ok_iff.symm

/-- Whether a project is self-contained can be computed from what is selected and from the files
below the root. -/
theorem isSelfContained_of_check (s : Selection) (place : Place) (h : w.tree.HasProperNames ∧
    (readDescription w (root.child descriptionFile) >>=
      selectionOf (root.child descriptionFile)).toOption = some s ∧
    (w.locate root).toOption = some place ∧
    (∀ name ∈ s.listed, (Path.ofString name.escaped).isAbsolute = false ∧
      Path.StaysBelow (Path.ofString name.escaped).segments) ∧
    ∀ e ∈ w.tree.below place, isSourceName (e.1.getLast?.getD "") = true → Path.StaysBelow e.1 ∧
      (pathBelow root e.1).toString.utf8ByteSize ≤ pathLimit) : IsSelfContained w root := by
  obtain ⟨hproper, hs, hplace, hlisted, hfiles⟩ := h
  have hunique : ∀ s', Selects w root s' → s' = s := fun s' hs' =>
    Except.ok.inj ((selects_iff.mp hs').symm.trans (Except.toOption_eq_some_iff.mp hs))
  have hsources : ∀ c, IsSource w root c → Path.StaysBelow c ∧
      (pathBelow root c).toString.utf8ByteSize ≤ pathLimit := by
    rintro c ⟨hne, hname, place', bytes, hplace', hnode⟩
    obtain rfl := Except.ok.inj (hplace'.symm.trans (Except.toOption_eq_some_iff.mp hplace))
    exact hfiles (c, .file bytes) (FileTree.mem_below_iff.mpr ⟨hne, hnode⟩) hname
  refine ⟨hproper, ?_, ?_, fun c hc => (hsources c hc).1, fun c hc => (hsources c hc).2⟩
  · rintro s' hs' name hname
    exact (hlisted name (hunique s' hs' ▸ hname)).1
  · rintro s' hs' name hname
    exact (hlisted name (hunique s' hs' ▸ hname)).2

theorem exists_text_of_readDescription {file : Path} {document : Json}
    (h : readDescription w file = .ok document) :
    ∃ bytes cs, w.readBytes file = .ok bytes ∧ Files.markedUtf8Text bytes = .ok cs ∧
      Json.read w.room.documents cs = .ok document := by
  unfold readDescription at h
  rcases hbytes : w.readBytes file with f | bytes
  · rw [hbytes] at h
    cases f <;> cases h
  rw [hbytes] at h
  dsimp only at h
  split at h
  · cases h
  · next cs htext =>
    refine ⟨bytes, cs, rfl, htext, ?_⟩
    split at h
    · cases h
    · cases h
    · next hread => exact hread.trans (congrArg Except.ok (Except.ok.inj h))
    · cases h

/-- Where a description stands is of no account for what it says. -/
theorem readDescription_congr {file file' : Path} {document document' : Json}
    (hbytes : w.readBytes file = w'.readBytes file') (h : readDescription w file = .ok document)
    (h' : readDescription w' file' = .ok document') : document = document' := by
  obtain ⟨bytes, cs, hok, htext, hread⟩ := exists_text_of_readDescription h
  obtain ⟨bytes', cs', hok', htext', hread'⟩ := exists_text_of_readDescription h'
  obtain rfl := Except.ok.inj (hok.symm.trans (hbytes.trans hok'))
  obtain rfl := Except.ok.inj (htext.symm.trans htext')
  exact (Json.isText_of_read hread).unique (Json.isText_of_read hread')

theorem stringsUnder_congr {file file' : Path} {document : Json} {key : String}
    {names names' : Option (List LooseText)} (h : stringsUnder file document key = .ok names)
    (h' : stringsUnder file' document key = .ok names') : names = names' := by
  unfold stringsUnder at h h'
  split at h
  · next hnull =>
    rw [hnull] at h'
    exact Except.ok.inj (h.symm.trans h')
  · next hvalue =>
    split at h'
    · next hnull => exact absurd hnull hvalue
    · split at h
      · next hnames =>
        rw [hnames] at h'
        exact Except.ok.inj (h.symm.trans h')
      · cases h

theorem selectionOf_congr {file file' : Path} {document : Json} {s s' : Selection}
    (h : selectionOf file document = .ok s) (h' : selectionOf file' document = .ok s') :
    s = s' := by
  obtain ⟨files, hfiles, h⟩ := Except.bind_eq_ok_iff.mp h
  obtain ⟨includes, hincludes, h⟩ := Except.bind_eq_ok_iff.mp h
  obtain ⟨excludes, hexcludes, h⟩ := Except.bind_eq_ok_iff.mp h
  obtain ⟨files', hfiles', h'⟩ := Except.bind_eq_ok_iff.mp h'
  obtain ⟨includes', hincludes', h'⟩ := Except.bind_eq_ok_iff.mp h'
  obtain ⟨excludes', hexcludes', h'⟩ := Except.bind_eq_ok_iff.mp h'
  obtain rfl := stringsUnder_congr hfiles hfiles'
  obtain rfl := stringsUnder_congr hincludes hincludes'
  obtain rfl := stringsUnder_congr hexcludes hexcludes'
  exact Except.ok.inj (h.symm.trans h')

theorem child_descriptionFile (root : Path) :
    root.child descriptionFile = pathBelow root [descriptionFile] :=
  Path.child_segment root (by decide)

theorem readBytes_sameBelow (h : SameBelow w root w' root')
    (hstay : ".." ∉ Path.cancelDots false names)
    (hlong : w.locate (pathBelow root names) ≠ .error .nameTooLong)
    (hlong' : w'.locate (pathBelow root' names) ≠ .error .nameTooLong) :
    w.readBytes (pathBelow root names) = w'.readBytes (pathBelow root' names) :=
  ((lookup_sameBelow h hstay).resolve_left (not_or.mpr ⟨hlong, hlong'⟩)).2

theorem locate_of_readBytes {p : Path} {bytes : List UInt8} (h : w.readBytes p = .ok bytes) :
    w.locate p ≠ .error .nameTooLong := by
  intro hlong
  rw [Workspace.readBytes, hlong] at h
  cases h

/-- What is built at a root: the description is read, what it selects is collected and read. -/
theorem exists_of_build {p : Program} (h : (build w (root.child descriptionFile)).result = .ok p) :
    ∃ document s ps, readDescription w (root.child descriptionFile) = .ok document ∧
      selectionOf (root.child descriptionFile) document = .ok s ∧ collect w root s = .ok ps ∧
      (readSources w ps).result = .ok p.files ∧ p.defaultLibrary = [] := by
  obtain ⟨document, hdocument, h⟩ := Traced.result_bind_eq_ok_iff.mp h
  obtain ⟨s, hs, h⟩ := Traced.result_bind_eq_ok_iff.mp h
  obtain ⟨ps, hps, h⟩ := Traced.result_bind_eq_ok_iff.mp h
  obtain ⟨files, hfiles, h⟩ := Traced.result_bind_eq_ok_iff.mp h
  obtain rfl := Except.ok.inj h
  have hcollect : collect w (root.child descriptionFile).parent s = .ok ps := hps
  rw [Path.parent_child root (by decide)] at hcollect
  exact ⟨document, s, ps, hdocument, hs, hcollect, hfiles, rfl⟩

/-- **A self-contained project has the same files wherever it is placed**, up to their roots. -/
theorem files_sameBelow (h : SameBelow w root w' root') (hself : IsSelfContained w root)
    (hself' : IsSelfContained w' root') {p p' : Program}
    (hp : (build w (root.child descriptionFile)).result = .ok p)
    (hp' : (build w' (root'.child descriptionFile)).result = .ok p') :
    List.Forall₂ (IsMoved root root') p.files p'.files := by
  obtain ⟨document, s, ps, hdocument, hs, hps, hfiles, -⟩ := exists_of_build hp
  obtain ⟨document', s', ps', hdocument', hs', hps', hfiles', -⟩ := exists_of_build hp'
  -- the descriptions say the same
  have hbytes : w.readBytes (root.child descriptionFile) =
      w'.readBytes (root'.child descriptionFile) := by
    obtain ⟨bytes, -, hbytes, -⟩ := exists_text_of_readDescription hdocument
    obtain ⟨bytes', -, hbytes', -⟩ := exists_text_of_readDescription hdocument'
    rw [child_descriptionFile] at hbytes hbytes' ⊢
    rw [child_descriptionFile]
    exact readBytes_sameBelow h (by decide) (locate_of_readBytes hbytes)
      (locate_of_readBytes hbytes')
  obtain rfl := readDescription_congr hbytes hdocument hdocument'
  obtain rfl := selectionOf_congr hs hs'
  have hselects : Selects w root s := ⟨document, hdocument, hs⟩
  have hrelative := hself.relative s hselects
  have hleads := (isCollection_of_collect hps).leadsToFile
  have hleads' := (isCollection_of_collect hps').leadsToFile
  obtain ⟨chosen, rfl, rfl, hchosen⟩ := collect_sameBelow h hself.proper hrelative hps hps'
  have hlisted : ∀ c ∈ listedPlaces s, ∃ name ∈ s.listed,
      (Path.ofString name.escaped).segments = c ∧
      ∀ root : Path, root.child name.escaped = pathBelow root c := by
    intro c hc
    obtain ⟨name, hname, rfl⟩ := List.mem_map.mp (List.mem_eraseDups.mp hc)
    exact ⟨name, hname, rfl, fun root => Path.join_relative (hrelative name hname)⟩
  refine readSources_sameBelow (fun c hc => ?_) (fun c hc => ?_) hfiles hfiles'
  · rcases List.mem_append.mp hc with hc | hc
    · obtain ⟨name, hname, rfl, hchild⟩ := hlisted c hc
      refine readBytes_sameBelow h (hself.listed s hselects name hname).followed ?_ ?_
      · rw [← hchild]
        exact locate_of_leadsToFile (hleads name hname)
      · rw [← hchild]
        exact locate_of_leadsToFile (hleads' name hname)
    · have hsource := hchosen c hc
      have hsource' := (isSource_sameBelow h).mp hsource
      exact readBytes_sameBelow h (hself.sources c hsource).followed
        (locate_of_isSource (hsource.isProperName hself.proper) hsource (hself.fits c hsource))
        (locate_of_isSource (hsource'.isProperName hself'.proper) hsource'
          (hself'.fits c hsource'))
  · rcases List.mem_append.mp hc with hc | hc
    · obtain ⟨name, hname, rfl, -⟩ := hlisted c hc
      exact hself.listed s hselects name hname
    · exact hself.sources c (hchosen c hc)

end Project

end DeclLint
