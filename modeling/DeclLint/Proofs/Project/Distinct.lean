/-
DeclLint/Proofs/Project/Distinct.lean

Files that are collected twice.  No path is collected twice, but a path holds its
double dots, and two paths may lead to the same place when these are cancelled.
Behind one root that cannot happen (`eq_of_resolveDots`): names are appended to
what the root comes to, and none of them is a double dot.  What is left are listed
names that are not followed from the root by names alone (`MakesDetour`): names
with a double dot in them, and absolute ones where the root has one.
-/
import DeclLint.Project.Program
import DeclLint.Proofs.Path.Resolution
import DeclLint.Proofs.Project.Collect
import DeclLint.Proofs.Trace

namespace DeclLint

namespace Project

variable {w : Workspace} {root p q : Path} {s : Selection} {ps : List Path} {c d : Place}

theorem resolveDots_pathBelow (h : ".." ∉ c) :
    (pathBelow root c).resolveDots = pathBelow root.resolveDots c :=
  congrArg (Path.mk root.root) (Path.cancelDots_append h root.segments)

theorem pathBelow_injective (h : pathBelow root c = pathBelow root d) : c = d :=
  List.append_cancel_left (congrArg Path.segments h)

/-! ### Detours -/

/-- The listed name is not followed from the root by names alone: there is a double dot in it, or it
does not go on from the root, which has one. -/
def MakesDetour (root : Path) (name : LooseText) : Prop :=
  ".." ∈ (Path.ofString name.escaped).segments ∨
    (Path.ofString name.escaped).isAbsolute = true ∧ ".." ∈ root.segments

/-- The path goes on from the root by names alone, or there are no double dots in either. -/
def IsStraight (root p : Path) : Prop :=
  (∃ c, ".." ∉ c ∧ p = pathBelow root c) ∨ ".." ∉ root.segments ∧ ".." ∉ p.segments

theorem isStraight_child {name : LooseText} (h : ¬ MakesDetour root name) :
    IsStraight root (root.child name.escaped) := by
  obtain ⟨hdots, habsolute⟩ := not_or.mp h
  rcases hroot : (Path.ofString name.escaped).isAbsolute with - | -
  · exact Or.inl ⟨_, hdots, Path.join_relative hroot⟩
  · have hchild : root.child name.escaped = Path.ofString name.escaped := Path.join_absolute hroot
    refine Or.inr ⟨fun hmem => habsolute ⟨hroot, hmem⟩, ?_⟩
    rw [hchild]
    exact hdots

/-- **Straight paths to one place are one path.** -/
theorem eq_of_resolveDots (hp : IsStraight root p) (hq : IsStraight root q)
    (h : p.resolveDots = q.resolveDots) : p = q := by
  by_cases hroot : ".." ∈ root.segments
  -- both go on from the root
  · obtain ⟨c, hc, rfl⟩ := hp.resolve_right fun hdots => hdots.1 hroot
    obtain ⟨d, hd, rfl⟩ := hq.resolve_right fun hdots => hdots.1 hroot
    rw [resolveDots_pathBelow hc, resolveDots_pathBelow hd] at h
    rw [pathBelow_injective h]
  -- nothing is there to be cancelled
  · have hdots : ∀ {p}, IsStraight root p → ".." ∉ p.segments := by
      rintro p (⟨c, hc, rfl⟩ | ⟨-, hp⟩)
      · intro hmem
        exact (List.mem_append.mp hmem).elim hroot hc
      · exact hp
    rwa [Path.resolveDots_of_notMem (hdots hp), Path.resolveDots_of_notMem (hdots hq)] at h

/-! ### What is collected -/

theorem isCollection_of_collect (h : collect w root s = .ok ps) :
    IsCollection w root s (.ok ps) := by
  apply isCollection_of_eq
  rcases gives_collect w root s with heq | ⟨-, e, he, -⟩
  · exact h.symm.trans heq
  · rw [he] at h
    cases h

/-- Where files are collected, all listed names lead to files. -/
theorem IsCollection.leadsToFile (h : IsCollection w root s (.ok ps)) :
    ∀ n ∈ s.listed, leadsToFile w root n = true := by
  apply firstAbsent?_eq_none_iff.mp
  by_contra hfirst
  obtain ⟨name, hname⟩ := Option.ne_none_iff_exists'.mp hfirst
  have hrefused := (h.refused _).mpr ⟨name, firstAbsent?_eq_some_iff.mp hname, rfl⟩
  cases hrefused

/-- What is collected are the listed paths and others below the root. -/
theorem exists_chosen_of_collect (h : collect w root s = .ok ps) :
    ∃ chosen : List Place, ps = listedPaths root s ++ chosen.map (pathBelow root) ∧
      chosen.Nodup ∧
      ∀ c ∈ chosen, IsSource w root c ∧ pathBelow root c ∉ listedPaths root s := by
  have hcollection := isCollection_of_collect h
  obtain ⟨chosen, hchosen, hsorted, hmem⟩ := hcollection.collected hcollection.leadsToFile
  refine ⟨chosen, Except.ok.inj hchosen, ?_, ?_⟩
  · refine List.Nodup.of_map (fun c => (pathBelow root c).segments) ?_
    refine hsorted.imp fun {_ b} hlt heq => ?_
    rw [heq] at hlt
    exact List.lt_irrefl b hlt
  · intro c hc
    obtain ⟨hsource, hnew, -⟩ := (hmem c).mp hc
    exact ⟨hsource, hnew⟩

theorem nodup_of_collect (h : collect w root s = .ok ps) : ps.Nodup := by
  obtain ⟨chosen, rfl, hchosen, hmem⟩ := exists_chosen_of_collect h
  refine List.nodup_append.mpr ⟨List.nodup_eraseDups _, ?_, ?_⟩
  · exact hchosen.map fun _ _ => pathBelow_injective
  · intro p hp q hq
    obtain ⟨c, hc, rfl⟩ := List.mem_map.mp hq
    rintro rfl
    exact (hmem c hc).2 hp

theorem IsBelow.isProperName (hproper : w.tree.HasProperNames) {n : Node}
    (h : IsBelow w root c n) : ∀ s ∈ c, IsProperName s := by
  obtain ⟨-, place, -, hnode⟩ := h
  intro s hs
  exact hproper.of_node? hnode s (List.mem_append_right place hs)

theorem IsSource.isProperName (hproper : w.tree.HasProperNames) (h : IsSource w root c) :
    ∀ s ∈ c, IsProperName s := by
  obtain ⟨-, bytes, hbelow⟩ := isSource_iff.mp h
  exact hbelow.isProperName hproper

/-- What is collected is a listed name or goes on from the root by names. -/
theorem listed_or_below_of_collect (hproper : w.tree.HasProperNames)
    (h : collect w root s = .ok ps) (hp : p ∈ ps) :
    (∃ name ∈ s.listed, p = root.child name.escaped) ∨
      ∃ c, (∀ t ∈ c, IsProperName t) ∧ p = pathBelow root c := by
  obtain ⟨chosen, rfl, -, hmem⟩ := exists_chosen_of_collect h
  rcases List.mem_append.mp hp with hp | hp
  · obtain ⟨name, hname, rfl⟩ := List.mem_map.mp (List.mem_eraseDups.mp hp)
    exact Or.inl ⟨name, hname, rfl⟩
  · obtain ⟨c, hc, rfl⟩ := List.mem_map.mp hp
    exact Or.inr ⟨c, (hmem c hc).1.isProperName hproper, rfl⟩

theorem detour_or_isStraight_of_collect (hproper : w.tree.HasProperNames)
    (h : collect w root s = .ok ps) (hp : p ∈ ps) :
    (∃ name ∈ s.listed, MakesDetour root name ∧ p = root.child name.escaped) ∨
      IsStraight root p := by
  rcases listed_or_below_of_collect hproper h hp with ⟨name, hname, rfl⟩ | ⟨c, hc, rfl⟩
  · by_cases hdetour : MakesDetour root name
    · exact Or.inl ⟨name, hname, hdetour, rfl⟩
    · exact Or.inr (isStraight_child hdetour)
  · exact Or.inr (Or.inl ⟨c, fun hdots => (hc _ hdots).2.1 rfl, rfl⟩)

theorem isClean_of_collect (hproper : w.tree.HasProperNames) (hroot : root.IsClean)
    (h : collect w root s = .ok ps) (hp : p ∈ ps) : p.IsClean := by
  rcases listed_or_below_of_collect hproper h hp with ⟨name, -, rfl⟩ | ⟨c, hc, rfl⟩
  · exact hroot.child name.escaped
  · intro t ht
    exact (List.mem_append.mp ht).elim (hroot t) fun ht => (hc t ht).1

/-- The files of a program are named by paths, in their order. -/
theorem sublist_readSources {files : List SourceFile}
    (h : (readSources w ps).result = .ok files) :
    (files.map SourceFile.name).Sublist (ps.map Path.toString) := by
  induction ps generalizing files with
  | nil =>
    obtain rfl := Except.ok.inj h
    exact List.Sublist.slnil
  | cons p ps ih =>
    obtain ⟨text, -, h⟩ := Traced.result_bind_eq_ok_iff.mp h
    obtain ⟨more, hmore, h⟩ := Traced.result_bind_eq_ok_iff.mp h
    obtain rfl := Except.ok.inj h
    cases text with
    | none => exact (ih hmore).cons p.toString
    | some text => exact (ih hmore).cons_cons p.toString

/-- The paths that are collected lead to different files, as far as they do. -/
structure AreApart (w : Workspace) (root : Path) (s : Selection) (ps : List Path) : Prop where
  /-- No path is collected twice. -/
  nodup : ps.Nodup
  /-- Of two paths to one place, one is listed and makes a detour. -/
  apart : ∀ p ∈ ps, ∀ q ∈ ps, p.resolveDots = q.resolveDots → p = q ∨
    ∃ name ∈ s.listed, MakesDetour root name ∧
      (p = root.child name.escaped ∨ q = root.child name.escaped)
  /-- No two files of a program have the same name. -/
  names : root.IsClean → ∀ files, (readSources w ps).result = .ok files →
    (files.map SourceFile.name).Nodup

/-- **No path is collected twice, and two paths lead to one place only by a detour**: when double
dots are cancelled, two of them become equal only if one of them is a listed name with a double dot
in it, or an absolute one where the root has one. -/
theorem collect_apart (hproper : w.tree.HasProperNames) (h : collect w root s = .ok ps) :
    AreApart w root s ps where
  nodup := nodup_of_collect h
  apart p hp q hq heq := by
    rcases detour_or_isStraight_of_collect hproper h hp with ⟨name, hname, hdetour, rfl⟩ | hp'
    · exact Or.inr ⟨name, hname, hdetour, Or.inl rfl⟩
    rcases detour_or_isStraight_of_collect hproper h hq with ⟨name, hname, hdetour, rfl⟩ | hq'
    · exact Or.inr ⟨name, hname, hdetour, Or.inr rfl⟩
    exact Or.inl (eq_of_resolveDots hp' hq' heq)
  names hroot files hfiles := by
    apply (sublist_readSources hfiles).nodup
    refine (nodup_of_collect h).map_on fun p hp q hq heq => ?_
    exact Path.toString_injective (isClean_of_collect hproper hroot h hp)
      (isClean_of_collect hproper hroot h hq) heq

/-- A root with a source file, beside a folder with another one. -/
def rootBesideFolder : Workspace where
  tree := (FileTree.empty.writeFile ["T", "p", "a.ts"] []).writeFile ["T", "q", "b.ts"] []
  cwd := ["T"]
  environment := []

/-- A selection that lists a file outside the root by two names, and includes everything. -/
def listedOutside : Selection :=
  ⟨some [LooseText.ofString "/T/q/b.ts", LooseText.ofString "/T//q/./b.ts"], some defaultInclude,
    none⟩

/-- Idle segments and absolute names make no detour. -/
theorem collect_apart_rootBesideFolder :
    rootBesideFolder.tree.HasProperNames ∧
      collect rootBesideFolder (.ofString "/T/p") listedOutside =
        .ok [.ofString "/T/q/b.ts", .ofString "/T/p/a.ts"] ∧
      AreApart rootBesideFolder (.ofString "/T/p") listedOutside
        [.ofString "/T/q/b.ts", .ofString "/T/p/a.ts"] := by
  have hproper : rootBesideFolder.tree.HasProperNames := by decide +kernel
  have hcollect : collect rootBesideFolder (.ofString "/T/p") listedOutside =
      .ok [.ofString "/T/q/b.ts", .ofString "/T/p/a.ts"] :=
    Except.toOption_eq_some_iff.mp (by decide +kernel)
  exact ⟨hproper, hcollect, collect_apart hproper hcollect⟩

/-- A selection that lists a file, and once more by a detour through a folder. -/
def listedByDetour : Selection :=
  ⟨some [LooseText.ofString "a.ts", LooseText.ofString "../p/a.ts"], none, none⟩

/-- A file that is listed by a detour is collected beside itself. -/
theorem not_all_apart :
    ¬ ∀ (w : Workspace) (root : Path) (s : Selection) (ps : List Path),
      w.tree.HasProperNames → collect w root s = .ok ps → (ps.map Path.resolveDots).Nodup := by
  intro hall
  have hcollect : collect rootBesideFolder (.ofString "/T/p") listedByDetour =
      .ok [.ofString "/T/p/a.ts", .ofString "/T/p/../p/a.ts"] :=
    Except.toOption_eq_some_iff.mp (by decide +kernel)
  have hnodup := hall _ _ _ _ (by decide +kernel) hcollect
  have hsame : (Path.ofString "/T/p/../p/a.ts").resolveDots =
      (Path.ofString "/T/p/a.ts").resolveDots := by
    decide +kernel
  rw [List.map_cons, List.map_cons, hsame] at hnodup
  exact (List.nodup_cons.mp hnodup).1 List.mem_cons_self

end Project

end DeclLint
