/-
DeclLint/Proofs/Pass/Placed.lean

One project, linted at two places.  Which files a pass looks at for banned directives
is decided by their full paths: a file of a dependency is passed over, also where it is
the project itself that lies in one.  Between roots of which both lie in a dependency,
or neither, that makes no difference (`isDependency_moved`).  So two passes over one
project look at the same files up to the first banned directive, and find the same one,
if any (`policy_of_placed`), whatever else differs between them: the compilers, their
releases, the configuration and all that lies outside.

The files that are looked at (`scanned`) are as many as a pass counts
(`filesScanned_visit`).
-/
import DeclLint.Proofs.Pass.Counted
import DeclLint.Proofs.Pass.Finding
import DeclLint.Proofs.Project.Placed

namespace DeclLint.Pass

open Project (IsMoved IsSelfContained SameBelow)

/-! ### The files that are looked at -/

/-- The files that a pass looks at for banned directives: those of no dependency, up to the first
with such a directive. -/
def scanned : List SourceFile → List SourceFile
  | [] => []
  | file :: files =>
    if Path.isDependency file.name then scanned files
    else
      match Directive.scan file.text.toList with
      | some _ => [file]
      | none => file :: scanned files

section Counted

variable {σ : Type} {lintFile : SourceFile → Run σ Unit} {isLatest : Bool} {root : Path}

theorem filesScanned_checkDirectives {file : SourceFile} {s s' : State σ} {es : List Event}
    {r : Option String} (h : (checkDirectives file).run s = (⟨es, .ok r⟩, s')) :
    r = (banned? file).map (bannedLine file) ∧ s'.counts.filesScanned =
      s.counts.filesScanned + if Path.isDependency file.name then 0 else 1 := by
  rw [run_checkDirectives_eq] at h
  obtain ⟨ht, rfl⟩ := Prod.mk.inj h
  refine ⟨(Except.ok.inj (Traced.mk.inj ht).2).symm, ?_⟩
  unfold ownershipCounter
  split
  · exact (Int.add_zero _).symm
  · rfl

theorem filesScanned_applyRules {file : SourceFile} {s s' : State σ} {es : List Event} {u : Unit}
    (h : (applyRules lintFile isLatest root file).run s = (⟨es, .ok u⟩, s')) :
    s'.counts.filesScanned = s.counts.filesScanned := by
  rw [counts_applyRules h]
  unfold treatmentCounter
  split
  · rfl
  · rfl

/-- **A pass counts the files that it looks at.** -/
theorem filesScanned_visit {files : List SourceFile} {s s' : State σ} {es : List Event}
    {r : Option String} (h : (visit lintFile isLatest root files).run s = (⟨es, .ok r⟩, s')) :
    s'.counts.filesScanned = s.counts.filesScanned + (scanned files).length := by
  induction files generalizing s es with
  | nil =>
    obtain ⟨-, rfl, -⟩ := Run.run_pure_eq_ok_iff.mp h
    exact (Int.add_zero _).symm
  | cons file files ih =>
    rw [visit] at h
    obtain ⟨es₁, found, s₁, es₂, hcheck, h, -⟩ := Run.run_bind_eq_ok_iff.mp h
    obtain ⟨hfound, hcount⟩ := filesScanned_checkDirectives hcheck
    rw [scanned]
    cases found with
    -- the file is the last one that is looked at
    | some report =>
      obtain ⟨-, rfl, -⟩ := Run.run_pure_eq_ok_iff.mp h
      obtain ⟨o, hbanned, -⟩ := Option.map_eq_some_iff.mp hfound.symm
      rw [hcount]
      unfold banned? at hbanned
      split at hbanned
      · cases hbanned
      · next hdependency =>
        rw [if_neg hdependency, if_neg hdependency, hbanned]
        rfl
    | none =>
      obtain ⟨es₃, u, s₂, es₄, happly, hrest, -⟩ := Run.run_bind_eq_ok_iff.mp h
      rw [ih hrest, filesScanned_applyRules happly, hcount]
      have hbanned := Option.map_eq_none_iff.mp hfound.symm
      unfold banned? at hbanned
      split at hbanned
      · next hdependency =>
        rw [if_pos hdependency, if_pos hdependency, Int.add_zero]
      · next hdependency =>
        rw [if_neg hdependency, if_neg hdependency, hbanned]
        dsimp only
        rw [List.length_cons]
        omega

end Counted

/-! ### Moved files -/

section Moved

variable {root root' : Path} {f f' : SourceFile} {files files' : List SourceFile}

/-- A file that is moved belongs to a dependency as before, unless its root comes to lie in one or
outside. -/
theorem isDependency_moved (hroot : root.isAbsolute = true) (hroot' : root'.isAbsolute = true)
    (hside : Path.isDependency root.toString = Path.isDependency root'.toString)
    (h : IsMoved root root' f f') : Path.isDependency f.name = Path.isDependency f'.name := by
  obtain ⟨names, text, hstay⟩ := h
  rw [Bool.eq_iff_iff]
  show Path.isDependency (Path.mk root.root _).toString = true ↔
    Path.isDependency (Path.mk root'.root _).toString = true
  rw [Path.isDependency_append hroot hstay.read, Path.isDependency_append hroot' hstay.read, hside]

theorem IsMoved.text_eq (h : IsMoved root root' f f') : f.text = f'.text := by
  obtain ⟨names, text, hstay⟩ := h
  rfl

variable (hdependency : ∀ f f', IsMoved root root' f f' →
  Path.isDependency f.name = Path.isDependency f'.name)

include hdependency

theorem banned?_moved (h : IsMoved root root' f f') : banned? f = banned? f' := by
  unfold banned?
  rw [hdependency f f' h, IsMoved.text_eq h]

theorem scanned_moved (h : List.Forall₂ (IsMoved root root') files files') :
    List.Forall₂ (IsMoved root root') (scanned files) (scanned files') := by
  induction h with
  | nil => exact .nil
  | @cons f f' files files' hfile hfiles ih =>
    rw [scanned, scanned, hdependency f f' hfile, IsMoved.text_eq hfile]
    split
    · exact ih
    · split
      · exact .cons hfile .nil
      · exact .cons hfile ih

theorem firstBanned?_moved (h : List.Forall₂ (IsMoved root root') files files') :
    (∃ f f' b, IsMoved root root' f f' ∧ firstBanned? files = some (f, b) ∧
      firstBanned? files' = some (f', b)) ∨
    firstBanned? files = none ∧ firstBanned? files' = none := by
  induction h with
  | nil => exact Or.inr ⟨rfl, rfl⟩
  | @cons f f' files files' hfile hfiles ih =>
    have hbanned := banned?_moved hdependency hfile
    unfold firstBanned? at ih ⊢
    rw [List.findSome?_cons, List.findSome?_cons, hbanned]
    cases banned? f' with
    | some b => exact Or.inl ⟨f, f', b, hfile, rfl, rfl⟩
    | none => exact ih

end Moved

/-! ### Passes at two places -/

variable {host host' : Host} {o o' : PassOptions}

/-- What a pass that gets through has come to. -/
theorem exists_of_run {r : Option String} (h : (run host o).result = .ok r) :
    ∃ p format, (programOf host o).result = .ok p ∧
      finding host o = .ok (Finding.of (ownFiles p) (recorded host o)) ∧
      (Finding.of (ownFiles p) (recorded host o)).report format = .ok r := by
  have hparts := h
  rw [run_eq] at hparts
  obtain ⟨loaded, -, hparts⟩ := Traced.result_bind_eq_ok_iff.mp hparts
  obtain ⟨format, hformat, -⟩ := Traced.result_bind_eq_ok_iff.mp hparts
  rw [result_run hformat] at h
  obtain ⟨x, hx, hreport⟩ := Except.bind_eq_ok_iff.mp h
  obtain ⟨p, hp, rfl⟩ := Except.map_eq_ok_iff.mp hx
  obtain ⟨es, hes⟩ := Traced.result_eq_ok_iff.mp hp
  have hrun : (lintReceived host o).run (Engine.start Expect.Memo.empty) =
      (⟨es, .ok p⟩, (lintedFrom host o).2) := Prod.ext hes rfl
  -- the program that is left at the end is the one that was loaded
  obtain ⟨es₁, p', e₁, es₂, hload, hrest, -⟩ := Run.run_bind_eq_ok_iff.mp hrun
  obtain ⟨hprogram, -⟩ := Run.run_lift_eq_ok_iff.mp hload
  obtain ⟨es₃, config, e₂, es₄, -, hrest, -⟩ := Run.run_bind_eq_ok_iff.mp hrest
  obtain ⟨es₅, u, e₃, es₆, -, hpure, -⟩ := Run.run_bind_eq_ok_iff.mp hrest
  obtain ⟨rfl, -, -⟩ := Run.run_pure_eq_ok_iff.mp hpure
  exact ⟨p', format, congrArg Traced.result hprogram, hx, hreport⟩

/-- Two passes over one project, each at its own place, with nothing of it elsewhere. -/
structure ArePlaced (host : Host) (o : PassOptions) (host' : Host) (o' : PassOptions) : Prop where
  described : o.program = none
  described' : o'.program = none
  same : SameBelow host.workspace (rootOf host o) host'.workspace (rootOf host' o')
  selfContained : IsSelfContained host.workspace (rootOf host o)
  selfContained' : IsSelfContained host'.workspace (rootOf host' o')

theorem programOf_of_described (h : o.program = none) :
    programOf host o = Project.build host.workspace (descriptionOf host o) := by
  rw [programOf, h]

theorem ownFiles_eq_files {p : Program} (h : p.defaultLibrary = []) : ownFiles p = p.files := by
  refine List.filter_eq_self.mpr fun file _ => ?_
  simp [Program.isDefaultLibrary, h]

/-- The programs of two such passes have the same files, moved. -/
theorem ArePlaced.moved_ownFiles (h : ArePlaced host o host' o') {p p' : Program}
    (hp : (programOf host o).result = .ok p) (hp' : (programOf host' o').result = .ok p') :
    List.Forall₂ (IsMoved (rootOf host o) (rootOf host' o')) (ownFiles p) (ownFiles p') := by
  rw [programOf_of_described h.described] at hp
  rw [programOf_of_described h.described'] at hp'
  obtain ⟨-, -, -, -, -, -, -, hlibrary⟩ := Project.exists_of_build hp
  obtain ⟨-, -, -, -, -, -, -, hlibrary'⟩ := Project.exists_of_build hp'
  rw [ownFiles_eq_files hlibrary, ownFiles_eq_files hlibrary']
  exact Project.files_sameBelow h.same h.selfContained h.selfContained' hp hp'

/-- A banned directive is reported at the same place of a file that is moved. -/
theorem bannedLine_moved {root root' : Path} {f f' : SourceFile} (h : IsMoved root root' f f')
    (b : Directive.Occurrence) :
    ∃ line character, bannedLine f b =
        Report.directiveLine f.name line character b.directive.message ∧
      bannedLine f' b =
        Report.directiveLine f'.name line character b.directive.message := by
  refine ⟨(Text.position f.text.toList b.offset).line,
    (Text.position f.text.toList b.offset).character, rfl, ?_⟩
  rw [IsMoved.text_eq h]
  rfl

/-- Two passes have looked at the same files for banned directives, moved, and report the same one
in the same file, moved, or none of them does. -/
structure SamePolicy (host : Host) (o : PassOptions) (host' : Host) (o' : PassOptions)
    (r r' : Option String) : Prop where
  scanned : ∃ p p', (programOf host o).result = .ok p ∧ (programOf host' o').result = .ok p' ∧
    List.Forall₂ (IsMoved (rootOf host o) (rootOf host' o')) (scanned (ownFiles p))
      (scanned (ownFiles p'))
  reported : (∃ f f' b line character, IsMoved (rootOf host o) (rootOf host' o') f f' ∧
      finding host o = .ok (.banned f b) ∧ finding host' o' = .ok (.banned f' b) ∧
      r = some (Report.directiveLine f.name line character b.directive.message) ∧
      r' = some (Report.directiveLine f'.name line character b.directive.message)) ∨
    ∀ f b, finding host o ≠ .ok (.banned f b) ∧ finding host' o' ≠ .ok (.banned f b)

theorem Finding.of_eq_banned_iff {files : List SourceFile} {fs : List Failure} {f : SourceFile}
    {b : Directive.Occurrence} :
    Finding.of files fs = .banned f b ↔ firstBanned? files = some (f, b) := by
  unfold Finding.of
  split
  · next h => simp [h]
  · next h => simp [h]
  · next h => simp [h]

theorem samePolicy_of_side (h : ArePlaced host o host' o')
    (hside : Path.isDependency (rootOf host o).toString =
      Path.isDependency (rootOf host' o').toString)
    {r r' : Option String} (hr : (run host o).result = .ok r)
    (hr' : (run host' o').result = .ok r') : SamePolicy host o host' o' r r' := by
  obtain ⟨p, format, hp, hfinding, hreported⟩ := exists_of_run hr
  obtain ⟨p', format', hp', hfinding', hreported'⟩ := exists_of_run hr'
  have hmoved := h.moved_ownFiles hp hp'
  have hdependency : ∀ f f', IsMoved (rootOf host o) (rootOf host' o') f f' →
      Path.isDependency f.name = Path.isDependency f'.name := fun f f' =>
    isDependency_moved (Workspace.isAbsolute_absolute _ _) (Workspace.isAbsolute_absolute _ _) hside
  refine ⟨⟨p, p', hp, hp', scanned_moved hdependency hmoved⟩, ?_⟩
  rw [hfinding, hfinding']
  rcases firstBanned?_moved hdependency hmoved with
    ⟨f, f', b, hfile, hfirst, hfirst'⟩ | ⟨hnone, hnone'⟩
  · obtain ⟨line, character, hreport, hreport'⟩ := bannedLine_moved hfile b
    rw [Finding.of_eq_banned_iff.mpr hfirst] at hreported ⊢
    rw [Finding.of_eq_banned_iff.mpr hfirst'] at hreported' ⊢
    obtain rfl := Except.ok.inj hreported
    obtain rfl := Except.ok.inj hreported'
    exact Or.inl ⟨f, f', b, line, character, hfile, rfl, rfl, congrArg some hreport,
      congrArg some hreport'⟩
  · refine Or.inr fun f b => ⟨fun hbanned => ?_, fun hbanned => ?_⟩
    · cases hnone.symm.trans (Finding.of_eq_banned_iff.mp (Except.ok.inj hbanned))
    · cases hnone'.symm.trans (Finding.of_eq_banned_iff.mp (Except.ok.inj hbanned))

/-- **Where a project is placed is of no account for banned directives, but for one thing**: whether
that place lies in a dependency.  A file belongs to a dependency because of its own names below a
root or because of the root; so passes over one project at two places, of which both lie in a
dependency or neither, look at the same files for banned directives and report the same one, or
none. -/
theorem policy_of_placed :
    (∀ (root name : String) (r : Path), Path.Resolves root r → r.isAbsolute = true →
      ".." ∉ Path.named name →
      (Path.isDependency (root ++ "/" ++ name) = true ↔
        Path.dependencyFolder ∈ Path.named name ∨ Path.dependencyFolder ∈ r.segments)) ∧
    ∀ (host host' : Host) (o o' : PassOptions) (q q' : Path) (r r' : Option String),
      ArePlaced host o host' o' → Path.Resolves (rootOf host o).toString q →
      Path.Resolves (rootOf host' o').toString q' →
      (Path.dependencyFolder ∈ q.segments ↔ Path.dependencyFolder ∈ q'.segments) →
      (run host o).result = .ok r → (run host' o').result = .ok r' →
      SamePolicy host o host' o' r r' := by
  refine ⟨fun root name r hroot habs hdots => Path.isDependency_slash hroot habs hdots, ?_⟩
  intro host host' o o' q q' r r' h hq hq' hside hr hr'
  obtain rfl := Path.resolves_iff.mp hq
  obtain rfl := Path.resolves_iff.mp hq'
  refine samePolicy_of_side h ?_ hr hr'
  rw [Bool.eq_iff_iff, Path.isDependency_iff_mem, Path.isDependency_iff_mem]
  exact hside

/-- A host with files, and with two compilers that find no error. -/
def hostOf (files : List (Place × String)) : Host where
  workspace := {
    tree := (files ++ ["5.5", "5.6"].map fun name =>
        (["i", name, "node_modules", "typescript", "lib", "tsc.js"], "")).foldl
      (fun t f => t.writeFile f.1 f.2.toUTF8.toList) FileTree.empty
    cwd := []
    environment := [(Release.installsVariable, "/i")] }
  compiler := fun _ => .finished "" "" 0

/-- A project at a place, with a source file. -/
def placedFiles (place : Place) (description text : String) : List (Place × String) :=
  [(place ++ ["tslint.json"], "\x7b\"rules\": \x7b\"expect\": true\x7d\x7d"),
    (place ++ ["tsconfig.json"], description), (place ++ ["a.ts"], text)]

/-- A host with a project that lists its source file, which has a banned directive. -/
def bannedAt (place : Place) : Host :=
  hostOf (placedFiles place "\x7b\"files\": [\"a.ts\"]\x7d" "// @ts-ignore")

/-- A host with a project that lists a file next to it. -/
def listingAt (place : Place) (text : String) : Host :=
  hostOf (placedFiles place "\x7b\"files\": [\"../b.ts\"]\x7d" "" ++
    [(place.dropLast ++ ["b.ts"], text)])

/-- The options for linting the project in a directory with both compilers. -/
def placedAt (directory : String) : PassOptions :=
  { sampleOptions with directory := Path.ofString directory }

/-- The selection of a project that lists its source file. -/
def sourceListed : Project.Selection :=
  ⟨some [.ofString "a.ts"], none, none⟩

theorem arePlaced_bannedAt :
    ArePlaced (bannedAt ["p"]) (placedAt "/p") (bannedAt ["q", "r"]) (placedAt "/q/r") where
  described := rfl
  described' := rfl
  same := Project.sameBelow_of_check ["p"] ["q", "r"] (by decide +kernel)
  selfContained := Project.isSelfContained_of_check sourceListed ["p"] (by decide +kernel)
  selfContained' := Project.isSelfContained_of_check sourceListed ["q", "r"] (by decide +kernel)

theorem policy_of_placed_twoPlaces :
    (Path.isDependency ("/q/./r\\" ++ "/" ++ "b\\node_modules/a.ts") = true ↔
      Path.dependencyFolder ∈ Path.named "b\\node_modules/a.ts" ∨
        Path.dependencyFolder ∈ ["q", "r"]) ∧
    ArePlaced (bannedAt ["p"]) (placedAt "/p") (bannedAt ["q", "r"]) (placedAt "/q/r") ∧
    SamePolicy (bannedAt ["p"]) (placedAt "/p") (bannedAt ["q", "r"]) (placedAt "/q/r")
      (some "At /p/a.ts:\x7b\"line\":0,\"character\":4\x7d: 'ts-ignore' is forbidden.")
      (some "At /q/r/a.ts:\x7b\"line\":0,\"character\":4\x7d: 'ts-ignore' is forbidden.") := by
  refine ⟨policy_of_placed.1 _ _ ⟨.single, ["q", "r"]⟩ (Path.resolves_iff.mpr (by decide +kernel))
    rfl (by decide +kernel), arePlaced_bannedAt, ?_⟩
  exact policy_of_placed.2 _ _ _ _ ⟨.single, ["p"]⟩ ⟨.single, ["q", "r"]⟩ _ _ arePlaced_bannedAt
    (Path.resolves_iff.mpr (by decide +kernel)) (Path.resolves_iff.mpr (by decide +kernel))
    (by decide) (Except.toOption_eq_some_iff.mp (by decide +kernel))
    (Except.toOption_eq_some_iff.mp (by decide +kernel))

/-! ### Places that make a difference -/

theorem result_of_banned {format : Report.Format} (hformat : formatOf o.format = .ok format)
    {f : SourceFile} {b : Directive.Occurrence} (h : finding host o = .ok (.banned f b)) :
    (run host o).result = .ok (some (bannedLine f b)) := by
  rw [result_run hformat, h]
  rfl

theorem not_samePolicy {f : SourceFile} {b : Directive.Occurrence} {r : Option String}
    (h : finding host o = .ok (.banned f b)) : ¬ SamePolicy host o host' o' r none := by
  rintro ⟨-, hreported | hnone⟩
  · obtain ⟨f, f', b, line, character, -, -, -, -, hreport⟩ := hreported
    cases hreport
  · exact (hnone f b).1 h

/-- A project that is placed in a dependency is passed over as a whole; and a project that lists a
file next to it has another file there at every place. -/
theorem not_all_samePolicy :
    (¬ ∀ (root name : String) (r : Path), Path.Resolves root r → r.isAbsolute = true →
      ".." ∉ Path.named name →
      (Path.isDependency (root ++ "/" ++ name) = true ↔
        Path.dependencyFolder ∈ Path.named name)) ∧
    (¬ ∀ (host host' : Host) (o o' : PassOptions) (r r' : Option String),
      ArePlaced host o host' o' → (run host o).result = .ok r → (run host' o').result = .ok r' →
      SamePolicy host o host' o' r r') ∧
    ¬ ∀ (host host' : Host) (o o' : PassOptions) (q q' : Path) (r r' : Option String),
      o.program = none → o'.program = none →
      SameBelow host.workspace (rootOf host o) host'.workspace (rootOf host' o') →
      Path.Resolves (rootOf host o).toString q → Path.Resolves (rootOf host' o').toString q' →
      (Path.dependencyFolder ∈ q.segments ↔ Path.dependencyFolder ∈ q'.segments) →
      (run host o).result = .ok r → (run host' o').result = .ok r' →
      SamePolicy host o host' o' r r' := by
  refine ⟨fun hall => ?_, fun hall => ?_, fun hall => ?_⟩
  · have hnamed := (hall "/node_modules/p" "a.ts" ⟨.single, ["node_modules", "p"]⟩
      (Path.resolves_iff.mpr (by decide +kernel)) rfl (by decide +kernel)).mp (by decide +kernel)
    exact absurd hnamed (by decide +kernel)
  · have hplaced : ArePlaced (bannedAt ["p"]) (placedAt "/p") (bannedAt ["node_modules", "p"])
        (placedAt "/node_modules/p") :=
      ⟨rfl, rfl, Project.sameBelow_of_check ["p"] ["node_modules", "p"]
        (by decide +kernel), arePlaced_bannedAt.selfContained,
        Project.isSelfContained_of_check sourceListed ["node_modules", "p"] (by decide +kernel)⟩
    have hfound : finding (bannedAt ["p"]) (placedAt "/p") =
        .ok (.banned ⟨"/p/a.ts", "// @ts-ignore"⟩ ⟨4, .tsIgnore⟩) :=
      Except.toOption_eq_some_iff.mp (by decide +kernel)
    exact not_samePolicy hfound (hall _ _ _ _ _ none hplaced (result_of_banned rfl hfound)
      (Except.toOption_eq_some_iff.mp (by decide +kernel)))
  · have hsame : SameBelow (listingAt ["p"] "// @ts-ignore").workspace
        (rootOf (listingAt ["p"] "// @ts-ignore") (placedAt "/p"))
        (listingAt ["q", "r"] "").workspace
        (rootOf (listingAt ["q", "r"] "") (placedAt "/q/r")) :=
      Project.sameBelow_of_check ["p"] ["q", "r"] (by decide +kernel)
    have hfound : finding (listingAt ["p"] "// @ts-ignore") (placedAt "/p") =
        .ok (.banned ⟨"/p/../b.ts", "// @ts-ignore"⟩ ⟨4, .tsIgnore⟩) :=
      Except.toOption_eq_some_iff.mp (by decide +kernel)
    exact not_samePolicy hfound (hall _ _ _ _ ⟨.single, ["p"]⟩ ⟨.single, ["q", "r"]⟩ _ none rfl
      rfl hsame (Path.resolves_iff.mpr (by decide +kernel))
      (Path.resolves_iff.mpr (by decide +kernel)) (by decide) (result_of_banned rfl hfound)
      (Except.toOption_eq_some_iff.mp (by decide +kernel)))

end DeclLint.Pass
