/-
DeclLint/Proofs/Pass/Visit.lean

What a pass does beside applying rules, and what it leaves to them.  Loading the
program and the configuration starts no compiler.  Going through the files of
a program keeps counts, logs, and looks for banned directives; beside that it
comes to applying the rules, in order, to the files before the first one with a
banned directive that are not left out (`run_visit`).
-/
import DeclLint.Pass
import DeclLint.Proofs.Config.Extends
import Mathlib.Data.List.TakeWhile

namespace DeclLint

/-! ### Quiet preparations -/

theorem Files.quiet_readSource (w : Workspace) (p : Path) : (Files.readSource w p).Quiet := by
  unfold Files.readSource
  split
  · split
    split
    · exact (Traced.quiet_log _ _ _).bind fun _ => Traced.quiet_pure _
    · exact Traced.quiet_pure _
  · exact (Traced.quiet_log _ _ _).bind fun _ => Traced.quiet_pure _
  · exact Traced.quiet_fail _
  · exact (Traced.quiet_log _ _ _).bind fun _ => Traced.quiet_pure _

theorem Project.quiet_readSources (w : Workspace) (ps : List Path) :
    (Project.readSources w ps).Quiet := by
  induction ps with
  | nil => exact Traced.quiet_pure _
  | cons p ps ih =>
    exact (Files.quiet_readSource w p).bind fun _ => ih.bind fun _ => Traced.quiet_pure _

theorem Project.quiet_build (w : Workspace) (file : Path) : (Project.build w file).Quiet := by
  refine (Traced.quiet_ofExcept _).bind fun document => ?_
  refine (Traced.quiet_ofExcept _).bind fun selection => ?_
  refine (Traced.quiet_ofExcept _).bind fun paths => ?_
  refine (Project.quiet_readSources w paths).bind fun files => ?_
  exact (Traced.quiet_log _ _ _).bind fun _ => Traced.quiet_pure _

theorem Config.quiet_active (w : Workspace) (preferred tsconfig : Path) (low high : VersionArg)
    (localBuild : Option String) :
    (Config.active w preferred tsconfig low high localBuild).Quiet := by
  refine (Traced.quiet_ofExcept _).bind fun isThere => ?_
  refine (Traced.quiet_log _ _ _).bind fun _ => ?_
  refine (Config.quiet_load w _).bind fun config => ?_
  split
  · refine (Traced.quiet_ofExcept _).bind fun releases => ?_
    refine (Traced.quiet_log _ _ _).bind fun _ => ?_
    exact (Traced.quiet_ofExcept _).bind fun _ => Traced.quiet_pure _
  · exact Traced.quiet_fail _

/-! ### The files of a pass -/

namespace Pass

variable {σ : Type} {lintFile : SourceFile → Run σ Unit} {isLatest : Bool} {root : Path}

/-- The files that the rules are applied to: in a pass for the newest compilers, those that belong
to no version folder, and all of them in any other pass. -/
def linted (isLatest : Bool) (root : Path) (files : List SourceFile) : List SourceFile :=
  files.filter fun file => !(isLatest && Path.isVersionPinned file.name root.toString)

theorem linted_eq (isLatest : Bool) (root : Path) (files : List SourceFile) :
    linted isLatest root files = files.filter fun file => !isLeftOut isLatest root file := rfl

/-- The banned directive in a file: none is looked for in the files of dependencies. -/
def banned? (file : SourceFile) : Option Directive.Occurrence :=
  if Path.isDependency file.name then none else Directive.scan file.text.toList

/-- The files before the first one with a banned directive. -/
def examined (files : List SourceFile) : List SourceFile :=
  files.takeWhile fun file => (banned? file).isNone

/-- What is said about a banned directive in a file: the name of the file, the line and the
character that it stands at, and which directive it is. -/
def bannedLine (file : SourceFile) (o : Directive.Occurrence) : String :=
  let place := Text.position file.text.toList o.offset
  Report.directiveLine file.name place.line place.character o.directive.message

/-- What is said about the first file with a banned directive. -/
def bannedReport? (files : List SourceFile) : Option String :=
  files.findSome? fun file => (banned? file).map (bannedLine file)

/-- Looking for banned directives leaves the engine alone. -/
theorem run_checkDirectives (file : SourceFile) (s : State σ) :
    ∃ es counts, Event.starts es = [] ∧ (checkDirectives file).run s =
      (⟨es, .ok ((banned? file).map (bannedLine file))⟩, ⟨s.engine, counts⟩) := by
  unfold checkDirectives banned?
  split
  · exact ⟨[], _, rfl, rfl⟩
  · rcases Directive.scan file.text.toList with - | o
    · exact ⟨[], _, rfl, rfl⟩
    · exact ⟨[.logged _], _, rfl, rfl⟩

theorem run_applyRules_leftOut (lintFile : SourceFile → Run σ Unit) {file : SourceFile}
    (h : isLeftOut isLatest root file = true) (s : State σ) :
    ∃ es counts, Event.starts es = [] ∧
      (applyRules lintFile isLatest root file).run s = (⟨es, .ok ()⟩, ⟨s.engine, counts⟩) := by
  rw [applyRules, if_pos h]
  exact ⟨[.logged _], _, rfl, rfl⟩

theorem run_applyRules_kept {file : SourceFile} (h : isLeftOut isLatest root file = false)
    {s : State σ} {es : List Event} {r : Except LintError Unit} {engine : σ}
    (hfile : (lintFile file).run s.engine = (⟨es, r⟩, engine)) :
    ∃ counts, (applyRules lintFile isLatest root file).run s = (⟨es, r⟩, ⟨engine, counts⟩) := by
  have hzoom : (onEngine (lintFile file)).run s = (⟨es, r⟩, ⟨engine, s.counts⟩) := by
    simp only [onEngine, Run.zoom, hfile]
  rw [applyRules, h, if_neg Bool.false_ne_true]
  cases r with
  | error e => exact ⟨_, Run.run_bind_error hzoom⟩
  | ok u =>
    have hcount : (count .filesLinted).run (⟨engine, s.counts⟩ : State σ) =
      (⟨[], .ok ()⟩, ⟨engine, s.counts.add .filesLinted 1⟩) := rfl
    have hrun := Run.run_bind_of_ok (f := fun _ => count .filesLinted) hzoom hcount
    rw [List.append_nil] at hrun
    exact ⟨_, hrun⟩

theorem examined_cons_of_none {file : SourceFile} {files : List SourceFile}
    (h : banned? file = none) : examined (file :: files) = file :: examined files :=
  List.takeWhile_cons_of_pos (by rw [h]; rfl)

theorem examined_cons_of_some {file : SourceFile} {files : List SourceFile}
    {o : Directive.Occurrence} (h : banned? file = some o) : examined (file :: files) = [] :=
  List.takeWhile_cons_of_neg (by rw [h]; exact Bool.false_ne_true)

theorem linted_cons_of_leftOut {file : SourceFile} {files : List SourceFile}
    (h : isLeftOut isLatest root file = true) :
    linted isLatest root (file :: files) = linted isLatest root files := by
  rw [linted_eq, List.filter_cons_of_neg (by simp [h])]
  rfl

theorem linted_cons_of_kept {file : SourceFile} {files : List SourceFile}
    (h : isLeftOut isLatest root file = false) :
    linted isLatest root (file :: files) = file :: linted isLatest root files := by
  rw [linted_eq, List.filter_cons_of_pos (by simp [h])]
  rfl

theorem bannedReport?_cons (file : SourceFile) (files : List SourceFile) :
    bannedReport? (file :: files) =
      ((banned? file).map (bannedLine file)).or (bannedReport? files) := by
  rw [bannedReport?, List.findSome?_cons]
  cases banned? file with
  | none => rfl
  | some o => rfl

/-- **Going through files is linting some of them in order**: of those before the first one with a
banned directive, all that are not left out.  The report is that of the first banned directive, and
nothing else changes the state of the engine or starts a compiler. -/
theorem run_visit {files : List SourceFile} {s : State σ} {es : List Event}
    {r : Except LintError Unit} {engine : σ}
    (h : ((linted isLatest root (examined files)).forM lintFile).run s.engine =
      (⟨es, r⟩, engine)) :
    ∃ es' counts, Event.starts es' = Event.starts es ∧
      (visit lintFile isLatest root files).run s =
        (⟨es', r.map fun _ => bannedReport? files⟩, ⟨engine, counts⟩) := by
  induction files generalizing s es with
  | nil =>
    obtain ⟨ht, rfl⟩ := Prod.mk.inj h
    obtain ⟨rfl, rfl⟩ := Traced.mk.inj ht
    exact ⟨[], s.counts, rfl, rfl⟩
  | cons file files ih =>
    obtain ⟨es₁, counts₁, hes₁, hcheck⟩ := run_checkDirectives file s
    rw [bannedReport?_cons]
    cases hbanned : banned? file with
    -- a banned directive ends the pass, and no file from here on is linted
    | some o =>
      rw [hbanned] at hcheck
      rw [examined_cons_of_some hbanned] at h
      obtain ⟨ht, rfl⟩ := Prod.mk.inj h
      obtain ⟨rfl, rfl⟩ := Traced.mk.inj ht
      refine ⟨es₁ ++ [], counts₁, ?_, ?_⟩
      · rw [Event.starts_append, hes₁]
        rfl
      · rw [visit]
        exact Run.run_bind_of_ok hcheck (Run.run_pure _ _)
    | none =>
      rw [hbanned] at hcheck
      rw [examined_cons_of_none hbanned] at h
      cases hkept : isLeftOut isLatest root file with
      -- a file that is left out is counted and logged
      | true =>
        rw [linted_cons_of_leftOut hkept] at h
        obtain ⟨es₂, counts₂, hes₂, happly⟩ :=
          run_applyRules_leftOut lintFile hkept ⟨s.engine, counts₁⟩
        obtain ⟨es₃, counts₃, hes₃, hrest⟩ := ih (s := ⟨s.engine, counts₂⟩) h
        refine ⟨es₁ ++ (es₂ ++ es₃), counts₃, ?_, ?_⟩
        · rw [Event.starts_append, Event.starts_append, hes₁, hes₂, hes₃]
          rfl
        · rw [visit]
          exact Run.run_bind_of_ok hcheck (Run.run_bind_of_ok happly hrest)
      -- to any other the rules are applied, and the rest follows
      | false =>
        rw [linted_cons_of_kept hkept] at h
        rcases hfile : (lintFile file).run s.engine with ⟨⟨es₂, r₂⟩, engine₂⟩
        obtain ⟨counts₂, happly⟩ :=
          run_applyRules_kept hkept (s := ⟨s.engine, counts₁⟩) hfile
        cases r₂ with
        | error e =>
          replace h := (Run.run_bind_error hfile).symm.trans h
          obtain ⟨ht, rfl⟩ := Prod.mk.inj h
          obtain ⟨rfl, rfl⟩ := Traced.mk.inj ht
          refine ⟨es₁ ++ es₂, counts₂, ?_, ?_⟩
          · rw [Event.starts_append, hes₁]
            rfl
          · rw [visit]
            exact Run.run_bind_of_ok hcheck (Run.run_bind_error happly)
        | ok u =>
          replace h := (Run.run_bind_ok hfile).symm.trans h
          obtain ⟨ht, rfl⟩ := Prod.mk.inj h
          obtain ⟨rfl, rfl⟩ := Traced.mk.inj ht
          obtain ⟨es₃, counts₃, hes₃, hrest⟩ := ih (s := ⟨engine₂, counts₂⟩) rfl
          refine ⟨es₁ ++ (es₂ ++ es₃), counts₃, ?_, ?_⟩
          · rw [Event.starts_append, Event.starts_append, Event.starts_append, hes₁, hes₃]
            rfl
          · rw [visit]
            exact Run.run_bind_of_ok hcheck (Run.run_bind_of_ok happly hrest)

theorem examined_of_bannedReport? {files : List SourceFile} (h : bannedReport? files = none) :
    examined files = files := by
  rw [bannedReport?, List.findSome?_eq_none_iff] at h
  rw [examined, List.takeWhile_eq_self_iff]
  intro file hfile
  have hnone := h file hfile
  rw [Option.map_eq_none_iff] at hnone
  rw [hnone]
  rfl

/-- Where no directive is banned, all files are linted that are not left out. -/
theorem exists_run_of_visit {files : List SourceFile} {s s' : State σ} {es : List Event}
    (h : (visit lintFile isLatest root files).run s = (⟨es, .ok none⟩, s')) :
    ∃ es', Event.starts es = Event.starts es' ∧
      ((linted isLatest root files).forM lintFile).run s.engine = (⟨es', .ok ()⟩, s'.engine) := by
  rcases hrun : ((linted isLatest root (examined files)).forM lintFile).run s.engine
    with ⟨⟨es', r⟩, engine⟩
  obtain ⟨es₁, counts, hes₁, hvisit⟩ := run_visit hrun
  obtain ⟨ht, rfl⟩ := Prod.mk.inj (hvisit.symm.trans h)
  obtain ⟨rfl, hr⟩ := Traced.mk.inj ht
  obtain ⟨u, rfl, hreport⟩ := Except.map_eq_ok_iff.mp hr
  rw [examined_of_bannedReport? hreport] at hrun
  exact ⟨es', hes₁, hrun⟩

end Pass

end DeclLint
