/-
DeclLint/Proofs/Pass/Fault.lean

What a pass does not fail with.  A pass over releases that form a range may end in
many errors: of its project, of its configuration, of its compilers.  None of them
is about the range (`failsWithin_run`).  What building a program and loading a
configuration fail with is listed elsewhere, and only has to be looked through; each
other part of a pass has its own lemma, in the order in which a pass goes through them.
Only the choice of the compilers looks at the range at all.
-/
import DeclLint.Proofs.Config.Fault
import DeclLint.Proofs.Pass.Clean
import DeclLint.Proofs.Project.Fault

namespace DeclLint

/-- The error is not about the range of releases to test with. -/
def LintError.IsBesideRange : LintError → Prop
  | .invalidRange _ => False
  | .skippedFolder .. => False
  | _ => True

open LintError (IsBesideRange)

variable {σ : Type} {w : Workspace}

theorem LintError.failsWithin_atPath {α : Type} (p : Path) (r : Except AccessFault α) :
    (atPath p r).FailsWithin IsBesideRange :=
  Except.failsWithin_mapError fun _ _ => trivial

/-! ### The project -/

namespace Project

theorem EscapesReading.isBesideRange {file : Path} {e : LintError} (h : EscapesReading w file e) :
    e.IsBesideRange := by
  cases h <;> trivial

theorem EscapesSelecting.isBesideRange {root : Path} {s : Selection} {e : LintError}
    (h : EscapesSelecting w root s e) : e.IsBesideRange := by
  cases h <;> trivial

theorem IsBuildError.isBesideRange {file : Path} {e : LintError} (h : IsBuildError w file e) :
    e.IsBesideRange := by
  rcases h with ⟨fault, rfl⟩ | h | ⟨s, -, h⟩
  · trivial
  · exact h.isBesideRange
  · exact h.isBesideRange

end Project

/-! ### The configuration -/

namespace Config

theorem EscapesAt.isBesideRange {n : Nat} {p : Place} {e : LintError} (h : EscapesAt w n p e) :
    e.IsBesideRange := by
  cases h with
  | entry _ _ _ h => cases h <;> trivial
  | _ => trivial

theorem failsWithin_load (w : Workspace) (file : Path) :
    (load w file).FailsWithin IsBesideRange := by
  unfold load
  split
  · exact Traced.failsWithin_fail trivial
  · refine Traced.FailsWithin.bind (fun e he => ?_) fun _ _ => Traced.failsWithin_pure _
    rcases failsWithin_rulesAt w [] (w.resolve file).segments e he with
      ⟨fault, rfl⟩ | ⟨n, q, -, h⟩
    · trivial
    · exact h.isBesideRange

theorem failsWithin_installPath (w : Workspace) (version : String) (localBuild : Option String) :
    (Release.installPath w version localBuild).FailsWithin IsBesideRange := by
  unfold Release.installPath
  split
  · split
    · exact Except.failsWithin_error trivial
    · exact Except.failsWithin_ok _
  · refine Except.FailsWithin.map ?_ _
    unfold Release.installsDirectory
    split
    · exact Except.failsWithin_ok _
    · refine Except.FailsWithin.map ?_ _
      unfold Release.homeDirectory
      split
      · exact Except.failsWithin_error trivial
      · dsimp only
        split
        · exact Except.failsWithin_error trivial
        · exact Except.failsWithin_ok _

/-- Choosing the compilers does not fail because of a range that is one. -/
theorem failsWithin_active {low high : VersionArg} {releases : List Release}
    (hrange : Release.rangeOf low high = .ok releases) (w : Workspace) (preferred tsconfig : Path)
    (localBuild : Option String) :
    (active w preferred tsconfig low high localBuild).FailsWithin IsBesideRange := by
  refine (Traced.failsWithin_ofExcept (LintError.failsWithin_atPath _ _)).bind fun isThere _ => ?_
  refine (Traced.failsWithin_log _ _ _).bind fun _ _ => ?_
  refine (failsWithin_load w _).bind fun config _ => ?_
  split
  · rw [hrange]
    refine (Traced.failsWithin_ofExcept (Except.failsWithin_ok _)).bind fun _ _ => ?_
    refine (Traced.failsWithin_log _ _ _).bind fun _ _ => ?_
    refine (Traced.failsWithin_ofExcept ?_).bind fun _ _ => Traced.failsWithin_pure _
    exact Except.failsWithin_mapM fun _ _ => (failsWithin_installPath w _ localBuild).map _
  · exact Traced.failsWithin_fail trivial

end Config

/-! ### The compilers -/

theorem Compiler.failsWithin_check (compiler : Compiler) (w : Workspace) (install : String)
    (project : Path) : (compiler.check w install project).FailsWithin IsBesideRange := by
  refine (Traced.failsWithin_ofExcept (LintError.failsWithin_atPath _ _)).bind fun isThere _ => ?_
  split
  · refine (Traced.failsWithin_log _ _ _).bind fun _ _ => ?_
    refine (Traced.failsWithin_emit _).bind fun _ _ => Traced.failsWithin_ofExcept ?_
    generalize compiler _ = outcome
    cases outcome with
    | finished stdout stderr code =>
      dsimp only [Compiler.outputOf]
      split
      · exact Except.failsWithin_error trivial
      · exact Except.failsWithin_ok _
    | garbled | timedOut | noLauncher | refused | interrupted =>
      exact Except.failsWithin_error trivial
  · exact Traced.failsWithin_fail trivial

namespace Expect

theorem failsWithin_ofArguments (arguments : List RuleArgument) :
    (ExpectOptions.ofArguments arguments).FailsWithin IsBesideRange := by
  unfold ExpectOptions.ofArguments
  split
  · exact Except.failsWithin_error trivial
  · exact Except.failsWithin_ok _
  · exact Except.failsWithin_mapError fun _ _ => trivial

theorem failsWithin_diagnosticsOf (w : Workspace) (compiler : Compiler) (project : Path)
    (v : VersionToTest) : (diagnosticsOf w compiler project v).FailsWithin IsBesideRange := by
  refine Run.failsWithin_get.bind fun memo => ?_
  split
  · exact Run.failsWithin_pure _
  · refine (Run.failsWithin_lift (Traced.failsWithin_log _ _ _)).bind fun _ => ?_
    refine (Run.failsWithin_lift (compiler.failsWithin_check w _ _)).bind fun output => ?_
    refine (Run.failsWithin_lift (Traced.failsWithin_ofExcept ?_)).bind fun ds => ?_
    · exact Except.failsWithin_mapError fun _ _ => trivial
    · exact (Run.failsWithin_modify _).bind fun _ => Run.failsWithin_pure _

theorem failsWithin_firstReport (key : Key) : (firstReport key).FailsWithin IsBesideRange := by
  refine Run.failsWithin_get.bind fun memo => ?_
  split
  · exact Run.failsWithin_pure _
  · exact (Run.failsWithin_modify _).bind fun _ => Run.failsWithin_pure _

theorem failsWithin_rule (w : Workspace) (compiler : Compiler) (file : SourceFile)
    (arguments : List RuleArgument) :
    (rule w compiler file arguments).FailsWithin IsBesideRange := by
  refine (Run.failsWithin_lift
    (Traced.failsWithin_ofExcept (failsWithin_ofArguments arguments))).bind fun options => ?_
  refine (Run.failsWithin_mapM (fun v => ?_) _).bind fun _ => Run.failsWithin_pure _
  exact (failsWithin_diagnosticsOf w compiler _ v).bind fun _ =>
    (failsWithin_firstReport _).bind fun _ => Run.failsWithin_pure _

end Expect

/-! ### The rules -/

theorem failsWithin_builtinRules {compiler : Compiler} {name : String} {rule : Rule Expect.Memo}
    (h : builtinRules w compiler name = some rule) (file : SourceFile)
    (arguments : List RuleArgument) : (rule file arguments).FailsWithin IsBesideRange := by
  unfold builtinRules at h
  split at h
  · obtain rfl := Option.some.inj h
    exact Expect.failsWithin_rule w compiler file arguments
  · split at h
    · obtain rfl := Option.some.inj h
      exact Run.failsWithin_pure _
    · split at h
      · obtain rfl := Option.some.inj h
        exact Run.failsWithin_pure _
      · cases h

namespace Engine

theorem failsWithin_warnUnknown (name : LooseText) :
    (warnUnknown name : Run (Engine σ) Unit).FailsWithin IsBesideRange := by
  refine Run.failsWithin_get.bind fun e => ?_
  split
  · exact Run.failsWithin_pure _
  · exact (Run.failsWithin_modify _).bind fun _ =>
      Run.failsWithin_lift (Traced.failsWithin_log _ _ _)

theorem failsWithin_lint (w : Workspace) (compiler : Compiler) (rules : RuleTable)
    (file : SourceFile) :
    (lint (builtinRules w compiler) rules file).FailsWithin IsBesideRange := by
  refine Run.failsWithin_forM (fun e => ?_) rules
  unfold applyRule
  split
  · split
    · exact failsWithin_warnUnknown _
    · next rule hrule =>
      obtain ⟨name, -, hname⟩ := Option.bind_eq_some_iff.mp hrule
      exact ((failsWithin_builtinRules hname file _).zoom _ _).bind fun _ =>
        Run.failsWithin_modify _
  · exact Run.failsWithin_pure _

end Engine

/-! ### The pass -/

namespace Pass

variable {lintFile : SourceFile → Run σ Unit}

theorem failsWithin_checkDirectives (file : SourceFile) :
    (checkDirectives file : Run (State σ) (Option String)).FailsWithin IsBesideRange := by
  unfold checkDirectives
  split
  · exact (Run.failsWithin_modify _).bind fun _ => Run.failsWithin_pure _
  · refine (Run.failsWithin_modify _).bind fun _ => ?_
    split
    · exact Run.failsWithin_pure _
    · exact (Run.failsWithin_lift (Traced.failsWithin_log _ _ _)).bind fun _ =>
        Run.failsWithin_pure _

theorem failsWithin_applyRules (h : ∀ file, (lintFile file).FailsWithin IsBesideRange)
    (isLatest : Bool) (root : Path) (file : SourceFile) :
    (applyRules lintFile isLatest root file).FailsWithin IsBesideRange := by
  unfold applyRules
  split
  · exact (Run.failsWithin_modify _).bind fun _ =>
      Run.failsWithin_lift (Traced.failsWithin_log _ _ _)
  · exact ((h file).zoom _ _).bind fun _ => Run.failsWithin_modify _

theorem failsWithin_visit (h : ∀ file, (lintFile file).FailsWithin IsBesideRange)
    (isLatest : Bool) (root : Path) (files : List SourceFile) :
    (visit lintFile isLatest root files).FailsWithin IsBesideRange := by
  induction files with
  | nil => exact Run.failsWithin_pure _
  | cons file files ih =>
    refine (failsWithin_checkDirectives file).bind fun banned => ?_
    cases banned with
    | some report => exact Run.failsWithin_pure _
    | none => exact (failsWithin_applyRules h isLatest root file).bind fun _ => ih

theorem failsWithin_reportOf (format : Report.Format) (fs : List Failure) :
    (reportOf format fs).FailsWithin IsBesideRange := by
  refine Except.FailsWithin.bind (Except.failsWithin_mapError fun _ _ => trivial) fun _ _ => ?_
  exact Except.failsWithin_ok _

theorem failsWithin_lintProgram (host : Host) (config : LintConfig) (isLatest : Bool) (root : Path)
    (format : Report.Format) (p : Program) :
    (lintProgram host config isLatest root format p).FailsWithin IsBesideRange := by
  refine ((failsWithin_visit (Engine.failsWithin_lint _ _ config.rules) isLatest root
    (ownFiles p)).startingAt _).bind fun r _ => ?_
  obtain ⟨banned, s⟩ := r
  cases banned with
  | some report => exact Traced.failsWithin_pure _
  | none =>
    refine (Traced.failsWithin_ofExcept (failsWithin_reportOf _ _)).bind fun _ _ => ?_
    exact (Traced.failsWithin_log _ _ _).bind fun _ _ => Traced.failsWithin_pure _

theorem failsWithin_programOf (host : Host) (o : PassOptions) :
    (programOf host o).FailsWithin IsBesideRange := by
  unfold programOf
  split
  · exact Traced.failsWithin_pure _
  · exact fun e he => (Project.failsWithin_build _ _ e he).isBesideRange

theorem failsWithin_formatOf (name : String) : (formatOf name).FailsWithin IsBesideRange := by
  unfold formatOf
  split
  · exact Except.failsWithin_ok _
  · exact Except.failsWithin_error trivial

/-- **A pass over a range does not fail because of it.** -/
theorem failsWithin_run {o : PassOptions} {releases : List Release}
    (hrange : Release.rangeOf o.low o.high = .ok releases) (host : Host) :
    (run host o).FailsWithin IsBesideRange := by
  rw [run_eq]
  refine (failsWithin_programOf host o).bind fun program _ => ?_
  refine (Traced.failsWithin_ofExcept (failsWithin_formatOf _)).bind fun format _ => ?_
  refine (Config.failsWithin_active hrange _ _ _ _).bind fun config _ => ?_
  exact failsWithin_lintProgram host config o.isLatest _ format program

end Pass

end DeclLint
