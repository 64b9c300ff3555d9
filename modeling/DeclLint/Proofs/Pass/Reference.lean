/-
DeclLint/Proofs/Pass/Reference.lean

A pass compared with a simple reference.  A pass goes through its files in one
loop, which looks for banned directives, leaves out files and applies the rules;
the reference says beforehand which files the rules are applied to (`received`)
and which report a banned directive makes (`bannedReport?`), and does then one
after the other.

Nothing depends on which rules there are.  The pass is therefore stated for any
engine that applies rules to one file after the other (`Runner`), whatever state
it carries; `agrees_reference` compares it with the reference, and `run_eq_builtin`
shows that the pass with the engine that comes with the linter is the one that is
run.
-/
import DeclLint.Proofs.Pass.Clean

namespace DeclLint.Pass

variable {σ : Type}

/-! ### Passes with any engine -/

/-- An engine: it applies the rules of a configuration to one file after the other, and gives the
failures and their report at the end. -/
structure Runner (σ : Type) where
  lint : LintConfig → SourceFile → Run σ Unit
  result : Run σ (List Failure × String)

/-- The engine that comes with the linter. -/
def builtin (host : Host) (format : Report.Format) : Runner (Engine Expect.Memo) where
  lint config := Engine.lint (builtinRules host.workspace host.compiler) config.rules
  result := do
    let e ← Run.get
    let text ← Traced.ofExcept ((format.render e.failures).mapError .excess)
    return (e.failures, text)

/-- An engine that only notes what it is called with. -/
def recorder : Runner (List (LintConfig × SourceFile)) where
  lint config file := Run.modify (· ++ [(config, file)])
  result := return ([], "")

/-- The report of the failures of an engine: none if there are none. -/
def reportOfResult (r : List Failure × String) : Option String :=
  if r.1.isEmpty then none else some r.2

/-- Goes through files with counts that start at the given ones, next to the state of the engine. -/
def countingFrom {α : Type} (counts : Counts) (x : Run (State σ) α) : Run σ (α × Counts) :=
  ⟨fun e =>
    let (t, s) := x.run ⟨e, counts⟩
    (⟨t.events, t.result.map fun a => (a, s.counts)⟩, s.engine)⟩

/-- Goes through a program with an engine. -/
def lintProgramWith (runner : Runner σ) (config : LintConfig) (isLatest : Bool) (root : Path)
    (p : Program) : Run σ (Option String) := do
  let (banned, counts) ← countingFrom (initialCounts p)
    (visit (runner.lint config) isLatest root (ownFiles p))
  match banned with
  | some report => return some report
  | none =>
    let r ← runner.result
    Traced.log .info .passes (finishText root counts)
    return reportOfResult r

/-- A lint pass with an engine. -/
def runWith (host : Host) (o : PassOptions) (runner : Runner σ) : Run σ (Option String) := do
  let program ← programOf host o
  let config ← Config.active host.workspace (preferredConfig host o) (descriptionOf host o)
    o.low o.high o.localBuild
  lintProgramWith runner config o.isLatest (rootOf host o) program

/-! ### The reference -/

/-- The files that an engine receives: those before the first one with a banned directive that are
not left to other passes. -/
def received (isLatest : Bool) (root : Path) (files : List SourceFile) : List SourceFile :=
  linted isLatest root (examined files)

/-- What a pass comes to: its engine receives files; then a banned directive is reported, or else
what the engine has found. -/
def reference (runner : Runner σ) (config : LintConfig) (isLatest : Bool) (root : Path)
    (files : List SourceFile) : Run σ (Option String) := do
  (received isLatest root files).forM (runner.lint config)
  match bannedReport? files with
  | some report => return some report
  | none => return reportOfResult (← runner.result)

theorem agrees_lintProgramWith (runner : Runner σ) (config : LintConfig) (isLatest : Bool)
    (root : Path) (p : Program) :
    (lintProgramWith runner config isLatest root p).Agrees
      (reference runner config isLatest root (ownFiles p)) := by
  intro e
  rcases hforM : ((received isLatest root (ownFiles p)).forM (runner.lint config)).run e
    with ⟨⟨es, r⟩, e'⟩
  obtain ⟨es', counts, hstarts, hvisit⟩ := run_visit (s := ⟨e, initialCounts p⟩) hforM
  have hcounting : (countingFrom (initialCounts p)
      (visit (runner.lint config) isLatest root (ownFiles p))).run e =
      (⟨es', r.map fun _ => (bannedReport? (ownFiles p), counts)⟩, e') := by
    simp only [countingFrom, hvisit]
    cases r <;> rfl
  cases r with
  | error f =>
    rw [lintProgramWith, reference, Run.run_bind_error hcounting, Run.run_bind_error hforM]
    exact ⟨rfl, hstarts, rfl⟩
  | ok u =>
    refine Run.Agrees.sameOutcome_bind ?_ hcounting hforM hstarts
    show Run.Agrees (match bannedReport? (ownFiles p) with
      | some report => pure (some report)
      | none => _) _
    cases bannedReport? (ownFiles p) with
    | some report => exact .refl _
    | none =>
      refine Run.Agrees.bind_right fun r => ?_
      exact Run.agrees_of_quiet (Traced.quiet_log _ _ _) rfl

/-! ### The pass that is run -/

/-- The engine that comes with the linter has a result if its failures can be written. -/
theorem run_result_builtin (host : Host) (format : Report.Format) (e : Engine Expect.Memo) :
    (builtin host format).result.run e =
      (⟨[], ((format.render e.failures).mapError .excess).map fun text => (e.failures, text)⟩,
        e) := by
  refine (Run.run_get_bind _ e).trans ?_
  cases format.render e.failures with
  | error x => rfl
  | ok text => rfl

/-- What that engine has found is reported, if it can be written, before the counts are logged. -/
theorem run_end_builtin (host : Host) (format : Report.Format) (root : Path) (counts : Counts)
    (e : Engine Expect.Memo) :
    Run.run (do
      let r ← (builtin host format).result
      Traced.log .info .passes (finishText root counts)
      return reportOfResult r) e =
    (do
      let report ← Traced.ofExcept (reportOf format e.failures)
      Traced.log .info .passes (finishText root counts)
      return report, e) := by
  have hresult := run_result_builtin host format e
  unfold reportOf
  cases hrender : format.render e.failures with
  | error x =>
    rw [hrender] at hresult
    exact Run.run_bind_error hresult
  | ok text =>
    rw [hrender] at hresult
    exact Run.run_bind_of_ok hresult rfl

theorem lintProgram_eq_builtin (host : Host) (config : LintConfig) (isLatest : Bool) (root : Path)
    (format : Report.Format) (p : Program) :
    lintProgram host config isLatest root format p =
      ((lintProgramWith (builtin host format) config isLatest root p).run
        (Engine.start Expect.Memo.empty)).1 := by
  let visited := visit (Engine.lint (builtinRules host.workspace host.compiler) config.rules)
    isLatest root (ownFiles p)
  rcases hvisit : visited.run ⟨Engine.start Expect.Memo.empty, initialCounts p⟩ with ⟨⟨es, r⟩, s⟩
  have hstart : visited.startingAt ⟨Engine.start Expect.Memo.empty, initialCounts p⟩ =
      ⟨es, r.map fun banned => (banned, s)⟩ := by
    simp only [Run.startingAt, hvisit]
  have hcounting : (countingFrom (initialCounts p) visited).run (Engine.start Expect.Memo.empty) =
      (⟨es, r.map fun banned => (banned, s.counts)⟩, s.engine) := by
    simp only [countingFrom, hvisit]
  show visited.startingAt _ >>= _ = ((countingFrom _ visited >>= _).run _).1
  cases r with
  | error f =>
    rw [hstart, Run.run_bind_error hcounting]
    rfl
  | ok banned =>
    rw [hstart, Run.run_bind_ok hcounting]
    cases banned with
    | some report => rfl
    | none =>
      have hend := run_end_builtin host format root s.counts s.engine
      exact congrArg (fun x => (⟨es ++ x.1.events, x.1.result⟩ : Traced (Option String))) hend.symm

theorem run_eq_builtin {host : Host} {o : PassOptions} {format : Report.Format}
    (hformat : formatOf o.format = .ok format) :
    run host o =
      ((runWith host o (builtin host format)).run (Engine.start Expect.Memo.empty)).1 := by
  rw [run_eq, hformat]
  have hprogram := Run.fst_run_lift_bind (programOf host o) (fun program => do
    let config ← Config.active host.workspace (preferredConfig host o) (descriptionOf host o)
      o.low o.high o.localBuild
    lintProgramWith (builtin host format) config o.isLatest (rootOf host o) program)
    (Engine.start Expect.Memo.empty)
  refine Eq.trans ?_ hprogram.symm
  refine congrArg (programOf host o >>= ·) (funext fun program => ?_)
  refine Eq.trans ?_ (Run.fst_run_lift_bind _ _ _).symm
  refine congrArg (Config.active _ _ _ _ _ _ >>= ·) (funext fun config => ?_)
  exact lintProgram_eq_builtin host config o.isLatest (rootOf host o) format program

theorem agrees_reference {host : Host} {o : PassOptions} {p : Program} {config : LintConfig}
    (hp : (programOf host o).result = .ok p)
    (hconfig : (Config.active host.workspace (preferredConfig host o) (descriptionOf host o)
      o.low o.high o.localBuild).result = .ok config) (runner : Runner σ) :
    (runWith host o runner).Agrees
      (reference runner config o.isLatest (rootOf host o) (ownFiles p)) := by
  have hprogram := Run.agrees_of_quiet (f := fun program => do
    let config ← Config.active host.workspace (preferredConfig host o) (descriptionOf host o)
      o.low o.high o.localBuild
    lintProgramWith runner config o.isLatest (rootOf host o) program) (quiet_programOf host o) hp
  refine hprogram.trans ?_
  refine (Run.agrees_of_quiet (Config.quiet_active _ _ _ _ _ _) hconfig).trans ?_
  exact agrees_lintProgramWith runner config o.isLatest (rootOf host o) p

/-- The recorder notes what it receives, in order. -/
theorem run_forM_recorder (config : LintConfig) (files : List SourceFile)
    (log : List (LintConfig × SourceFile)) :
    (files.forM (recorder.lint config)).run log =
      (⟨[], .ok ()⟩, log ++ files.map (config, ·)) := by
  induction files generalizing log with
  | nil => exact Prod.ext rfl (List.append_nil log).symm
  | cons file files ih =>
    have hfile : (recorder.lint config file).run log =
      (⟨[], .ok ()⟩, log ++ [(config, file)]) := rfl
    have hrun := Run.run_bind_of_ok (f := fun _ => files.forM (recorder.lint config)) hfile (ih _)
    rw [List.append_assoc] at hrun
    exact hrun

theorem state_reference_recorder (config : LintConfig) (isLatest : Bool) (root : Path)
    (files : List SourceFile) (log : List (LintConfig × SourceFile)) :
    ((reference recorder config isLatest root files).run log).2 =
      log ++ (received isLatest root files).map (config, ·) := by
  rw [reference, Run.run_bind_ok (run_forM_recorder config _ log)]
  cases bannedReport? files with
  | some report => rfl
  | none => rfl

/-- **A pass does what the reference does**, for any program, any configuration and any engine: the
engine receives exactly the files before the first one with a banned directive that are not left
out, in order, each once.  If no call of it ends in an error, the result is the report of that
directive, whatever the engine has found by then, and where there is none, what the engine has
found at the end.  The pass that is run is the one with the engine that comes with the linter. -/
theorem runs_as_reference {host : Host} {o : PassOptions} {p : Program} {config : LintConfig}
    (hp : (programOf host o).result = .ok p)
    (hconfig : (Config.active host.workspace (preferredConfig host o) (descriptionOf host o)
      o.low o.high o.localBuild).result = .ok config) :
    (∀ (σ : Type) (runner : Runner σ), (runWith host o runner).Agrees
      (reference runner config o.isLatest (rootOf host o) (ownFiles p))) ∧
    (∀ log, ((runWith host o recorder).run log).2 =
      log ++ (received o.isLatest (rootOf host o) (ownFiles p)).map (config, ·)) ∧
    ∀ format, formatOf o.format = .ok format →
      run host o =
        ((runWith host o (builtin host format)).run (Engine.start Expect.Memo.empty)).1 := by
  refine ⟨fun σ runner => agrees_reference hp hconfig runner, fun log => ?_,
    fun format hformat => run_eq_builtin hformat⟩
  have hstate := (agrees_reference hp hconfig recorder log).state
  rw [hstate, state_reference_recorder]

/-- A program with a library file, a dependency, a file of a version folder, and a file with a
banned directive before the last one. -/
def mixedProgram : Program where
  files :=
    [⟨"/lib/lib.d.ts", "// @ts-ignore"⟩, ⟨"/p/node_modules/d/index.d.ts", "// @ts-ignore"⟩,
      ⟨"/p/ts5.5/index.d.ts", ""⟩, ⟨"/p/a.ts", ""⟩, ⟨"/p/b.ts", "// @ts-ignore"⟩, ⟨"/p/c.ts", ""⟩]
  defaultLibrary := ["/lib/lib.d.ts"]

/-- The options for a pass over it for the newest compilers. -/
def mixedOptions : PassOptions :=
  { sampleOptions with isLatest := true, program := some mixedProgram }

theorem runs_as_reference_mixed :
    (programOf noFilesHost mixedOptions).result = .ok mixedProgram ∧
    ∃ config, (Config.active noFilesHost.workspace (preferredConfig noFilesHost mixedOptions)
        (descriptionOf noFilesHost mixedOptions) mixedOptions.low mixedOptions.high
        mixedOptions.localBuild).result = .ok config ∧
      (∀ (σ : Type) (runner : Runner σ), (runWith noFilesHost mixedOptions runner).Agrees
        (reference runner config true (rootOf noFilesHost mixedOptions) (ownFiles mixedProgram))) ∧
      (∀ log, ((runWith noFilesHost mixedOptions recorder).run log).2 =
        log ++ (received true (rootOf noFilesHost mixedOptions) (ownFiles mixedProgram)).map
          (config, ·)) ∧
      ∀ format, formatOf mixedOptions.format = .ok format →
        run noFilesHost mixedOptions =
          ((runWith noFilesHost mixedOptions (builtin noFilesHost format)).run
            (Engine.start Expect.Memo.empty)).1 := by
  have hactive : (Config.active noFilesHost.workspace (preferredConfig noFilesHost mixedOptions)
      (descriptionOf noFilesHost mixedOptions) mixedOptions.low mixedOptions.high
      mixedOptions.localBuild).result.toOption.isSome := by
    decide +kernel
  obtain ⟨config, hconfig⟩ := Option.isSome_iff_exists.mp hactive
  have hconfig := Except.toOption_eq_some_iff.mp hconfig
  exact ⟨rfl, config, hconfig, runs_as_reference rfl hconfig⟩

-- the file of the version folder is left out, and nothing is received from the banned one on
example : (received true (rootOf noFilesHost mixedOptions) (ownFiles mixedProgram)).map (·.name) =
    ["/p/node_modules/d/index.d.ts", "/p/a.ts"] := by
  decide +kernel

end DeclLint.Pass
