/-
DeclLint/Proofs/Pass/Finding.lean

What a pass finds.  A pass that gets through ends clean, with a banned directive
or with the failures that its engine has recorded (`Finding`).  That much is
settled before a format is chosen: `finding` is computed from the reference of
the pass, without rendering anything, and the report of the pass is its finding
written in the format (`result_run`).  As failures never make an empty report,
a pass has a report exactly if it does not end clean, in every format that its
finding can be written in.
-/
import DeclLint.Proofs.Pass.Reference
import DeclLint.Proofs.Report

namespace DeclLint.Pass

/-! ### Findings -/

/-- What a pass that gets through comes to. -/
inductive Finding where
  | clean
  /-- The first banned directive, with its file. -/
  | banned (file : SourceFile) (o : Directive.Occurrence)
  /-- The recorded failures, of which there is at least one. -/
  | failures (f : Failure) (fs : List Failure)
deriving DecidableEq

/-- The first file with a banned directive, and the directive. -/
def firstBanned? (files : List SourceFile) : Option (SourceFile × Directive.Occurrence) :=
  files.findSome? fun file => (banned? file).map (file, ·)

namespace Finding

/-- The finding in files for which an engine has recorded failures. -/
def of (files : List SourceFile) (fs : List Failure) : Finding :=
  match firstBanned? files, fs with
  | some (file, o), _ => .banned file o
  | none, [] => .clean
  | none, f :: fs => .failures f fs

/-- The report of a finding in a format: none where there is nothing to report.  Failures may be
such that they cannot be written. -/
def report (format : Report.Format) : Finding → Except LintError (Option String)
  | clean => .ok none
  | banned file o => .ok (some (bannedLine file o))
  | failures f fs => ((format.render (f :: fs)).mapError .excess).map some

theorem of_eq_clean_iff {files : List SourceFile} {fs : List Failure} :
    of files fs = clean ↔ firstBanned? files = none ∧ fs = [] := by
  unfold of
  split
  · next h => simp [h]
  · next h => simp [h]
  · simp

/-- A finding is reported, unless it cannot be written in the format. -/
theorem report_cases {x : Finding} (h : x ≠ clean) (format : Report.Format) :
    (∃ text, x.report format = .ok (some text) ∧ text ≠ "") ∨
      ∃ e, x.report format = .error (.excess e) := by
  cases x with
  | clean => contradiction
  | banned file o => exact .inl ⟨_, rfl, Report.directiveLine_ne_empty _ _ _ _⟩
  | failures f fs =>
    rw [report]
    cases htext : format.render (f :: fs) with
    | ok text => exact .inl ⟨text, rfl, Report.Format.render_ne_empty htext (List.cons_ne_nil f fs)⟩
    | error e => exact .inr ⟨e, rfl⟩

end Finding

theorem bannedReport?_eq (files : List SourceFile) :
    bannedReport? files = (firstBanned? files).map fun p => bannedLine p.1 p.2 := by
  rw [bannedReport?, firstBanned?, List.map_findSome?]
  simp only [Option.map_map, Function.comp_def]

theorem report_of (format : Report.Format) (files : List SourceFile) (fs : List Failure) :
    (Finding.of files fs).report format =
      match bannedReport? files with
      | some report => .ok (some report)
      | none => reportOf format fs := by
  rw [bannedReport?_eq]
  unfold Finding.of
  rcases firstBanned? files with - | ⟨file, o⟩
  · cases fs with
    | nil =>
      obtain ⟨text, htext⟩ := format.exists_render_nil
      dsimp only [Option.map_none]
      rw [reportOf, htext]
      rfl
    | cons f fs =>
      dsimp only [Option.map_none]
      rw [reportOf, Finding.report]
      cases format.render (f :: fs) with
      | ok text => rfl
      | error e => rfl
  · rfl

/-! ### What a pass asks of its engine -/

/-- The rules of the configuration for one file after the other. -/
def lintReceived (host : Host) (o : PassOptions) : Run (Engine Expect.Memo) Program := do
  let p ← programOf host o
  let config ← Config.active host.workspace (preferredConfig host o) (descriptionOf host o)
    o.low o.high o.localBuild
  (received o.isLatest (rootOf host o) (ownFiles p)).forM
    (Engine.lint (builtinRules host.workspace host.compiler) config.rules)
  return p

/-- How that ends, with the engine that is left behind. -/
def lintedFrom (host : Host) (o : PassOptions) : Traced Program × Engine Expect.Memo :=
  (lintReceived host o).run (Engine.start Expect.Memo.empty)

/-- The failures that a pass has recorded by its end, also where that is an error: those of its
engine (`failures_runWith`). -/
def recorded (host : Host) (o : PassOptions) : List Failure :=
  (lintedFrom host o).2.failures

/-- What a pass finds, or the error that ends it. -/
def finding (host : Host) (o : PassOptions) : Except LintError Finding :=
  (lintedFrom host o).1.result.map fun p => Finding.of (ownFiles p) (recorded host o)

/-- What a pass does after its engine has seen the files. -/
def conclude (format : Report.Format) (p : Program) : Run (Engine Expect.Memo) (Option String) := do
  let e ← Run.get
  Traced.ofExcept ((Finding.of (ownFiles p) e.failures).report format)

theorem agrees_lintReceived (host : Host) (o : PassOptions) (format : Report.Format) :
    (runWith host o (builtin host format)).Agrees (lintReceived host o >>= conclude format) := by
  unfold runWith lintReceived
  rw [bind_assoc]
  refine Run.Agrees.bind_right fun p => ?_
  rw [bind_assoc]
  refine Run.Agrees.bind_right fun config => ?_
  rw [bind_assoc]
  refine (agrees_lintProgramWith _ config o.isLatest (rootOf host o) p).trans ?_
  refine Run.Agrees.bind_right fun _ => ?_
  intro e
  have hconclude : (conclude format p).run e =
      (Traced.ofExcept ((Finding.of (ownFiles p) e.failures).report format), e) :=
    Run.run_get_bind _ e
  rw [pure_bind, hconclude, report_of]
  cases bannedReport? (ownFiles p) with
  | some report => exact ⟨rfl, rfl, rfl⟩
  | none =>
    have hresult := run_result_builtin host format e
    unfold reportOf
    cases hrender : format.render e.failures with
    | error x =>
      rw [hrender] at hresult
      dsimp only
      rw [Run.run_bind_error hresult]
      exact ⟨rfl, rfl, rfl⟩
    | ok text =>
      rw [hrender] at hresult
      dsimp only
      rw [Run.run_bind_ok hresult]
      exact ⟨rfl, rfl, rfl⟩

/-- The engine of a pass ends with the failures recorded. -/
theorem failures_runWith (host : Host) (o : PassOptions) (format : Report.Format) :
    ((runWith host o (builtin host format)).run (Engine.start Expect.Memo.empty)).2.failures =
      recorded host o := by
  rw [(agrees_lintReceived host o format (Engine.start Expect.Memo.empty)).state]
  rcases h : (lintReceived host o).run (Engine.start Expect.Memo.empty) with ⟨⟨es, r⟩, e⟩
  have hrecorded : recorded host o = e.failures := by
    rw [recorded, lintedFrom, h]
  rw [hrecorded]
  cases r with
  | error f => rw [Run.run_bind_error h]
  | ok p =>
    rw [Run.run_bind_ok h]
    rfl

/-- **The report of a pass is its finding, written in the format.** -/
theorem result_run {host : Host} {o : PassOptions} {format : Report.Format}
    (hformat : formatOf o.format = .ok format) :
    (run host o).result = finding host o >>= Finding.report format := by
  rw [run_eq_builtin hformat,
    (agrees_lintReceived host o format (Engine.start Expect.Memo.empty)).result]
  rcases h : (lintReceived host o).run (Engine.start Expect.Memo.empty) with ⟨⟨es, r⟩, e⟩
  rw [finding, recorded, lintedFrom, h]
  cases r with
  | error f => rw [Run.run_bind_error h]; rfl
  | ok p => rw [Run.run_bind_ok h]; rfl

/-- The format is of no account for what is found. -/
theorem finding_withFormat (host : Host) (o : PassOptions) (format : String) :
    finding host { o with format := format } = finding host o := rfl

end DeclLint.Pass
