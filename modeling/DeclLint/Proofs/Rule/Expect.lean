/-
DeclLint/Proofs/Rule/Expect.lean

The rule `expect` and its memory.  `compiled` is what one compiler says about a
project, and `failuresIn` are the failures that a file has then.  Whatever the
rule remembers is *valid*: it holds what the compilers said, and the compilers
that are remembered are the ones whose diagnostics about the whole project are
reported (`Memo.Valid`).  From a valid memory, applying the rule for one
compiler is one of two steps:

* a compiler that is remembered is not run again (`run_applyVersion_of_mem`);
* any other one is run, and remembered if it can be (`run_applyVersion_of_notMem`).

Both are equations, so they say what happens when a compiler fails as well.
What follows them is the run over all compilers of a range (`Applied`): those
that are not remembered yet are started, each once and in their order.
-/
import DeclLint.Proofs.Result
import DeclLint.Proofs.Table
import DeclLint.Proofs.Trace
import DeclLint.Rule.Expect

namespace DeclLint

namespace Expect

variable {w : Workspace} {compiler : Compiler} {project : Path} {file : SourceFile}

/-! ### What a compiler says -/

/-- The start of a compiler for a project. -/
def startOf (project : Path) (install : String) : CompilerStart :=
  ⟨Compiler.scriptPath install, project⟩

theorem compilerCheck_of_there {install : String}
    (h : w.isFile (Compiler.scriptPath install) = .ok true) :
    compiler.check w install project =
      ⟨[.logged ⟨.debug, Component.expectRule.logger,
          "Running " ++ " ".intercalate (startOf project install).command⟩,
        .started (startOf project install)],
        Compiler.outputOf (Compiler.scriptPath install) (compiler (startOf project install))⟩ := by
  unfold Compiler.check
  dsimp only
  rw [h]
  rfl

theorem compilerCheck_of_notThere (compiler : Compiler) (project : Path) {install : String}
    (h : w.isFile (Compiler.scriptPath install) ≠ .ok true) :
    ∃ e, compiler.check w install project = ⟨[], .error e⟩ := by
  unfold Compiler.check
  dsimp only
  rcases hthere : w.isFile (Compiler.scriptPath install) with f | _ | _
  · exact ⟨_, rfl⟩
  · exact ⟨_, rfl⟩
  · exact absurd hthere h

/-- Running a compiler for a project, and reading what it prints. -/
@[irreducible] def check (w : Workspace) (compiler : Compiler) (project : Path) (install : String) :
    Traced (List Diagnostic) := do
  let output ← compiler.check w install project
  Traced.ofExcept ((Diagnostic.read project.parent output).mapError .excess)

/-- What a compiler says about a project. -/
def compiled (w : Workspace) (compiler : Compiler) (project : Path) (install : String) :
    Except LintError (List Diagnostic) :=
  (check w compiler project install).result

/-- A compiler that says something was started once, and finished with an output that says it. -/
theorem check_eq_ok_iff {install : String} {es : List Event} {ds : List Diagnostic} :
    check w compiler project install = ⟨es, .ok ds⟩ ↔
      ∃ output, compiler.check w install project = ⟨es, .ok output⟩ ∧
        Diagnostic.read project.parent output = .ok ds := by
  unfold check
  rw [Traced.bind_eq_ok_iff]
  constructor
  · rintro ⟨es, output, fs, hcheck, hread, rfl⟩
    obtain ⟨hds, rfl⟩ := Traced.ofExcept_eq_ok_iff.mp hread
    exact ⟨output, by rw [List.append_nil, hcheck], Except.mapError_eq_ok_iff.mp hds⟩
  · rintro ⟨output, hcheck, hread⟩
    refine ⟨es, output, [], hcheck, Traced.ofExcept_eq_ok_iff.mpr ⟨?_, rfl⟩, ?_⟩
    · exact Except.mapError_eq_ok_iff.mpr hread
    · exact (List.append_nil es).symm

theorem compiled_eq_ok_iff {install : String} {ds : List Diagnostic} :
    compiled w compiler project install = .ok ds ↔
      w.isFile (Compiler.scriptPath install) = .ok true ∧
      ∃ output, Compiler.outputOf (Compiler.scriptPath install)
          (compiler (startOf project install)) = .ok output ∧
        Diagnostic.read project.parent output = .ok ds := by
  rw [compiled, Traced.result_eq_ok_iff]
  by_cases hthere : w.isFile (Compiler.scriptPath install) = .ok true
  -- the script exists: it is run, and its output decides
  · simp only [check_eq_ok_iff, compilerCheck_of_there hthere, Traced.mk.injEq]
    constructor
    · rintro ⟨es, output, ⟨-, hout⟩, hread⟩
      exact ⟨hthere, output, hout, hread⟩
    · rintro ⟨-, output, hout, hread⟩
      exact ⟨_, output, ⟨rfl, hout⟩, hread⟩
  -- without a script nothing is run, and nothing is said
  · obtain ⟨e, he⟩ := compilerCheck_of_notThere compiler project hthere
    simp only [check_eq_ok_iff, he]
    constructor
    · rintro ⟨es, output, h, -⟩
      cases h
    · rintro ⟨h, -⟩
      exact absurd h hthere

/-- A compiler that finishes was started once. -/
theorem starts_of_finished {install : String} {es : List Event} {output : String}
    (h : compiler.check w install project = ⟨es, .ok output⟩) :
    Event.starts es = [startOf project install] := by
  by_cases hthere : w.isFile (Compiler.scriptPath install) = .ok true
  · rw [compilerCheck_of_there hthere] at h
    obtain ⟨rfl, -⟩ := Traced.mk.inj h
    rfl
  · obtain ⟨e, he⟩ := compilerCheck_of_notThere compiler project hthere
    rw [he] at h
    cases h

theorem starts_check {install : String} {ds : List Diagnostic}
    (h : compiled w compiler project install = .ok ds) :
    (check w compiler project install).starts = [startOf project install] := by
  obtain ⟨es, hes⟩ := Traced.result_eq_ok_iff.mp h
  obtain ⟨output, hcheck, -⟩ := check_eq_ok_iff.mp hes
  rw [hes]
  exact starts_of_finished hcheck

/-- A compiler with an output that cannot be read says nothing. -/
theorem check_of_unreadable {install : String} {es : List Event} {output : String}
    {excess : Excess} (h : compiler.check w install project = ⟨es, .ok output⟩)
    (hread : Diagnostic.read project.parent output = .error excess) :
    check w compiler project install = ⟨es, .error (.excess excess)⟩ := by
  unfold check
  rw [h, Traced.bind_ok, hread]
  exact Traced.ext (List.append_nil es) rfl

/-! ### What is remembered -/

/-- The key that the diagnostics of a compiler are kept under. -/
def keyOf (project : Path) (v : VersionToTest) : Key :=
  (project, v.path)

/-- The memory holds what compilers said, and the diagnostics about the whole project of exactly
these are reported. -/
structure Memo.Valid (w : Workspace) (compiler : Compiler) (m : Memo) : Prop where
  sound : ∀ key ds, m.diagnostics.get? key = some ds → compiled w compiler key.1 key.2 = .ok ds
  reported : m.reported = m.diagnostics.keys

theorem Memo.valid_empty : Memo.empty.Valid w compiler :=
  ⟨fun _ _ h => (nomatch h), rfl⟩

/-- The memory with one more compiler. -/
def Memo.remember (m : Memo) (key : Key) (ds : List Diagnostic) : Memo :=
  ⟨m.diagnostics.put key ds, m.reported ++ [key]⟩

theorem Memo.Valid.remember {m : Memo} (hm : m.Valid w compiler) {key : Key}
    {ds : List Diagnostic} (hkey : key ∉ m.reported)
    (hds : compiled w compiler key.1 key.2 = .ok ds) : (m.remember key ds).Valid w compiler where
  sound := by
    intro key' ds' h
    -- the new entry is what the compiler said just now, the others are as before
    by_cases hk : key' = key
    · subst hk
      obtain rfl := Option.some.inj ((Table.get?_put_self _ _ _).symm.trans h)
      exact hds
    · exact hm.sound key' ds' ((Table.get?_put_of_ne hk ds).symm.trans h)
  reported := by
    have hnew : key ∉ m.diagnostics.keys := hm.reported ▸ hkey
    show m.reported ++ [key] = (m.diagnostics.put key ds).keys
    rw [Table.keys_put, if_neg hnew, hm.reported]

/-- What the log says before a compiler is run. -/
def announcement (project : Path) (v : VersionToTest) : LogRecord :=
  ⟨.info, Component.expectRule.logger,
    "Type-checking " ++ project.toString ++ " with TypeScript " ++ v.versionName⟩

theorem run_diagnosticsOf_of_some {m : Memo} {v : VersionToTest} {ds : List Diagnostic}
    (h : m.diagnostics.get? (keyOf project v) = some ds) :
    (diagnosticsOf w compiler project v).run m = (⟨[], .ok ds⟩, m) := by
  have hget : m.diagnostics.get? (project, v.path) = some ds := h
  simp only [diagnosticsOf, Run.run_get_bind, hget]
  rfl

/-- A compiler that is not remembered is run, and remembered if it says something. -/
theorem run_diagnosticsOf_of_none {m : Memo} {v : VersionToTest}
    (h : m.diagnostics.get? (keyOf project v) = none) :
    (diagnosticsOf w compiler project v).run m =
      (⟨[.logged (announcement project v)] ++ (check w compiler project v.path).events,
          compiled w compiler project v.path⟩,
        match compiled w compiler project v.path with
        | .ok ds => { m with diagnostics := m.diagnostics.put (keyOf project v) ds }
        | .error _ => m) := by
  have hget : m.diagnostics.get? (project, v.path) = none := h
  -- reading the output belongs to running the compiler
  have hcheck : ∀ f : List Diagnostic → Run Memo (List Diagnostic),
      (do
        let output ← Run.lift (compiler.check w v.path project)
        let ds ← Run.lift
          (Traced.ofExcept ((Diagnostic.read project.parent output).mapError .excess))
        f ds) = Run.lift (check w compiler project v.path) >>= f := by
    intro f
    unfold check
    exact Run.lift_bind_bind (compiler.check w v.path project) _ f
  have hlog : (Run.lift (Traced.log .info .expectRule
      ("Type-checking " ++ project.toString ++ " with TypeScript " ++ v.versionName))).run m =
        (⟨[.logged (announcement project v)], .ok ()⟩, m) := rfl
  unfold compiled
  simp only [diagnosticsOf, Run.run_get_bind, hget, liftM, monadLift, MonadLift.monadLift, hcheck]
  rw [Run.run_bind_ok hlog]
  rcases check w compiler project v.path with ⟨es, e | ds⟩
  · rfl
  · have hlift : (Run.lift ⟨es, .ok ds⟩ : Run Memo (List Diagnostic)).run m =
        (⟨es, .ok ds⟩, m) := rfl
    rw [Run.run_bind_ok hlift]
    exact Prod.ext (Traced.ext (congrArg (_ ++ ·) (List.append_nil es)) rfl) rfl

/-! ### One compiler -/

/-- The failures of a file under one compiler, where `first` says that the diagnostics about the
whole project are still to be reported. -/
def failuresIn (file : SourceFile) (v : VersionToTest) (first : Bool) (ds : List Diagnostic) :
    List Failure :=
  (if first then projectFailures file v ds else []) ++
    (unexpectedFailures file v ds ++ missingFailures file v ds)

/-- A compiler that is remembered is not run again. -/
theorem run_applyVersion_of_mem (file : SourceFile) {m : Memo} (hm : m.Valid w compiler)
    {v : VersionToTest} (hv : keyOf project v ∈ m.reported) :
    ∃ ds, compiled w compiler project v.path = .ok ds ∧
      (applyVersion w compiler project file v).run m =
        (⟨[], .ok (failuresIn file v false ds)⟩, m) := by
  obtain ⟨ds, hds⟩ := Table.exists_get?_of_mem (hm.reported ▸ hv)
  refine ⟨ds, hm.sound (keyOf project v) ds hds, ?_⟩
  have hfirst : (firstReport (project, v.path)).run m = (⟨[], .ok false⟩, m) := by
    rw [firstReport, Run.run_get_bind, if_pos (show (project, v.path) ∈ m.reported from hv)]
    rfl
  rw [applyVersion, Run.run_bind_ok (run_diagnosticsOf_of_some hds), Run.run_bind_ok hfirst]
  rfl

/-- Any other compiler is run; if it says something, that is remembered, and the diagnostics about
the whole project are reported. -/
theorem run_applyVersion_of_notMem (file : SourceFile) {m : Memo} (hm : m.Valid w compiler)
    {v : VersionToTest} (hv : keyOf project v ∉ m.reported) :
    (applyVersion w compiler project file v).run m =
      (⟨[.logged (announcement project v)] ++ (check w compiler project v.path).events,
          (compiled w compiler project v.path).map (failuresIn file v true)⟩,
        match compiled w compiler project v.path with
        | .ok ds => m.remember (keyOf project v) ds
        | .error _ => m) := by
  have hnone : m.diagnostics.get? (keyOf project v) = none :=
    Table.get?_eq_none_iff.mpr (hm.reported ▸ hv)
  have hrun : (diagnosticsOf w compiler project v).run m = _ := run_diagnosticsOf_of_none hnone
  rcases hds : compiled w compiler project v.path with e | ds
  -- a compiler that fails ends the rule before anything is reported
  · rw [hds] at hrun
    exact Run.run_bind_error hrun
  · rw [hds] at hrun
    have hfirst : ∀ diagnostics : Table Key (List Diagnostic),
        (firstReport (project, v.path)).run { m with diagnostics } =
          (⟨[], .ok true⟩, ⟨diagnostics, m.reported ++ [keyOf project v]⟩) := by
      intro diagnostics
      rw [firstReport, Run.run_get_bind, if_neg (show (project, v.path) ∉ m.reported from hv)]
      rfl
    rw [applyVersion, Run.run_bind_ok hrun, Run.run_bind_ok (hfirst _), Run.run_pure,
      List.append_nil, List.append_nil]
    rfl

/-! ### All compilers of a range -/

/-- The diagnostics of a compiler; none if it says nothing. -/
def said (w : Workspace) (compiler : Compiler) (project : Path) (v : VersionToTest) :
    List Diagnostic :=
  match compiled w compiler project v.path with
  | .ok ds => ds
  | .error _ => []

theorem said_eq {v : VersionToTest} {ds : List Diagnostic}
    (h : compiled w compiler project v.path = .ok ds) : said w compiler project v = ds := by
  rw [said, h]

/-- The compilers that are not remembered. -/
def fresh (project : Path) (m : Memo) (vs : List VersionToTest) : List VersionToTest :=
  vs.filter fun v => !m.reported.contains (keyOf project v)

/-- What it comes to that a file is looked at with several compilers, one after the other. -/
structure Applied (w : Workspace) (compiler : Compiler) (project : Path) (file : SourceFile)
    (vs : List VersionToTest) (m : Memo) (es : List Event) (fss : List (List Failure))
    (m' : Memo) : Prop where
  valid : m'.Valid w compiler
  /-- Every compiler said something. -/
  answers : ∀ v ∈ vs, compiled w compiler project v.path = .ok (said w compiler project v)
  /-- The compilers that were not remembered are now, in their order. -/
  reported : m'.reported = m.reported ++ (fresh project m vs).map (keyOf project)
  /-- These are the ones that were started, each once. -/
  starts : Event.starts es = (fresh project m vs).map fun v => startOf project v.path
  failures : fss = vs.map fun v =>
    failuresIn file v (!m.reported.contains (keyOf project v)) (said w compiler project v)

theorem Applied.cons_of_mem {v : VersionToTest} {vs : List VersionToTest} {m m' : Memo}
    {es : List Event} {fss : List (List Failure)} {ds : List Diagnostic}
    (hv : keyOf project v ∈ m.reported) (hds : compiled w compiler project v.path = .ok ds)
    (h : Applied w compiler project file vs m es fss m') :
    Applied w compiler project file (v :: vs) m es (failuresIn file v false ds :: fss) m' := by
  have hfresh : fresh project m (v :: vs) = fresh project m vs :=
    List.filter_cons_of_neg (by simpa using hv)
  refine ⟨h.valid, ?_, ?_, ?_, ?_⟩
  · exact List.forall_mem_cons.mpr ⟨by rw [said_eq hds, hds], h.answers⟩
  · rw [h.reported, hfresh]
  · rw [h.starts, hfresh]
  · rw [h.failures, List.map_cons, said_eq hds, List.contains_iff_mem.mpr hv]
    rfl

theorem Applied.cons_of_notMem {v : VersionToTest} {vs : List VersionToTest} {m m' : Memo}
    {es : List Event} {fss : List (List Failure)} {ds : List Diagnostic}
    (hpath : v.path ∉ vs.map (·.path)) (hv : keyOf project v ∉ m.reported)
    (hds : compiled w compiler project v.path = .ok ds)
    (h : Applied w compiler project file vs (m.remember (keyOf project v) ds) es fss m') :
    Applied w compiler project file (v :: vs) m
      ([.logged (announcement project v)] ++ (check w compiler project v.path).events ++ es)
      (failuresIn file v true ds :: fss) m' := by
  -- remembering this compiler changes nothing for the others
  have hother : ∀ u ∈ vs,
      (m.remember (keyOf project v) ds).reported.contains (keyOf project u) =
        m.reported.contains (keyOf project u) := by
    intro u hu
    have hne : keyOf project u ≠ keyOf project v := by
      intro he
      exact hpath (List.mem_map.mpr ⟨u, hu, (Prod.mk.inj he).2⟩)
    show (m.reported ++ [keyOf project v]).contains (keyOf project u) = _
    simp [hne]
  have hfresh : fresh project m (v :: vs) =
      v :: fresh project (m.remember (keyOf project v) ds) vs := by
    rw [fresh, List.filter_cons_of_pos (by simpa using hv), fresh]
    exact congrArg (v :: ·) (List.filter_congr fun u hu => by rw [hother u hu])
  refine ⟨h.valid, ?_, ?_, ?_, ?_⟩
  · exact List.forall_mem_cons.mpr ⟨by rw [said_eq hds, hds], h.answers⟩
  · rw [h.reported, hfresh, List.map_cons]
    exact List.append_assoc _ _ _
  · rw [Event.starts_append, Event.starts_append, h.starts, hfresh, List.map_cons]
    exact congrArg (· ++ _) (starts_check hds)
  · have hnew : m.reported.contains (keyOf project v) = false := by
      simpa using hv
    rw [h.failures, List.map_cons, said_eq hds, hnew]
    exact congrArg (_ :: ·) (List.map_congr_left fun u hu => by rw [hother u hu])

/-- **Each compiler is run once.**  Looking at a file with several compilers starts those that are
not remembered, in their order, and the failures are those of what the compilers said. -/
theorem applied_of_run {vs : List VersionToTest} {m m' : Memo} {es : List Event}
    {fss : List (List Failure)} (hm : m.Valid w compiler) (hvs : (vs.map (·.path)).Nodup)
    (h : (vs.mapM (applyVersion w compiler project file)).run m = (⟨es, .ok fss⟩, m')) :
    Applied w compiler project file vs m es fss m' := by
  induction vs generalizing m es fss with
  | nil =>
    obtain ⟨rfl, rfl, rfl⟩ := Run.run_pure_eq_ok_iff.mp h
    exact ⟨hm, by simp, by simp [fresh], rfl, rfl⟩
  | cons v vs ih =>
    obtain ⟨hpath, hvs⟩ := List.nodup_cons.mp hvs
    rw [List.mapM_cons] at h
    obtain ⟨es₁, fs, m₁, es₂, hhead, hrest, rfl⟩ := Run.run_bind_eq_ok_iff.mp h
    obtain ⟨es₃, fss', m₂, es₄, htail, hpure, rfl⟩ := Run.run_bind_eq_ok_iff.mp hrest
    obtain ⟨rfl, rfl, rfl⟩ := Run.run_pure_eq_ok_iff.mp hpure
    rw [List.append_nil]
    -- the run is the one that the step lemma for this compiler gives
    by_cases hv : keyOf project v ∈ m.reported
    · obtain ⟨ds, hds, hrun⟩ := run_applyVersion_of_mem file hm hv
      obtain ⟨ht, rfl⟩ := Prod.mk.inj (hrun.symm.trans hhead)
      obtain ⟨rfl, hfs⟩ := Traced.mk.inj ht
      obtain rfl := Except.ok.inj hfs
      exact (ih hm hvs htail).cons_of_mem hv hds
    · have hrun := run_applyVersion_of_notMem file hm hv
      rcases hds : compiled w compiler project v.path with e | ds
      · rw [hds, hhead] at hrun
        cases hrun
      · rw [hds] at hrun
        obtain ⟨ht, rfl⟩ := Prod.mk.inj (hrun.symm.trans hhead)
        obtain ⟨rfl, hfs⟩ := Traced.mk.inj ht
        obtain rfl := Except.ok.inj hfs
        exact (ih (hm.remember hv hds) hvs htail).cons_of_notMem hpath hv hds

/-- Afterwards all of these compilers are remembered. -/
theorem Applied.fresh_eq_nil {vs : List VersionToTest} {m m' : Memo} {es : List Event}
    {fss : List (List Failure)} (h : Applied w compiler project file vs m es fss m') :
    fresh project m' vs = [] := by
  apply List.filter_eq_nil_iff.mpr
  intro v hv
  have hmem : keyOf project v ∈ m'.reported := by
    rw [h.reported, List.mem_append]
    by_cases hkey : keyOf project v ∈ m.reported
    · exact Or.inl hkey
    · exact Or.inr (List.mem_map_of_mem (List.mem_filter.mpr ⟨hv, by simpa using hkey⟩))
  simpa using hmem

/-- With options, the rule looks at the file with each compiler of them. -/
theorem rule_eq {arguments : List RuleArgument} {options : ExpectOptions}
    (h : ExpectOptions.ofArguments arguments = .ok options) :
    rule w compiler file arguments = do
      let failures ← options.versionsToTest.mapM
        (applyVersion w compiler (Path.ofString options.tsconfigPath) file)
      return failures.flatten := by
  apply Run.ext
  intro m
  have hread : (Run.lift (Traced.ofExcept (.ok options))).run m = (⟨[], .ok options⟩, m) := rfl
  rw [rule, h]
  exact Run.run_bind_of_ok hread rfl

theorem applied_of_run_rule {options : ExpectOptions} {m m' : Memo} {es : List Event}
    {fs : List Failure} (hm : m.Valid w compiler)
    (hpaths : (options.versionsToTest.map (·.path)).Nodup)
    (h : (rule w compiler file [.expect options]).run m = (⟨es, .ok fs⟩, m')) :
    ∃ fss, fs = fss.flatten ∧
      Applied w compiler (Path.ofString options.tsconfigPath) file options.versionsToTest
        m es fss m' := by
  -- options that the linter filled in are taken as they are
  rw [rule_eq (show ExpectOptions.ofArguments [.expect options] = .ok options from rfl)] at h
  obtain ⟨es₁, fss, m₁, es₂, hrun, hpure, rfl⟩ := Run.run_bind_eq_ok_iff.mp h
  obtain ⟨rfl, rfl, rfl⟩ := Run.run_pure_eq_ok_iff.mp hpure
  refine ⟨fss, rfl, ?_⟩
  rw [List.append_nil]
  exact applied_of_run hm hpaths hrun

/-! ### Without a failure -/

theorem failuresIn_eq_nil_iff {v : VersionToTest} {first : Bool} {ds : List Diagnostic} :
    failuresIn file v first ds = [] ↔
      (first = true → ∀ d ∈ ds, d.file ≠ none) ∧
      (∀ d ∈ ds, d.file = some (Path.normalForm file.name) → isExpected file d.line = true) ∧
      missingFailures file v ds = [] := by
  have hproject : projectFailures file v ds = [] ↔ ∀ d ∈ ds, d.file ≠ none := by
    simp [projectFailures, List.filter_eq_nil_iff, Option.ne_none_iff_isSome]
  have hunexpected : unexpectedFailures file v ds = [] ↔
      ∀ d ∈ ds, d.file = some (Path.normalForm file.name) → isExpected file d.line = true := by
    simp only [unexpectedFailures, diagnosticsIn, List.map_eq_nil_iff, List.filter_eq_nil_iff,
      List.mem_filter, decide_eq_true_eq, Bool.not_eq_true, Bool.not_eq_false', and_imp]
  rw [failuresIn, List.append_eq_nil_iff, List.append_eq_nil_iff, hunexpected]
  cases first with
  | true => simp [hproject]
  | false => simp

end Expect

end DeclLint
