/-
DeclLint/Proofs/Pass/Clean.lean

What a pass without a report has checked.  Everything before the files is quiet,
going through the files is applying the rules to those that are not left out,
and the rules name `expect` once; so the pass comes to running `expect` on these
files with the compilers of the range, from an empty memory, without a failure
(`foundNothing_of_run`).  Two theorems say what this means.

* `starts_run_of_clean`: if a file was linted, the compiler of every release in
  the range was started once on the project, oldest first; if no file was, none
  was started, since it is the first file that makes the rule run them.
* `diagnostics_of_clean`: each compiler finished, all that it had to say is
  about some file, and what it said about a file that was linted is on a line
  where that file expects an error.  Diagnostics are reported with the file that
  they are about, so those about other files do not show.
-/
import DeclLint.Proofs.Engine
import DeclLint.Proofs.Pass.Visit
import DeclLint.Proofs.Release.Install

namespace DeclLint

theorem Diagnostic.eq_parse_of_read {directory : Path} {output : String} {ds : List Diagnostic}
    (h : Diagnostic.read directory output = .ok ds) : ds = Diagnostic.parse directory output := by
  unfold Diagnostic.read at h
  split at h
  · cases h
  · exact (Except.ok.inj h).symm

namespace Pass

open Release (script rangeOf)

variable {host : Host} {o : PassOptions}

/-! ### The parts of a pass -/

/-- The directory of the project of a pass. -/
def rootOf (host : Host) (o : PassOptions) : Path :=
  host.workspace.absolute o.directory

/-- The root is clean if the working directory and the directory of the pass are, as are those that
are read from a text. -/
theorem isClean_rootOf (hcwd : host.workspace.cwdPath.IsClean) (hdir : o.directory.IsClean) :
    (rootOf host o).IsClean :=
  hcwd.join hdir

/-- The file that describes the project of a pass. -/
def descriptionOf (host : Host) (o : PassOptions) : Path :=
  (rootOf host o).child Project.descriptionFile

/-- The program of a pass: the one it is told to use, else the one that the project describes. -/
def programOf (host : Host) (o : PassOptions) : Traced Program :=
  match o.program with
  | some p => pure p
  | none => Project.build host.workspace (descriptionOf host o)

/-- The files of a program that a pass applies the rules to. -/
def lintedFiles (host : Host) (o : PassOptions) (p : Program) : List SourceFile :=
  linted o.isLatest (rootOf host o) (ownFiles p)

theorem quiet_programOf (host : Host) (o : PassOptions) : (programOf host o).Quiet := by
  unfold programOf
  split
  · exact Traced.quiet_pure _
  · exact Project.quiet_build _ _

/-- The configuration of a pass names `expect` once, with the compilers of the range. -/
theorem exists_of_active {preferred tsconfig : Path} {config : LintConfig}
    (h : (Config.active host.workspace preferred tsconfig o.low o.high o.localBuild).result =
      .ok config) :
    ∃ rs vs, rangeOf o.low o.high = .ok rs ∧
      Config.versionsToTest host.workspace o.localBuild rs = .ok vs ∧
      Engine.EnforcesOnce config.rules ⟨tsconfig.toString, vs⟩ := by
  -- whichever file the configuration is from, its rules name no rule twice
  obtain ⟨isThere, -, h⟩ := Traced.result_bind_eq_ok_iff.mp h
  rw [Traced.result_log_bind] at h
  obtain ⟨loaded, hloaded, h⟩ := Traced.result_bind_eq_ok_iff.mp h
  split at h
  · obtain ⟨rs, hrs, h⟩ := Traced.result_bind_eq_ok_iff.mp h
    rw [Traced.result_log_bind] at h
    obtain ⟨vs, hvs, h⟩ := Traced.result_bind_eq_ok_iff.mp h
    refine ⟨rs, vs, hrs, hvs, ?_⟩
    rw [← Except.ok.inj h]
    exact Engine.enforcesOnce_withOptions (Config.nodup_keys_of_load hloaded) _
  · cases h

/-- The installs of a range and the scripts of its compilers. -/
theorem mapM_script_eq {w : Workspace} {directory : Option String} {rs : List Release}
    {vs : List VersionToTest} (h : Config.versionsToTest w directory rs = .ok vs) :
    rs.mapM (script w directory) = .ok (vs.map fun v => Compiler.scriptPath v.path) := by
  have hscript : script w directory = fun r =>
      ((Release.installPath w r.name directory).map fun p =>
        (⟨r.name, p.toString⟩ : VersionToTest)).map fun v => Compiler.scriptPath v.path := by
    funext r
    unfold script
    rcases Release.installPath w r.name directory with e | p
    · rfl
    · rfl
  rw [hscript, Except.mapM_map, show rs.mapM _ = Except.ok vs from h]
  rfl

/-- The releases of a range have different installs. -/
theorem nodup_paths {rs : List Release} {vs : List VersionToTest}
    (hrs : rangeOf o.low o.high = .ok rs)
    (hvs : Config.versionsToTest host.workspace o.localBuild rs = .ok vs) :
    (vs.map (·.path)).Nodup := by
  apply List.Nodup.of_map Compiler.scriptPath
  rw [List.map_map, Function.comp_def]
  exact Release.nodup_scripts hrs (mapM_script_eq hvs)

theorem reportOf_eq_ok_iff {format : Report.Format} {fs : List Failure} {report : Option String} :
    reportOf format fs = .ok report ↔
      ∃ text, format.render fs = .ok text ∧ report = if fs.isEmpty then none else some text := by
  rw [reportOf, Except.bind_eq_ok_iff]
  constructor
  · rintro ⟨text, htext, h⟩
    exact ⟨text, Except.mapError_eq_ok_iff.mp htext, (Except.ok.inj h).symm⟩
  · rintro ⟨text, htext, rfl⟩
    exact ⟨text, Except.mapError_eq_ok_iff.mpr htext, rfl⟩

/-- There is no report exactly if there are no failures. -/
theorem reportOf_eq_ok_none_iff {format : Report.Format} {fs : List Failure} :
    reportOf format fs = .ok none ↔ (∃ text, format.render fs = .ok text) ∧ fs = [] := by
  rw [reportOf_eq_ok_iff]
  cases fs with
  | nil => simp
  | cons f fs => simp

/-- A pass over a program without a report. -/
theorem foundNothing_of_lintProgram {config : LintConfig} {options : ExpectOptions}
    {format : Report.Format} {p : Program} {root : Path} {isLatest : Bool} {es : List Event}
    (hrules : Engine.EnforcesOnce config.rules options)
    (hpaths : (options.versionsToTest.map (·.path)).Nodup)
    (h : lintProgram host config isLatest root format p = ⟨es, .ok none⟩) :
    ∃ es' m, Event.starts es = Event.starts es' ∧
      Engine.FoundNothing host.workspace host.compiler (Path.ofString options.tsconfigPath)
        options.versionsToTest (linted isLatest root (ownFiles p)) Expect.Memo.empty es' m := by
  unfold lintProgram at h
  obtain ⟨es₁, ⟨banned, s⟩, es₂, hvisit, hrest, rfl⟩ := Traced.bind_eq_ok_iff.mp h
  cases banned with
  | some report =>
    obtain ⟨hreport, -⟩ := Traced.pure_eq_ok_iff.mp hrest
    cases hreport
  | none =>
    obtain ⟨es₃, report, es₄, hreport, hfinish, rfl⟩ := Traced.bind_eq_ok_iff.mp hrest
    obtain ⟨es₅, u, es₆, hlog, hpure, rfl⟩ := Traced.bind_eq_ok_iff.mp hfinish
    obtain ⟨hof, rfl⟩ := Traced.ofExcept_eq_ok_iff.mp hreport
    obtain ⟨rfl, rfl⟩ := Traced.pure_eq_ok_iff.mp hpure
    -- no report means that the engine has collected no failure
    have hnone : s.engine.failures = [] := (reportOf_eq_ok_none_iff.mp hof).2
    obtain ⟨es', hes', hrun⟩ := exists_run_of_visit (Run.startingAt_eq_ok_iff.mp hvisit)
    obtain ⟨-, hfound⟩ :=
      Engine.foundNothing_of_forM hrules hpaths Expect.Memo.valid_empty hnone hrun
    refine ⟨es', s.engine.rules, ?_, hfound⟩
    obtain rfl := Traced.emit_eq_ok_iff.mp hlog
    rw [Event.starts_append, hes']
    exact List.append_nil _

/-- The configuration that a pass prefers. -/
def preferredConfig (host : Host) (o : PassOptions) : Path :=
  if o.expectOnly then Config.Bundled.expectOnly.path else Config.projectPath (rootOf host o)

theorem run_eq (host : Host) (o : PassOptions) :
    run host o = programOf host o >>= fun program =>
      Traced.ofExcept (formatOf o.format) >>= fun format =>
        Config.active host.workspace (preferredConfig host o) (descriptionOf host o) o.low o.high
            o.localBuild >>= fun config =>
          lintProgram host config o.isLatest (rootOf host o) format program := by
  unfold run programOf
  cases o.program with
  | some p => rfl
  | none => rfl

/-- What a pass without a report comes to. -/
theorem foundNothing_of_run (hroot : (rootOf host o).IsClean) (h : (run host o).result = .ok none) :
    ∃ p rs vs es m, (programOf host o).result = .ok p ∧ rangeOf o.low o.high = .ok rs ∧
      rs.mapM (script host.workspace o.localBuild) =
        .ok (vs.map fun v => Compiler.scriptPath v.path) ∧
      (run host o).starts = Event.starts es ∧
      Engine.FoundNothing host.workspace host.compiler (descriptionOf host o) vs
        (lintedFiles host o p) Expect.Memo.empty es m := by
  obtain ⟨events, hrun⟩ := Traced.result_eq_ok_iff.mp h
  have hparts := hrun
  rw [run_eq] at hparts
  obtain ⟨es₁, p, es₂, hprogram, hrest₁, rfl⟩ := Traced.bind_eq_ok_iff.mp hparts
  obtain ⟨es₃, format, es₄, hformat, hrest₃, rfl⟩ := Traced.bind_eq_ok_iff.mp hrest₁
  obtain ⟨es₅, config, es₆, hactive, hlint, rfl⟩ := Traced.bind_eq_ok_iff.mp hrest₃
  obtain ⟨rs, vs, hrs, hvs, hrules⟩ := exists_of_active (congrArg Traced.result hactive)
  have hscripts := mapM_script_eq hvs
  obtain ⟨es, m, hes, hfound⟩ := foundNothing_of_lintProgram hrules (nodup_paths hrs hvs) hlint
  -- the rule is told of the project by its text, from which the path is read back
  have hproject : Path.ofString (descriptionOf host o).toString = descriptionOf host o :=
    Path.ofString_toString (hroot.child _)
  rw [hproject] at hfound
  refine ⟨p, rs, vs, es, m, congrArg Traced.result hprogram, hrs, hscripts, ?_, hfound⟩
  -- all that comes before the files is quiet
  have hes₁ : Event.starts es₁ = [] := (quiet_programOf host o).starts_eq hprogram
  have hes₅ : Event.starts es₅ = [] := (Config.quiet_active _ _ _ _ _ _).starts_eq hactive
  obtain ⟨hformat, rfl⟩ := Traced.ofExcept_eq_ok_iff.mp hformat
  rw [hrun, ← hes]
  show Event.starts (es₁ ++ ([] ++ (es₅ ++ es₆))) = _
  rw [List.nil_append, Event.starts_append, Event.starts_append, hes₁, hes₅]
  rfl

/-! ### The compilers that were started -/

/-- **A pass without a report ran every compiler once**: if a file was linted, the script of every
release in the range was started exactly once on the project, oldest first; if no file was, no
compiler was started. -/
theorem starts_run_of_clean (hroot : (rootOf host o).IsClean)
    (h : (run host o).result = .ok none) :
    ∃ p rs scripts, (programOf host o).result = .ok p ∧ rangeOf o.low o.high = .ok rs ∧
      rs.mapM (script host.workspace o.localBuild) = .ok scripts ∧ scripts.Nodup ∧
      (run host o).starts =
        if lintedFiles host o p = [] then [] else scripts.map (⟨·, descriptionOf host o⟩) := by
  obtain ⟨p, rs, vs, es, m, hp, hrs, hscripts, hstarts, hfound⟩ :=
    foundNothing_of_run hroot h
  refine ⟨p, rs, _, hp, hrs, hscripts, Release.nodup_scripts hrs hscripts, ?_⟩
  rw [hstarts, hfound.starts]
  -- at the start of a pass no compiler is remembered
  have hfresh : Expect.fresh (descriptionOf host o) Expect.Memo.empty vs = vs :=
    List.filter_eq_self.mpr fun _ _ => rfl
  rw [hfresh, List.map_map]
  rfl

/-- A project with the given tsconfig.json and one source file, whose configuration asks for the
compile check alone, and two installed compilers. -/
def sampleProject (description text : String) : Workspace where
  tree := ((((FileTree.empty.writeFile ["p", "tslint.json"]
    "\x7b\"rules\": \x7b\"expect\": true\x7d\x7d".toUTF8.toList).writeFile
    ["p", "tsconfig.json"] description.toUTF8.toList).writeFile
    ["p", "a.ts"] text.toUTF8.toList).writeFile
    ["i", "5.5", "node_modules", "typescript", "lib", "tsc.js"] []).writeFile
    ["i", "5.6", "node_modules", "typescript", "lib", "tsc.js"] []
  cwd := []
  environment := [(Release.installsVariable, "/i")]

/-- The options for linting it with both compilers. -/
def sampleOptions : PassOptions where
  directory := Path.ofString "/p"
  low := .value (.text "5.5")
  high := .value (.text "5.6")
  isLatest := false
  expectOnly := false
  localBuild := none
  format := "stylish"
  program := none

/-- A host whose compilers find the error that the source file expects. -/
def expectingHost : Host :=
  ⟨sampleProject "\x7b\"files\": [\"a.ts\"]\x7d" "f(); // $ExpectError",
    fun _ => .finished "a.ts(1,1): error TS2304: m" "" 2⟩

theorem isClean_rootOf_sample (host : Host) (h : host.workspace.cwd = []) :
    (rootOf host sampleOptions).IsClean := by
  have hcwd : host.workspace.cwdPath.IsClean := by
    rw [Workspace.cwdPath, h]
    decide
  exact isClean_rootOf hcwd (Path.isClean_ofString "/p")

theorem run_expectingHost : (run expectingHost sampleOptions).result = .ok none :=
  Except.toOption_eq_some_iff.mp (by decide +kernel)

theorem starts_expectingHost :
    (rootOf expectingHost sampleOptions).IsClean ∧
    (run expectingHost sampleOptions).result = .ok none ∧
    (programOf expectingHost sampleOptions).result.toOption.map
      (lintedFiles expectingHost sampleOptions) ≠ some [] ∧
    ∃ p rs scripts, (programOf expectingHost sampleOptions).result = .ok p ∧
      rangeOf sampleOptions.low sampleOptions.high = .ok rs ∧
      rs.mapM (script expectingHost.workspace none) = .ok scripts ∧ scripts.Nodup ∧
      (run expectingHost sampleOptions).starts =
        if lintedFiles expectingHost sampleOptions p = [] then []
        else scripts.map (⟨·, descriptionOf expectingHost sampleOptions⟩) :=
  ⟨isClean_rootOf_sample _ rfl, run_expectingHost, by decide +kernel,
    starts_run_of_clean (isClean_rootOf_sample _ rfl) run_expectingHost⟩

/-- A host with a project of no files. -/
def noFilesHost : Host :=
  ⟨sampleProject "\x7b\"files\": []\x7d" "", fun _ => .finished "" "" 0⟩

/-- Without a file, a pass is clean although no compiler of its range was started. -/
theorem not_all_started : ¬ ∀ (host : Host) (o : PassOptions), (rootOf host o).IsClean →
    o.program = none → (run host o).result = .ok none →
    ∃ rs scripts, rangeOf o.low o.high = .ok rs ∧
      rs.mapM (script host.workspace o.localBuild) = .ok scripts ∧
      (run host o).starts = scripts.map (⟨·, descriptionOf host o⟩) := by
  intro hall
  have hrun : (run noFilesHost sampleOptions).result = .ok none :=
    Except.toOption_eq_some_iff.mp (by decide +kernel)
  have hstarts : (run noFilesHost sampleOptions).starts = [] := by decide +kernel
  obtain ⟨rs, scripts, hrs, hscripts, h⟩ :=
    hall noFilesHost sampleOptions (isClean_rootOf_sample _ rfl) rfl hrun
  have hrange : rangeOf sampleOptions.low sampleOptions.high =
      .ok [.shipped ⟨35, by decide⟩, .shipped ⟨36, by decide⟩] := by rfl
  obtain rfl := Except.ok.inj (hrange.symm.trans hrs)
  obtain ⟨s, more, -, -, rfl⟩ := Except.mapM_cons_eq_ok_iff.mp hscripts
  rw [hstarts] at h
  cases h

/-! ### The diagnostics that they printed -/

/-- **A pass without a report hides no error in a linted file**: if a file was linted, the compiler
of every release in the range finished, every diagnostic in its output names a file, and if that is
one of the linted files, it is on a line where the file expects an error. -/
theorem diagnostics_of_clean (hroot : (rootOf host o).IsClean)
    (h : (run host o).result = .ok none) :
    ∃ p rs, (programOf host o).result = .ok p ∧ rangeOf o.low o.high = .ok rs ∧
      (lintedFiles host o p ≠ [] → ∀ r ∈ rs, ∃ s output,
        script host.workspace o.localBuild r = .ok s ∧
        Compiler.outputOf s (host.compiler ⟨s, descriptionOf host o⟩) = .ok output ∧
        ∀ d ∈ Diagnostic.parse (rootOf host o) output, ∃ name, d.file = some name ∧
          ∀ file ∈ lintedFiles host o p, Path.normalForm file.name = name →
            ∃ n ∈ Expect.expectedLines file.text.toList, (n : Int) = d.line) := by
  obtain ⟨p, rs, vs, es, m, hp, hrs, hscripts, -, hfound⟩ :=
    foundNothing_of_run hroot h
  refine ⟨p, rs, hp, hrs, fun hlinted r hr => ?_⟩
  obtain ⟨s, hs, hscript⟩ := Except.exists_mem_of_mapM hscripts hr
  obtain ⟨v, hv, rfl⟩ := List.mem_map.mp hs
  have hparent : (descriptionOf host o).parent = rootOf host o :=
    Path.parent_child _ (by decide)
  have hanswer := hfound.answers hlinted v hv
  have hnamed := hfound.named hlinted v (List.mem_filter.mpr ⟨hv, rfl⟩)
  -- what the compiler said is what its output says
  obtain ⟨-, output, houtput, hread⟩ := Expect.compiled_eq_ok_iff.mp hanswer
  refine ⟨_, output, hscript, houtput, fun d hd => ?_⟩
  rw [hparent] at hread
  rw [← Diagnostic.eq_parse_of_read hread] at hd
  obtain ⟨name, hname⟩ := Option.ne_none_iff_exists'.mp (hnamed d hd)
  refine ⟨name, hname, ?_⟩
  -- a diagnostic about a linted file would be a failure there, unless it is expected
  rintro file hfile rfl
  have hexpected := hfound.expected file hfile v hv d hd hname
  obtain ⟨n, hn, hline⟩ := List.any_eq_true.mp hexpected
  exact ⟨n, hn, of_decide_eq_true hline⟩

theorem diagnostics_expectingHost :
    (rootOf expectingHost sampleOptions).IsClean ∧
    (run expectingHost sampleOptions).result = .ok none ∧
    (programOf expectingHost sampleOptions).result.toOption.map
      (lintedFiles expectingHost sampleOptions) ≠ some [] ∧
    ∃ p rs, (programOf expectingHost sampleOptions).result = .ok p ∧
      rangeOf sampleOptions.low sampleOptions.high = .ok rs ∧
      (lintedFiles expectingHost sampleOptions p ≠ [] → ∀ r ∈ rs, ∃ s output,
        script expectingHost.workspace none r = .ok s ∧
        Compiler.outputOf s (expectingHost.compiler
          ⟨s, descriptionOf expectingHost sampleOptions⟩) = .ok output ∧
        ∀ d ∈ Diagnostic.parse (rootOf expectingHost sampleOptions) output,
          ∃ name, d.file = some name ∧
          ∀ file ∈ lintedFiles expectingHost sampleOptions p, Path.normalForm file.name = name →
            ∃ n ∈ Expect.expectedLines file.text.toList, (n : Int) = d.line) :=
  ⟨isClean_rootOf_sample _ rfl, run_expectingHost, by decide +kernel,
    diagnostics_of_clean (isClean_rootOf_sample _ rfl) run_expectingHost⟩

/-- A host whose compilers find an error in a file that the project does not list. -/
def otherFileHost : Host :=
  ⟨sampleProject "\x7b\"files\": [\"a.ts\"]\x7d" "",
    fun _ => .finished "b.d.ts(1,1): error TS1005: m" "" 2⟩

/-- A pass is clean although a compiler found an error, which is not in a file that was linted. -/
theorem not_all_reported : ¬ ∀ (host : Host) (o : PassOptions) (p : Program) (rs : List Release),
    (rootOf host o).IsClean → o.program = none → o.isLatest = false →
    (run host o).result = .ok none → (programOf host o).result = .ok p →
    lintedFiles host o p ≠ [] → rangeOf o.low o.high = .ok rs →
    ∀ r ∈ rs, ∀ s output, script host.workspace o.localBuild r = .ok s →
      Compiler.outputOf s (host.compiler ⟨s, descriptionOf host o⟩) = .ok output →
      ∀ d ∈ Diagnostic.parse (rootOf host o) output, ∃ file ∈ lintedFiles host o p,
        d.file = some (Path.normalForm file.name) ∧
          ∃ n ∈ Expect.expectedLines file.text.toList, (n : Int) = d.line := by
  intro hall
  have hrun : (run otherFileHost sampleOptions).result = .ok none :=
    Except.toOption_eq_some_iff.mp (by decide +kernel)
  have hprogram : (programOf otherFileHost sampleOptions).result = .ok ⟨[⟨"/p/a.ts", ""⟩], []⟩ :=
    Except.toOption_eq_some_iff.mp (by decide +kernel)
  have hrange : rangeOf sampleOptions.low sampleOptions.high =
      .ok [.shipped ⟨35, by decide⟩, .shipped ⟨36, by decide⟩] := by rfl
  have hlinted : lintedFiles otherFileHost sampleOptions ⟨[⟨"/p/a.ts", ""⟩], []⟩ =
      [⟨"/p/a.ts", ""⟩] := by decide +kernel
  have hscript : script otherFileHost.workspace none (.shipped ⟨35, by decide⟩) =
      .ok ⟨.single, ["i", "5.5", "node_modules", "typescript", "lib", "tsc.js"]⟩ :=
    Except.toOption_eq_some_iff.mp (by decide +kernel)
  have hparse : Diagnostic.parse (rootOf otherFileHost sampleOptions)
      "b.d.ts(1,1): error TS1005: m" = [⟨some "/p/b.d.ts", 0, 0, "TS1005", "m"⟩] := by
    decide +kernel
  obtain ⟨file, hfile, hname, -⟩ := hall otherFileHost sampleOptions _ _
    (isClean_rootOf_sample _ rfl) rfl rfl hrun hprogram (by rw [hlinted]; exact nofun) hrange
    _ List.mem_cons_self _ "b.d.ts(1,1): error TS1005: m" hscript
    (Except.toOption_eq_some_iff.mp (by decide +kernel)) _ (hparse ▸ List.mem_cons_self)
  rw [hlinted] at hfile
  obtain rfl := List.mem_singleton.mp hfile
  exact absurd hname (by decide +kernel)

-- the hypothesis on the linted files is not idle: a project may have none
example : (programOf noFilesHost sampleOptions).result.toOption.map
    (lintedFiles noFilesHost sampleOptions) = some [] := by
  decide +kernel

end Pass

end DeclLint
