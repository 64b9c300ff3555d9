/-
DeclLint/Proofs/Pass/Order.lean

Passes over the same files in different orders.  Before the files nothing depends on
their order.  Where no directive is banned and every compiler answers, the pass
records what its engine records for a row of files (`recorded_of_answered`), and
rows of the same files have the same failures; those about the project as a whole go
with whichever file is first.

A pass that is clean in one order has had an answer from every compiler, if a file
was linted at all, so it is clean in any order; this needs no hypothesis.  A pass
that finds something need not record the same in any order if a compiler is not
understood: it ends with the first file then (`recorded_of_unreadable`).
-/
import DeclLint.Proofs.Engine.Recorded
import DeclLint.Proofs.Pass.Finding

namespace DeclLint.Pass

open Engine (Enforcing recordedIn failuresFor)
open Release (rangeOf)

variable {host : Host} {o : PassOptions} {p : Program} {config : LintConfig} {r : Enforcing}

/-! ### The program of a pass -/

/-- The pass over a given program. -/
def withProgram (o : PassOptions) (p : Program) : PassOptions :=
  { o with program := some p }

/-- The program with its files in another order. -/
def reordered (p : Program) (files : List SourceFile) : Program :=
  { p with files := files }

theorem ownFiles_reordered_perm {files : List SourceFile} (h : p.files.Perm files) :
    (ownFiles p).Perm (ownFiles (reordered p files)) :=
  h.filter _

theorem lintedFiles_reordered_perm (host : Host) (o : PassOptions) {files : List SourceFile}
    (h : p.files.Perm files) :
    (lintedFiles host o p).Perm (lintedFiles host o (reordered p files)) :=
  (ownFiles_reordered_perm h).filter _

/-- The configuration of a pass. -/
def activeConfig (host : Host) (o : PassOptions) : Except LintError LintConfig :=
  (Config.active host.workspace (preferredConfig host o) (descriptionOf host o) o.low o.high
    o.localBuild).result

/-- The project, as its text names it to the rule that runs compilers. -/
def testedProject (host : Host) (o : PassOptions) : Path :=
  Path.ofString (descriptionOf host o).toString

/-- A property of the installs of the compilers that a pass tests with. -/
def ForTested (host : Host) (o : PassOptions) (P : String → Prop) : Prop :=
  ∀ rs vs, rangeOf o.low o.high = .ok rs →
    Config.versionsToTest host.workspace o.localBuild rs = .ok vs → ∀ v ∈ vs, P v.path

/-- The compilers that a pass tests with finish with outputs that can be read. -/
def CompilersAnswer (host : Host) (o : PassOptions) : Prop :=
  ForTested host o fun install =>
    ∃ ds, Expect.compiled host.workspace host.compiler (testedProject host o) install = .ok ds

/-- The rules of a pass: they name `expect` once, with the compilers of its range. -/
theorem exists_enforcing (h : activeConfig host o = .ok config) :
    ∃ (r : Enforcing) (rs : List Release), r.rules = config.rules ∧
      r.project = testedProject host o ∧ rangeOf o.low o.high = .ok rs ∧
      Config.versionsToTest host.workspace o.localBuild rs = .ok r.options.versionsToTest := by
  obtain ⟨rs, vs, hrs, hvs, hrules⟩ := exists_of_active h
  obtain ⟨r, hr, hoptions⟩ := hrules.exists_rules
  refine ⟨r, rs, hr, ?_, hrs, ?_⟩
  · rw [Enforcing.project, hoptions]
    rfl
  · rw [hoptions]
    exact hvs

/-! ### What a pass records -/

theorem received_of_notBanned (h : ∀ file ∈ ownFiles p, banned? file = none) :
    received o.isLatest (rootOf host o) (ownFiles p) = lintedFiles host o p := by
  have hnone : bannedReport? (ownFiles p) = none := by
    refine List.findSome?_eq_none_iff.mpr fun file hfile => ?_
    rw [h file hfile]
    rfl
  rw [received, examined_of_bannedReport? hnone]
  rfl

/-- A pass over a given program loads the configuration, and then its engine goes through files. -/
theorem lintReceived_withProgram (host : Host) (o : PassOptions) (p : Program) :
    lintReceived host (withProgram o p) =
      Run.lift (Config.active host.workspace (preferredConfig host o) (descriptionOf host o)
        o.low o.high o.localBuild) >>= fun config => do
          (received o.isLatest (rootOf host o) (ownFiles p)).forM
            (Engine.lint (builtinRules host.workspace host.compiler) config.rules)
          return p := by
  apply Run.ext
  intro e
  have hprogram : (Run.lift (programOf host (withProgram o p))).run e = (⟨[], .ok p⟩, e) := rfl
  exact Run.run_bind_ok hprogram

/-- The engine of a pass goes through the files with the rules of the configuration. -/
theorem lintedFrom_of_forM (hconfig : activeConfig host o = .ok config)
    (hbanned : ∀ file ∈ ownFiles p, banned? file = none) {es : List Event}
    {result : Except LintError Unit} {e : Engine Expect.Memo}
    (h : ((lintedFiles host o p).forM
      (Engine.lint (builtinRules host.workspace host.compiler) config.rules)).run
        (Engine.start Expect.Memo.empty) = (⟨es, result⟩, e)) :
    ∃ es', lintedFrom host (withProgram o p) = (⟨es', result.map fun _ => p⟩, e) := by
  obtain ⟨es₁, hactive⟩ := Traced.result_eq_ok_iff.mp hconfig
  have hload := Run.run_lift_eq_ok_iff.mpr
    ⟨hactive, (rfl : Engine.start Expect.Memo.empty = Engine.start Expect.Memo.empty)⟩
  rw [← received_of_notBanned hbanned] at h
  rw [lintedFrom, lintReceived_withProgram]
  cases result with
  | ok u => exact ⟨_, Run.run_bind_of_ok hload (Run.run_bind_of_ok h (Run.run_pure p e))⟩
  | error x => exact ⟨_, Run.run_bind_of_ok hload (Run.run_bind_error h)⟩

/-- Where no directive is banned and every compiler answers, a pass gets through, and records what
its engine records for the files. -/
theorem recorded_of_answered (hconfig : activeConfig host o = .ok config)
    (hr : r.rules = config.rules) (hpaths : (r.options.versionsToTest.map (·.path)).Nodup)
    (hbanned : ∀ file ∈ ownFiles p, banned? file = none)
    (hanswered : lintedFiles host o p ≠ [] → r.Answered host.workspace host.compiler) :
    (lintedFrom host (withProgram o p)).1.result = .ok p ∧
      recorded host (withProgram o p) =
        recordedIn host.workspace host.compiler r (lintedFiles host o p) := by
  obtain ⟨es, e, hrun, hfailures⟩ := Engine.exists_run_forM hpaths hanswered
  rw [hr] at hrun
  obtain ⟨es', hfrom⟩ := lintedFrom_of_forM hconfig hbanned hrun
  rw [recorded, hfrom]
  exact ⟨rfl, hfailures⟩

/-- A pass without a configuration records nothing. -/
theorem recorded_of_noConfig {x : LintError} (h : activeConfig host o = .error x) (p : Program) :
    recorded host (withProgram o p) = [] := by
  rcases hactive : Config.active host.workspace (preferredConfig host o) (descriptionOf host o)
    o.low o.high o.localBuild with ⟨es, result⟩
  rw [activeConfig, hactive] at h
  have hload : (Run.lift (⟨es, result⟩ : Traced LintConfig)).run (Engine.start Expect.Memo.empty) =
      (⟨es, .error x⟩, Engine.start Expect.Memo.empty) := by
    rw [Run.lift, ← h]
  rw [recorded, lintedFrom, lintReceived_withProgram, hactive, Run.run_bind_error hload]
  rfl

/-- What a pass that finds something has done. -/
theorem exists_of_finding {x : Finding} (h : finding host (withProgram o p) = .ok x) :
    ∃ config es e, activeConfig host o = .ok config ∧
      ((received o.isLatest (rootOf host o) (ownFiles p)).forM
        (Engine.lint (builtinRules host.workspace host.compiler) config.rules)).run
          (Engine.start Expect.Memo.empty) = (⟨es, .ok ()⟩, e) ∧
      x = Finding.of (ownFiles p) e.failures := by
  obtain ⟨q, hq, rfl⟩ := Except.map_eq_ok_iff.mp h
  rcases hfrom : lintedFrom host (withProgram o p) with ⟨⟨es, result⟩, e⟩
  rw [hfrom] at hq
  obtain rfl : result = .ok q := hq
  have hrun := hfrom
  rw [lintedFrom, lintReceived_withProgram] at hrun
  obtain ⟨es₁, config, e₁, es₂, hload, hrest, rfl⟩ := Run.run_bind_eq_ok_iff.mp hrun
  obtain ⟨hactive, rfl⟩ := Run.run_lift_eq_ok_iff.mp hload
  obtain ⟨es₃, u, e₂, es₄, hforM, hpure, rfl⟩ := Run.run_bind_eq_ok_iff.mp hrest
  obtain ⟨rfl, rfl, -⟩ := Run.run_pure_eq_ok_iff.mp hpure
  refine ⟨config, es₃, e₂, congrArg Traced.result hactive, hforM, ?_⟩
  rw [recorded, hfrom]

/-! ### In any order -/

theorem firstBanned?_eq_none_iff {files : List SourceFile} :
    firstBanned? files = none ↔ ∀ file ∈ files, banned? file = none := by
  simp only [firstBanned?, List.findSome?_eq_none_iff, Option.map_eq_none_iff]

theorem notBanned_reordered {files : List SourceFile} (h : p.files.Perm files)
    (hbanned : ∀ file ∈ ownFiles p, banned? file = none) :
    ∀ file ∈ ownFiles (reordered p files), banned? file = none :=
  fun file hfile => hbanned file ((ownFiles_reordered_perm h).mem_iff.mpr hfile)

/-- A clean pass has had an answer from every compiler, if a file was linted. -/
theorem answered_of_clean (hr : r.rules = config.rules)
    (hpaths : (r.options.versionsToTest.map (·.path)).Nodup)
    {files : List SourceFile} {es : List Event} {e : Engine Expect.Memo}
    (hrun : (files.forM (Engine.lint (builtinRules host.workspace host.compiler)
      config.rules)).run (Engine.start Expect.Memo.empty) = (⟨es, .ok ()⟩, e))
    (hnone : e.failures = []) : files ≠ [] → r.Answered host.workspace host.compiler := by
  intro hfiles v hv
  have honce : Engine.EnforcesOnce config.rules r.options :=
    hr ▸ ⟨r.before, r.after, rfl, r.notMem_before, r.notMem_after⟩
  obtain ⟨-, hfound⟩ :=
    Engine.foundNothing_of_forM honce hpaths Expect.Memo.valid_empty hnone hrun
  exact ⟨_, hfound.answers hfiles v hv⟩

theorem finding_clean_reordered {files : List SourceFile} (h : p.files.Perm files)
    (hclean : finding host (withProgram o p) = .ok .clean) :
    finding host (withProgram o (reordered p files)) = .ok .clean := by
  obtain ⟨config, es, e, hconfig, hrun, hof⟩ := exists_of_finding hclean
  obtain ⟨hbanned, hnone⟩ := Finding.of_eq_clean_iff.mp hof.symm
  rw [firstBanned?_eq_none_iff] at hbanned
  rw [received_of_notBanned hbanned] at hrun
  obtain ⟨r, rs, hr, -, hrs, hvs⟩ := exists_enforcing hconfig
  have hpaths := nodup_paths hrs hvs
  have hlinted := lintedFiles_reordered_perm host o h
  have hanswered := answered_of_clean hr hpaths hrun hnone
  -- nothing is recorded in this order, so nothing is in the other
  obtain ⟨-, hrecorded⟩ := recorded_of_answered hconfig hr hpaths hbanned hanswered
  obtain ⟨hok, hrecorded'⟩ := recorded_of_answered (p := reordered p files) hconfig hr hpaths
    (notBanned_reordered h hbanned) fun hne => hanswered fun hnil => hne (by
      rw [hnil] at hlinted
      exact List.nil_perm.mp hlinted)
  have hempty : recorded host (withProgram o p) = [] := by
    obtain ⟨es', hfrom⟩ := lintedFrom_of_forM hconfig hbanned hrun
    rw [recorded, hfrom]
    exact hnone
  have hlength := Engine.length_recordedIn_perm host.workspace host.compiler r hlinted
  rw [← hrecorded, ← hrecorded', hempty] at hlength
  rw [finding, hok, List.eq_nil_of_length_eq_zero hlength.symm]
  refine congrArg Except.ok (Finding.of_eq_clean_iff.mpr ⟨?_, rfl⟩)
  exact firstBanned?_eq_none_iff.mpr (notBanned_reordered h hbanned)

theorem Finding.report_eq_none_iff {x : Finding} {format : Report.Format} :
    x.report format = .ok none ↔ x = .clean := by
  constructor
  · intro h
    by_contra hx
    rcases Finding.report_cases hx format with ⟨text, htext, -⟩ | ⟨e, he⟩
    · rw [h] at htext
      cases htext
    · rw [h] at he
      cases he
  · rintro rfl
    rfl

/-- A pass has no report exactly if its format is known and it finds nothing. -/
theorem result_run_eq_none_iff :
    (run host o).result = .ok none ↔
      (∃ format, formatOf o.format = .ok format) ∧ finding host o = .ok .clean := by
  rcases hformat : formatOf o.format with x | format
  · have hnone : (run host o).result ≠ .ok none := by
      rw [run_eq, hformat]
      intro h
      obtain ⟨p, -, h⟩ := Traced.result_bind_eq_ok_iff.mp h
      cases h
    simp [hnone]
  · rw [result_run hformat, Except.bind_eq_ok_iff]
    simp only [Finding.report_eq_none_iff, exists_eq_right, Except.ok.injEq, exists_eq', true_and]

/-- Failures recorded file by file: the first file has some that no other one has. -/
def fileByFile (first own : SourceFile → List Failure) : List SourceFile → List Failure
  | [] => []
  | file :: files => first file ++ files.flatMap own

theorem recordedIn_eq_fileByFile (r : Enforcing) (files : List SourceFile) :
    recordedIn host.workspace host.compiler r files =
      fileByFile (failuresFor host.workspace host.compiler r true)
        (failuresFor host.workspace host.compiler r false) files := by
  cases files with
  | nil => rfl
  | cons file files => rfl

/-- What the compilers that a pass tests with say about its project as a whole. -/
def saidOfProject (host : Host) (o : PassOptions) (vs : List VersionToTest) : List String :=
  Expect.projectMessages host.workspace host.compiler (testedProject host o) vs

/-- Passes over two programs record the same, up to failures about the project as a whole: these
are reported with the first file that is linted. -/
structure RecordAlike (host : Host) (o : PassOptions) (p q : Program) : Prop where
  length : (recorded host (withProgram o p)).length = (recorded host (withProgram o q)).length
  countOf : ∀ s, Report.countOf s (recorded host (withProgram o p)) =
    Report.countOf s (recorded host (withProgram o q))
  files : ∀ config, activeConfig host o = .ok config →
    ∃ rs vs first own, rangeOf o.low o.high = .ok rs ∧
      Config.versionsToTest host.workspace o.localBuild rs = .ok vs ∧
      -- a file has its own failures wherever it stands
      (∀ file, (own file).Sublist (first file) ∧
        (first file).Perm ((saidOfProject host o vs).map (Expect.aboutProject file) ++ own file) ∧
        ∀ f ∈ first file, f.file = file.name) ∧
      (lintedFiles host o p).Perm (lintedFiles host o q) ∧
      recorded host (withProgram o p) = fileByFile first own (lintedFiles host o p) ∧
      recorded host (withProgram o q) = fileByFile first own (lintedFiles host o q)

theorem recordAlike_reordered {files : List SourceFile} (h : p.files.Perm files)
    (hbanned : ∀ file ∈ ownFiles p, banned? file = none) (hanswer : CompilersAnswer host o) :
    RecordAlike host o p (reordered p files) := by
  rcases hconfig : activeConfig host o with x | config
  -- without a configuration nothing is recorded
  · have hp := recorded_of_noConfig hconfig p
    have hq := recorded_of_noConfig hconfig (reordered p files)
    refine ⟨by rw [hp, hq], fun s => by rw [hp, hq], fun config h => ?_⟩
    rw [hconfig] at h
    cases h
  · obtain ⟨r, rs, hr, hproject, hrs, hvs⟩ := exists_enforcing hconfig
    have hpaths := nodup_paths hrs hvs
    have hanswered : r.Answered host.workspace host.compiler := by
      intro v hv
      rw [hproject]
      exact hanswer rs _ hrs hvs v hv
    have hlinted := lintedFiles_reordered_perm host o h
    obtain ⟨-, hp⟩ := recorded_of_answered hconfig hr hpaths hbanned fun _ => hanswered
    obtain ⟨-, hq⟩ := recorded_of_answered (p := reordered p files) hconfig hr hpaths
      (notBanned_reordered h hbanned) fun _ => hanswered
    refine ⟨?_, fun s => ?_, fun config' _ => ?_⟩
    · rw [hp, hq, Engine.length_recordedIn_perm _ _ r hlinted]
    · rw [hp, hq, Engine.countOf_recordedIn_perm _ _ r hlinted]
    · refine ⟨rs, r.options.versionsToTest, _, _, hrs, hvs, fun file => ⟨?_, ?_, ?_⟩, hlinted,
        hp.trans (recordedIn_eq_fileByFile r _), hq.trans (recordedIn_eq_fileByFile r _)⟩
      · exact Engine.failuresFor_sublist file
      · rw [saidOfProject, ← hproject]
        exact Engine.perm_failuresFor_first file
      · exact fun f hf => Engine.file_of_mem_failuresFor hf

/-- **Passes over the same files find the same in any order.**  Without a report in one order there
is none in any other.  Where no directive is banned and every compiler answers, the same is
recorded, file by file and in total; the failures about the project as a whole are reported with
whichever file is linted first. -/
theorem same_inAnyOrder {files : List SourceFile} (h : p.files.Perm files) :
    ((run host (withProgram o p)).result = .ok none ↔
      (run host (withProgram o (reordered p files))).result = .ok none) ∧
    ((∀ file ∈ ownFiles p, banned? file = none) → CompilersAnswer host o →
      RecordAlike host o p (reordered p files)) := by
  refine ⟨?_, recordAlike_reordered h⟩
  rw [result_run_eq_none_iff, result_run_eq_none_iff]
  refine and_congr Iff.rfl ⟨finding_clean_reordered h, fun hclean => ?_⟩
  have hback : finding host (withProgram o (reordered (reordered p files) p.files)) = .ok .clean :=
    finding_clean_reordered h.symm hclean
  exact hback

/-- A host whose compilers find an error in the project and one in a file. -/
def findingHost : Host :=
  ⟨sampleProject "\x7b\x7d" "",
    fun _ => .finished "error TS5055: g\na.ts(1,1): error TS2304: m" "" 2⟩

/-- A program of two files. -/
def twoFiles : Program :=
  ⟨[⟨"/p/a.ts", "\nf();"⟩, ⟨"/p/b.ts", "g(); // $ExpectError"⟩], []⟩

/-- The compilers that the passes of the samples test with. -/
def sampleVersions : List VersionToTest :=
  [⟨"5.5", "/i/5.5/node_modules/typescript"⟩, ⟨"5.6", "/i/5.6/node_modules/typescript"⟩]

/-- The releases that they test with. -/
def sampleReleases : List Release :=
  ["5.5", "5.6"].filterMap Release.ofName?

theorem versions_eq_sample {host : Host} (hhost : Config.versionsToTest host.workspace none
    sampleReleases = .ok sampleVersions) {rs : List Release} {vs : List VersionToTest}
    (hrs : rangeOf sampleOptions.low sampleOptions.high = .ok rs)
    (hvs : Config.versionsToTest host.workspace none rs = .ok vs) : vs = sampleVersions := by
  have hrange : rangeOf sampleOptions.low sampleOptions.high = .ok sampleReleases :=
    Except.toOption_eq_some_iff.mp (by decide +kernel)
  obtain rfl := Except.ok.inj (hrange.symm.trans hrs)
  exact Except.ok.inj (hvs.symm.trans hhost)

theorem forTested_sample {host : Host} {P : String → Prop}
    (hhost : Config.versionsToTest host.workspace none sampleReleases = .ok sampleVersions)
    (h : ∀ v ∈ sampleVersions, P v.path) : ForTested host sampleOptions P := by
  intro rs vs hrs hvs v hv
  exact h v (versions_eq_sample hhost hrs hvs ▸ hv)

theorem same_inAnyOrder_twoFiles :
    twoFiles.files.Perm twoFiles.files.reverse ∧
    (∀ file ∈ ownFiles twoFiles, banned? file = none) ∧
    CompilersAnswer findingHost sampleOptions ∧
    RecordAlike findingHost sampleOptions twoFiles (reordered twoFiles twoFiles.files.reverse) := by
  have hperm : twoFiles.files.Perm twoFiles.files.reverse := (List.reverse_perm _).symm
  have hbanned : ∀ file ∈ ownFiles twoFiles, banned? file = none := by decide +kernel
  have hanswer : CompilersAnswer findingHost sampleOptions := by
    refine forTested_sample (Except.toOption_eq_some_iff.mp (by decide +kernel)) fun v hv => ?_
    have hsome : ∀ v ∈ sampleVersions, (Expect.compiled findingHost.workspace
        findingHost.compiler (testedProject findingHost sampleOptions) v.path).toOption.isSome := by
      decide +kernel
    obtain ⟨ds, hds⟩ := Option.isSome_iff_exists.mp (hsome v hv)
    exact ⟨ds, Except.toOption_eq_some_iff.mp hds⟩
  exact ⟨hperm, hbanned, hanswer, (same_inAnyOrder hperm).2 hbanned hanswer⟩

-- the errors in the project come with the file that is linted first
example : (recorded findingHost
    (withProgram sampleOptions (reordered twoFiles twoFiles.files.reverse))).map
    (fun f => (f.file, f.line)) =
      [("/p/b.ts", 0), ("/p/b.ts", 0), ("/p/b.ts", 0), ("/p/b.ts", 0), ("/p/a.ts", 0),
        ("/p/a.ts", 0)] := by
  decide +kernel

/-! ### A compiler that is not understood -/

/-- The compilers that a pass tests with finish. -/
def CompilersFinish (host : Host) (o : PassOptions) : Prop :=
  ForTested host o fun install =>
    ∃ output, (host.compiler.check host.workspace install (testedProject host o)).result =
      .ok output

/-- With a compiler that cannot be understood, a pass records what the rules before `expect` find in
the first file. -/
theorem recorded_of_unreadable (hconfig : activeConfig host o = .ok config)
    (hr : r.rules = config.rules) (hbanned : ∀ file ∈ ownFiles p, banned? file = none)
    {file : SourceFile} {files : List SourceFile} (hfiles : lintedFiles host o p = file :: files)
    {v : VersionToTest} {vs : List VersionToTest} (hversions : r.options.versionsToTest = v :: vs)
    (hv : (Expect.Use.mk file r.project v).Unreadable host.workspace host.compiler) :
    recorded host (withProgram o p) =
      (config.rules.takeWhile fun e => e.1 ≠ LooseText.ofString Config.expectRule).flatMap
        (Engine.otherFailures file) := by
  obtain ⟨es, x, e, hrun, hfailures⟩ :=
    Engine.exists_run_forM_of_unreadable hversions hv files
  rw [hr, ← hfiles] at hrun
  obtain ⟨es', hfrom⟩ := lintedFrom_of_forM hconfig hbanned hrun
  rw [recorded, hfrom, ← hr, ← r.before_eq_takeWhile]
  exact hfailures

/-- A host with a rule before `expect`, and compilers that print a line number that is too long. -/
def overlongHost : Host where
  workspace := { sampleProject "\x7b\x7d" "" with
    tree := (sampleProject "\x7b\x7d" "").tree.writeFile ["p", "tslint.json"]
      "\x7b\"rules\": \x7b\"trim-file\": true, \"expect\": true\x7d\x7d".toUTF8.toList }
  compiler := Expect.printing Expect.overlong

theorem versions_overlongHost : Config.versionsToTest overlongHost.workspace none sampleReleases =
    .ok sampleVersions :=
  Except.toOption_eq_some_iff.mp (by decide +kernel)

theorem isFile_script_overlongHost : ∀ v ∈ sampleVersions,
    overlongHost.workspace.isFile (Compiler.scriptPath v.path) = .ok true := by
  decide +kernel

theorem compilersFinish_overlongHost : CompilersFinish overlongHost sampleOptions :=
  forTested_sample versions_overlongHost fun v hv =>
    ⟨_, Expect.result_check_printing Expect.isPlain_overlong (isFile_script_overlongHost v hv) _⟩

/-- The number of failures that the rules before `expect` find in a file. -/
def foundBefore (host : Host) (o : PassOptions) (file : SourceFile) : Option Nat :=
  (activeConfig host o).toOption.map fun config =>
    ((config.rules.takeWhile fun e => e.1 ≠ LooseText.ofString Config.expectRule).flatMap
      (Engine.otherFailures file)).length

theorem length_recorded_overlongHost (hbanned : ∀ file ∈ ownFiles p, banned? file = none)
    {file : SourceFile} {files : List SourceFile}
    (hfiles : lintedFiles overlongHost sampleOptions p = file :: files) {n : Nat}
    (hfound : foundBefore overlongHost sampleOptions file = some n) :
    (recorded overlongHost (withProgram sampleOptions p)).length = n := by
  obtain ⟨config, hsome, rfl⟩ := Option.map_eq_some_iff.mp hfound
  have hconfig := Except.toOption_eq_some_iff.mp hsome
  obtain ⟨r, rs, hr, -, hrs, hvs⟩ := exists_enforcing hconfig
  have hversions := versions_eq_sample versions_overlongHost hrs hvs
  have hunreadable := Expect.unreadable_printing (u := ⟨file, r.project, _⟩)
    (isFile_script_overlongHost _ List.mem_cons_self)
  rw [recorded_of_unreadable hconfig hr hbanned hfiles hversions hunreadable]

/-- It is not enough that the compilers finish: which failures are recorded before a pass ends with
one that is not understood, depends on the first file. -/
theorem not_all_recordAlike : ¬ ∀ (host : Host) (o : PassOptions) (p : Program)
    (files : List SourceFile), p.files.Perm files →
    (∀ file ∈ ownFiles p, banned? file = none) → CompilersFinish host o →
    (recorded host (withProgram o p)).length =
      (recorded host (withProgram o (reordered p files))).length := by
  intro hall
  have hperm : twoFiles.files.Perm twoFiles.files.reverse := (List.reverse_perm _).symm
  have hbanned : ∀ file ∈ ownFiles twoFiles, banned? file = none := by decide +kernel
  have hlength := hall overlongHost sampleOptions twoFiles _ hperm hbanned
    compilersFinish_overlongHost
  -- the first file of one order starts with a blank line, that of the other does not
  have hone : (recorded overlongHost (withProgram sampleOptions twoFiles)).length = 1 :=
    length_recorded_overlongHost hbanned rfl (by decide +kernel)
  have hzero : (recorded overlongHost
      (withProgram sampleOptions (reordered twoFiles twoFiles.files.reverse))).length = 0 :=
    length_recorded_overlongHost (notBanned_reordered hperm hbanned) rfl (by decide +kernel)
  rw [hone, hzero] at hlength
  exact absurd hlength Nat.one_ne_zero

end DeclLint.Pass
