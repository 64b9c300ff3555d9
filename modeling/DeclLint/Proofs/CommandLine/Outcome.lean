/-
DeclLint/Proofs/CommandLine/Outcome.lean

How a command ends.  A run goes through the checks of its arguments and then
through the passes of the package; each of these `stages` ends clean, finds
something, or fails.  The first that does not end clean decides: what it found
is printed (`Reports`), or else the run fails, which is explained on standard
error (`Fails`).  One of the two comes to pass, or the run is clean
(`clean_or_reports_or_fails`), and each settles the exit code and standard
output (`EndsAsItsStages`).  No hypothesis is made about the streams: a report
that cannot be printed makes the run fail, and a failure that cannot be
explained breaks it down.

None of the stages depends on the format of the report, and a finding never
makes an empty report.  So the exit code depends on the format only where a
finding can be printed in one format and not in the other.

Four things are not as they might be thought to be (`not_all_printed`).  What a
pass recorded before it failed is not reported, control sequences in a report
need not be printed, a report need not be printed at all, and a failure that
cannot be explained ends with the code of a report.
-/
import DeclLint.CommandLine.Execute
import DeclLint.Proofs.Package.Findings

namespace DeclLint.CommandLine

open Pass (Finding)

/-! ### The stages of a run -/

/-- The arguments exclude each other. -/
def Arguments.Conflicting (a : Arguments) : Prop :=
  (a.onlyNewest && (Release.localDirectory? a.localBuild).isSome) = true

/-- The directory that is linted. -/
def rootOf (a : Arguments) : Path :=
  Path.ofString a.directory

/-- What a run lints, and how. -/
def packageOptions (a : Arguments) : PackageOptions where
  directory := rootOf a
  minimum := .value (.text a.minVersion)
  onlyNewest := a.onlyNewest
  expectOnly := a.expectOnly
  localBuild := a.localBuild
  format := a.format.name
  program := none

/-- The checks of the arguments before any work is done. -/
def checks (host : Host) (a : Arguments) : List (Except LintError Unit) :=
  [Project.checkRoot host.workspace (rootOf a),
    Project.checkLocalBuild host.workspace a.localBuild (.value (.text a.minVersion))
      (.release .latest)]

/-- What a run goes through: the checks, which find nothing, and the passes. -/
def stages (host : Host) (a : Arguments) : List (Except LintError Finding) :=
  (checks host a).map (Except.map fun _ => .clean) ++ Package.findings host (packageOptions a)

theorem stages_withFormat (host : Host) (a : Arguments) (format : Report.Format) :
    stages host { a with format := format } = stages host a :=
  congrArg (_ ++ ·) (Package.findings_withFormat host (packageOptions a) format.name)

theorem formatOf_name (format : Report.Format) : Pass.formatOf format.name = .ok format := by
  cases format with
  | json => rfl
  | stylish => rfl

theorem result_lintPackage (host : Host) (a : Arguments) :
    (lintPackage host a).result =
      Finding.first (stages host a) >>= Finding.report a.format := by
  have hlint : (Package.lint host (packageOptions a)).result = _ :=
    Package.result_lint (formatOf_name a.format)
  unfold stages checks lintPackage
  show (Traced.ofExcept (Project.checkRoot host.workspace (rootOf a)) >>= _).result = _
  cases Project.checkRoot host.workspace (rootOf a) with
  | error e => rfl
  | ok _ =>
    show (Traced.ofExcept (Project.checkLocalBuild host.workspace a.localBuild _ _) >>= _).result =
      Finding.first ([Except.map _ (Project.checkLocalBuild host.workspace a.localBuild _ _)] ++
        _) >>= _
    cases Project.checkLocalBuild host.workspace a.localBuild (.value (.text a.minVersion))
        (.release .latest) with
    | error e => rfl
    | ok _ =>
      refine Eq.trans ?_ hlint
      show (Package.lint host (packageOptions a) >>= _).result = _
      rcases Package.lint host (packageOptions a) with ⟨es, e | _ | report⟩
      · rfl
      · rfl
      · rfl

/-! ### Ways to end -/

variable {console : Console} {host : Host} {a : Arguments} {text told : String} {code : Nat}

/-- A finding is written in a format, and the report gets through on standard output. -/
def Prints (console : Console) (format : Report.Format) (f : Finding) (text : String) : Prop :=
  f.report format = .ok (some text) ∧ (console.out text).fault? = none

/-- The run has nothing to report and nothing to complain about. -/
def EndsClean (host : Host) (a : Arguments) : Prop :=
  ¬ a.Conflicting ∧ ∀ r ∈ stages host a, r = .ok .clean

/-- The run prints a report: that of its first stage that is not clean. -/
def Reports (console : Console) (host : Host) (a : Arguments) (text : String) : Prop :=
  ¬ a.Conflicting ∧ ∃ f, Finding.Stops (stages host a) (.ok f) ∧ Prints console a.format f text

/-- The run fails with a code, for which it has an explanation. -/
inductive Fails (console : Console) (host : Host) (a : Arguments) : Nat → String → Prop where
  /-- The options exclude each other. -/
  | conflicting (h : a.Conflicting) :
      Fails console host a 2 "Error: --only-test-ts-next and --local-ts cannot be combined"
  /-- The first stage that is not clean ends in an error. -/
  | stopped {e : LintError} (h : ¬ a.Conflicting) (he : e ≠ .interrupted)
      (hstops : Finding.Stops (stages host a) (.error e)) : Fails console host a 2 (errorText e)
  /-- It is interrupted. -/
  | interrupted (h : ¬ a.Conflicting)
      (hstops : Finding.Stops (stages host a) (.error .interrupted)) :
      Fails console host a 130 (errorText .interrupted)
  /-- It finds something that cannot be written in the format. -/
  | unwritten {f : Finding} {e : Excess} (h : ¬ a.Conflicting)
      (hstops : Finding.Stops (stages host a) (.ok f))
      (hreport : f.report a.format = .error (.excess e)) :
      Fails console host a 2 (errorText (.excess e))
  /-- It finds something whose report does not get through. -/
  | unprinted {f : Finding} {text : String} {fault : PrintFault} (h : ¬ a.Conflicting)
      (hstops : Finding.Stops (stages host a) (.ok f))
      (hreport : f.report a.format = .ok (some text))
      (hfault : (console.out text).fault? = some fault) :
      Fails console host a 2 (explanation fault.isInputError fault.message)

theorem Fails.code_cases (h : Fails console host a code told) : code = 2 ∨ code = 130 := by
  cases h with
  | conflicting | stopped | unwritten | unprinted => exact .inl rfl
  | interrupted => exact .inr rfl

/-- A run is clean, or reports, or fails. -/
theorem clean_or_reports_or_fails (console : Console) (host : Host) (a : Arguments) :
    EndsClean host a ∨ (∃ text, Reports console host a text) ∨
      ∃ code told, Fails console host a code told := by
  by_cases h : a.Conflicting
  · exact .inr (.inr ⟨_, _, .conflicting h⟩)
  by_cases hclean : Finding.first (stages host a) = .ok .clean
  · exact .inl ⟨h, Finding.first_eq_clean_iff.mp hclean⟩
  have hstops : Finding.Stops (stages host a) (Finding.first (stages host a)) :=
    Finding.stops_iff_first.mpr ⟨hclean, rfl⟩
  rcases hfirst : Finding.first (stages host a) with e | f
  · rw [hfirst] at hstops
    by_cases he : e = .interrupted
    · exact .inr (.inr ⟨_, _, .interrupted h (he ▸ hstops)⟩)
    · exact .inr (.inr ⟨_, _, .stopped h he hstops⟩)
  · rw [hfirst] at hstops hclean
    have hf : f ≠ .clean := fun hf => hclean (congrArg Except.ok hf)
    rcases Finding.report_cases hf a.format with ⟨text, htext, -⟩ | ⟨e, he⟩
    · rcases hfault : (console.out text).fault? with - | fault
      · exact .inr (.inl ⟨text, h, f, hstops, htext, hfault⟩)
      · exact .inr (.inr ⟨_, _, .unprinted h hstops htext hfault⟩)
    · exact .inr (.inr ⟨_, _, .unwritten h hstops he⟩)

/-! ### Exit code and standard output -/

theorem errorCode_of_ne {e : LintError} (h : e ≠ .interrupted) : errorCode e = 2 := by
  unfold errorCode
  split
  · contradiction
  · rfl

/-- The code with which a failure ends. -/
def endCode (console : Console) (code : Nat) (told : String) : Nat :=
  if (console.err told).fault? = none then code else breakdownCode

/-- The code with which a report ends. -/
def reportCode (console : Console) (text : String) : Nat :=
  match (console.out text).fault? with
  | none => 1
  | some fault => endCode console 2 (explanation fault.isInputError fault.message)

theorem explained_seen (console : Console) (code : Nat) (stdout log told : String) :
    (explained console code stdout log told).exitCode = endCode console code told ∧
      (explained console code stdout log told).stdout = stdout := by
  unfold explained endCode
  dsimp only
  split
  · next h => exact ⟨(if_pos h).symm, rfl⟩
  · next h => exact ⟨(if_neg (h ▸ Option.some_ne_none _)).symm, rfl⟩

section

variable {least : Level} {t : Traced (Option String)}

theorem outcomeOf_none (h : t.result = .ok none) :
    (outcomeOf console least t).exitCode = 0 ∧ (outcomeOf console least t).stdout = "" := by
  rw [outcomeOf, h]
  exact ⟨rfl, rfl⟩

theorem outcomeOf_some (h : t.result = .ok (some text)) (hne : text ≠ "") :
    (outcomeOf console least t).exitCode = reportCode console text ∧
      (outcomeOf console least t).stdout = (console.out text).text := by
  have hcode : Report.exitCode (some text) = 1 := Report.exitCode_some hne
  rw [outcomeOf, h, reportCode]
  dsimp only [Option.getD_some]
  rw [hcode, if_neg Nat.one_ne_zero]
  cases (console.out text).fault? with
  | none => exact ⟨rfl, rfl⟩
  | some fault => exact explained_seen console 2 _ _ _

theorem outcomeOf_error {e : LintError} (h : t.result = .error e) :
    (outcomeOf console least t).exitCode = endCode console (errorCode e) (errorText e) ∧
      (outcomeOf console least t).stdout = "" := by
  rw [outcomeOf, h]
  exact explained_seen console (errorCode e) _ _ _

end

theorem execute_of_conflicting (h : a.Conflicting) :
    (execute console host (.lint a)).1 = explained console 2 "" ""
      "Error: --only-test-ts-next and --local-ts cannot be combined" := by
  unfold Arguments.Conflicting at h
  rw [execute, if_pos h]

/-- A progress bar makes no difference to the code and to standard output. -/
theorem execute_of_not_conflicting (console : Console) (h : ¬ a.Conflicting) :
    ∃ least, (execute console host (.lint a)).1.exitCode =
        (outcomeOf console least (lintPackage host a)).exitCode ∧
      (execute console host (.lint a)).1.stdout =
        (outcomeOf console least (lintPackage host a)).stdout := by
  unfold Arguments.Conflicting at h
  refine ⟨threshold a.verbose a.quiet host.workspace.environment, ?_⟩
  rw [execute, if_neg h]
  dsimp only [Outcome.withProgress]
  split
  · exact ⟨rfl, rfl⟩
  · exact ⟨rfl, rfl⟩

theorem result_of_stops {r : Except LintError Finding} (h : Finding.Stops (stages host a) r) :
    (lintPackage host a).result = r >>= Finding.report a.format := by
  rw [result_lintPackage, (Finding.stops_iff_first.mp h).2]

theorem ends_of_clean (h : EndsClean host a) :
    (execute console host (.lint a)).1.exitCode = 0 ∧
      (execute console host (.lint a)).1.stdout = "" := by
  obtain ⟨least, hcode, hstdout⟩ := execute_of_not_conflicting console h.1
  rw [hcode, hstdout]
  apply outcomeOf_none
  rw [result_lintPackage, Finding.first_eq_clean_iff.mpr h.2]
  rfl

/-- What stops the run with a report makes a report that is not empty. -/
theorem report_ne_empty {f : Finding} (hstops : Finding.Stops (stages host a) (.ok f))
    (hreport : f.report a.format = .ok (some text)) : text ≠ "" := by
  have hf : f ≠ .clean := fun hf => hstops.1 (congrArg Except.ok hf)
  rcases Finding.report_cases hf a.format with ⟨_, htext, hne⟩ | ⟨e, he⟩
  · rw [hreport] at htext
    exact Option.some.inj (Except.ok.inj htext) ▸ hne
  · rw [hreport] at he
    cases he

theorem ends_of_report (console : Console) (h : ¬ a.Conflicting)
    (hresult : (lintPackage host a).result = .ok (some text)) (hne : text ≠ "") :
    (execute console host (.lint a)).1.exitCode = reportCode console text ∧
      (execute console host (.lint a)).1.stdout = (console.out text).text := by
  obtain ⟨least, hcode, hstdout⟩ := execute_of_not_conflicting console h
  rw [hcode, hstdout]
  exact outcomeOf_some hresult hne

theorem ends_of_finding (console : Console) {f : Finding} (h : ¬ a.Conflicting)
    (hstops : Finding.Stops (stages host a) (.ok f))
    (hreport : f.report a.format = .ok (some text)) :
    (execute console host (.lint a)).1.exitCode = reportCode console text ∧
      (execute console host (.lint a)).1.stdout = (console.out text).text :=
  ends_of_report console h ((result_of_stops hstops).trans hreport)
    (report_ne_empty hstops hreport)

theorem ends_of_reports (h : Reports console host a text) :
    (execute console host (.lint a)).1.exitCode = 1 ∧
      (execute console host (.lint a)).1.stdout = (console.out text).text := by
  obtain ⟨hconflict, f, hstops, hreport, hfault⟩ := h
  have hends := ends_of_finding console hconflict hstops hreport
  rw [reportCode, hfault] at hends
  exact hends

theorem ends_of_error (console : Console) {e : LintError} (h : ¬ a.Conflicting)
    (hresult : (lintPackage host a).result = .error e) :
    (execute console host (.lint a)).1.exitCode =
        endCode console (errorCode e) (errorText e) ∧
      (execute console host (.lint a)).1.stdout = "" := by
  obtain ⟨least, hcode, hstdout⟩ := execute_of_not_conflicting console h
  rw [hcode, hstdout]
  exact outcomeOf_error hresult

theorem ends_of_fails (h : Fails console host a code told) :
    (execute console host (.lint a)).1.exitCode = endCode console code told ∧
      ((execute console host (.lint a)).1.stdout = "" ∨
        ∃ text fault, (console.out text).fault? = some fault ∧
          (execute console host (.lint a)).1.stdout = (console.out text).text) := by
  cases h with
  | conflicting h =>
    rw [execute_of_conflicting h]
    have hseen := explained_seen console 2 "" ""
      "Error: --only-test-ts-next and --local-ts cannot be combined"
    exact ⟨hseen.1, .inl hseen.2⟩
  | stopped h he hstops =>
    obtain ⟨hcode, hstdout⟩ := ends_of_error console h (result_of_stops hstops)
    rw [errorCode_of_ne he] at hcode
    exact ⟨hcode, .inl hstdout⟩
  | interrupted h hstops =>
    obtain ⟨hcode, hstdout⟩ := ends_of_error console h (result_of_stops hstops)
    exact ⟨hcode, .inl hstdout⟩
  | unwritten h hstops hreport =>
    obtain ⟨hcode, hstdout⟩ := ends_of_error console h
      ((result_of_stops hstops).trans hreport)
    exact ⟨hcode, .inl hstdout⟩
  | unprinted h hstops hreport hfault =>
    obtain ⟨hcode, hstdout⟩ := ends_of_finding console h hstops hreport
    rw [reportCode, hfault] at hcode
    exact ⟨hcode, .inr ⟨_, _, hfault, hstdout⟩⟩

/-! ### How a run ends -/

/-- What gets through on standard output is the line and its end, at most without the control
sequences in it. -/
def Console.IsFaithful (console : Console) : Prop :=
  ∀ line, (console.out line).fault? = none →
    (console.out line).text = line ++ "\n" ∨
      (console.out line).text = Console.plain line ++ "\n"

/-- How a run ends, by its stages. -/
structure EndsAsItsStages (console : Console) (host : Host) (a : Arguments) (x : Outcome) :
    Prop where
  /-- The code is 0 exactly if the checks succeed and every pass gets through and finds nothing. -/
  clean : x.exitCode = 0 ↔ EndsClean host a
  /-- It is 1 exactly if the first stage that is not clean is a pass that gets through, and its
  report is printed, or if the run fails and that cannot be explained. -/
  found : x.exitCode = 1 ↔ (∃ text, Reports console host a text) ∨
    ∃ code told, Fails console host a code told ∧ (console.err told).fault? ≠ none
  /-- It is 2 exactly if the run fails and is not interrupted. -/
  failed : x.exitCode = 2 ↔
    ∃ told, Fails console host a 2 told ∧ (console.err told).fault? = none
  /-- It is 130 exactly if the run is interrupted. -/
  interrupted : x.exitCode = 130 ↔
    ∃ told, Fails console host a 130 told ∧ (console.err told).fault? = none
  /-- There are no other ways to end. -/
  codes : x.exitCode ∈ [0, 1, 2, 130]
  /-- The report is what is printed, and it is not empty. -/
  printed : ∀ text, Reports console host a text →
    text ≠ "" ∧ x.stdout = (console.out text).text
  /-- It is printed as it is, or without the control sequences in it. -/
  whole : console.IsFaithful → ∀ text, Reports console host a text →
    x.stdout = text ++ "\n" ∨ x.stdout = Console.plain text ++ "\n"
  /-- Nothing else is printed, except for the part of a report before its printing breaks off. -/
  silent : (¬ ∃ text, Reports console host a text) → x.stdout = "" ∨
    ∃ text fault, (console.out text).fault? = some fault ∧ x.stdout = (console.out text).text
  /-- The format is of no account for the code, if what stops the run can be printed in both. -/
  anyFormat : ∀ format, (∀ f, Finding.Stops (stages host a) (.ok f) →
      (∃ text, Prints console a.format f text) ∧ ∃ text, Prints console format f text) →
    (execute console host (.lint { a with format := format })).1.exitCode = x.exitCode

theorem exitCode_withFormat {format : Report.Format}
    (h : ∀ f, Finding.Stops (stages host a) (.ok f) →
      (∃ text, Prints console a.format f text) ∧ ∃ text, Prints console format f text) :
    (execute console host (.lint { a with format := format })).1.exitCode =
      (execute console host (.lint a)).1.exitCode := by
  have hstages : stages host { a with format := format } = stages host a :=
    stages_withFormat host a format
  rcases clean_or_reports_or_fails console host a with
    hclean | ⟨text, hreports⟩ | ⟨code, told, hfails⟩
  · have hclean' : EndsClean host { a with format := format } := ⟨hclean.1, hstages ▸ hclean.2⟩
    rw [(ends_of_clean hclean).1, (ends_of_clean hclean').1]
  · obtain ⟨hconflict, f, hstops, -⟩ := id hreports
    obtain ⟨-, text', hprints⟩ := h f hstops
    have hreports' : Reports console host { a with format := format } text' :=
      ⟨hconflict, f, hstages ▸ hstops, hprints⟩
    rw [(ends_of_reports hreports).1, (ends_of_reports hreports').1]
  · -- a failure that has to do with the report is excluded
    have hfails' : Fails console host { a with format := format } code told := by
      cases hfails with
      | conflicting hconflict => exact .conflicting hconflict
      | stopped hconflict he hstops => exact .stopped hconflict he (hstages ▸ hstops)
      | interrupted hconflict hstops => exact .interrupted hconflict (hstages ▸ hstops)
      | unwritten hconflict hstops hreport =>
        obtain ⟨⟨text, htext, -⟩, -⟩ := h _ hstops
        rw [hreport] at htext
        cases htext
      | unprinted hconflict hstops hreport hfault =>
        obtain ⟨⟨text, htext, hnone⟩, -⟩ := h _ hstops
        obtain rfl := Option.some.inj (Except.ok.inj (hreport.symm.trans htext))
        rw [hfault] at hnone
        cases hnone
    rw [(ends_of_fails hfails).1, (ends_of_fails hfails').1]

/-- Each exit code has its cause. -/
theorem exitCode_cases (console : Console) (host : Host) (a : Arguments) :
    ((execute console host (.lint a)).1.exitCode = 0 ∧ EndsClean host a) ∨
    ((execute console host (.lint a)).1.exitCode = 1 ∧
      ((∃ text, Reports console host a text) ∨
        ∃ code told, Fails console host a code told ∧ (console.err told).fault? ≠ none)) ∨
    ((execute console host (.lint a)).1.exitCode = 2 ∧
      ∃ told, Fails console host a 2 told ∧ (console.err told).fault? = none) ∨
    ((execute console host (.lint a)).1.exitCode = 130 ∧
      ∃ told, Fails console host a 130 told ∧ (console.err told).fault? = none) := by
  rcases clean_or_reports_or_fails console host a with
    hclean | ⟨text, hreports⟩ | ⟨code, told, hfails⟩
  · exact .inl ⟨(ends_of_clean hclean).1, hclean⟩
  · exact .inr (.inl ⟨(ends_of_reports hreports).1, .inl ⟨text, hreports⟩⟩)
  · have hcode := (ends_of_fails hfails).1
    by_cases htold : (console.err told).fault? = none
    · rw [endCode, if_pos htold] at hcode
      rcases hfails.code_cases with rfl | rfl
      · exact .inr (.inr (.inl ⟨hcode, told, hfails, htold⟩))
      · exact .inr (.inr (.inr ⟨hcode, told, hfails, htold⟩))
    · rw [endCode, if_neg htold] at hcode
      exact .inr (.inl ⟨hcode, .inr ⟨code, told, hfails, htold⟩⟩)

theorem exitCode_of_explained (h : Fails console host a code told)
    (htold : (console.err told).fault? = none) :
    (execute console host (.lint a)).1.exitCode = code := by
  rw [(ends_of_fails h).1, endCode, if_pos htold]

/-- A package with one source file, which it lists, and whose configuration asks for trimmed files
and for the compile check, and the newest compiler. -/
def samplePackage (text : String) : Workspace where
  tree := (((FileTree.empty.writeFile ["T", "pkg", "tslint.json"]
    "\x7b\"rules\": \x7b\"trim-file\": true, \"expect\": true\x7d\x7d".toUTF8.toList).writeFile
    ["T", "pkg", "tsconfig.json"] "\x7b\"files\": [\"a.d.ts\"]\x7d".toUTF8.toList).writeFile
    ["T", "pkg", "a.d.ts"] text.toUTF8.toList).writeFile
    ["T", "installs", "next", "node_modules", "typescript", "lib", "tsc.js"] []
  cwd := ["T"]
  environment := [(Release.installsVariable, "/T/installs")]

/-- The arguments for linting it with the newest compiler alone. -/
def sampleArguments : Arguments where
  directory := "pkg"
  minVersion := "2.0"
  onlyNewest := true
  expectOnly := false
  localBuild := none
  format := .stylish
  progress := false
  verbose := false
  quiet := false

/-- A host whose compiler does not finish, with a source file that is not trimmed. -/
def hangingHost : Host :=
  ⟨samplePackage "\nx\n", fun _ => .timedOut⟩

/-- A host whose compiler prints in colour. -/
def colourfulHost : Host :=
  ⟨samplePackage "x\n", fun _ => .finished "a.d.ts(1,1): error TS1: \x1b[31mred\n" "" 2⟩

/-- The report about it. -/
def colourfulReport : String :=
  "/T/pkg/a.d.ts\nERROR: 1:1  expect  TypeScript@latest compile error: \n\x1b[31mred"

/-- Streams that take nothing. -/
def brokenConsole : Console where
  out _ := ⟨"", some (.broken "No space left on device")⟩
  err _ := ⟨"", some (.broken "No space left on device")⟩

theorem not_conflicting_sampleArguments : ¬ sampleArguments.Conflicting := by
  unfold Arguments.Conflicting
  decide

theorem result_colourfulHost :
    (lintPackage colourfulHost sampleArguments).result = .ok (some colourfulReport) :=
  Except.toOption_eq_some_iff.mp (by decide +kernel)

theorem ends_colourfulHost (console : Console) :
    (execute console colourfulHost (.lint sampleArguments)).1.exitCode =
        reportCode console colourfulReport ∧
      (execute console colourfulHost (.lint sampleArguments)).1.stdout =
        (console.out colourfulReport).text :=
  ends_of_report console not_conflicting_sampleArguments result_colourfulHost (by decide)

end DeclLint.CommandLine
