/-
DeclLint/Proofs/Rule/Account.lean

What a call of the rule `expect` returns, line by line.  The diagnostics may be any
that compilers have, remembered or new, and the memory need not be one that the rule
has filled.  For each compiler of the options, in their order, the call returns the
*account* of the file (`rule_accounts`): the diagnostics about the whole project, if
the compiler is new, then those in the file on lines without an expectation, and last
one failure for each line of the file that lacks the error expected on it.

An account balances (`accounts_account`).  A line with an expectation has an error
or one failure for missing it, never both; every other error of the file is
reported as often as the compiler made it; and nothing is missed behind the last line.

The lines with a missing error come in ascending order, as expected lines do
(`pairwise_expectedLines`).
-/
import DeclLint.Proofs.Rule.Expectation
import DeclLint.Proofs.Rule.Session
import Mathlib.Data.List.Count

namespace DeclLint

namespace Expect

variable {w : Workspace} {compiler : Compiler} {project : Path} {file : SourceFile}
  {v : VersionToTest} {ds : List Diagnostic} {n : Nat}

/-! ### The account of a file -/

/-- The number of lines of a file. -/
def lineCount (file : SourceFile) : Nat :=
  file.text.toList.count '\n' + 1

/-- The diagnostic is about the file. -/
def IsIn (file : SourceFile) (d : Diagnostic) : Prop :=
  d.file = some (Path.normalForm file.name)

instance (file : SourceFile) : DecidablePred (IsIn file) := fun d =>
  inferInstanceAs (Decidable (d.file = some (Path.normalForm file.name)))

/-- An error is expected on the line. -/
def Expects (file : SourceFile) (line : Int) : Prop :=
  ∃ n ∈ expectedLines file.text.toList, (n : Int) = line

instance (file : SourceFile) : DecidablePred (Expects file) := fun line =>
  inferInstanceAs (Decidable (∃ n ∈ expectedLines file.text.toList, (n : Int) = line))

/-- A diagnostic is about the line of the file. -/
def HasError (file : SourceFile) (ds : List Diagnostic) (line : Int) : Prop :=
  ∃ d ∈ ds, IsIn file d ∧ d.line = line

instance (file : SourceFile) (ds : List Diagnostic) : DecidablePred (HasError file ds) :=
  fun line => inferInstanceAs (Decidable (∃ d ∈ ds, IsIn file d ∧ d.line = line))

/-- The diagnostics about the whole project. -/
def projectWide (ds : List Diagnostic) : List Diagnostic :=
  ds.filter fun d => d.file = none

/-- The diagnostics in a file that nothing expects. -/
def unexpectedIn (file : SourceFile) (ds : List Diagnostic) : List Diagnostic :=
  ds.filter fun d => IsIn file d ∧ ¬ Expects file d.line

/-- The lines of a file that lack an expected error, in ascending order. -/
def missedLines (file : SourceFile) (ds : List Diagnostic) : List Nat :=
  (List.range (lineCount file)).filter fun (n : Nat) => Expects file n ∧ ¬ HasError file ds n

/-- The failure for a diagnostic in a file. -/
def reportIn (file : SourceFile) (v : VersionToTest) (d : Diagnostic) : Failure :=
  compileError file v d.line d.character d

/-- The failures of a file under one compiler, which is new or has been used before. -/
def account (file : SourceFile) (v : VersionToTest) (new : Bool) (ds : List Diagnostic) :
    List Failure :=
  (if new then (projectWide ds).map (compileError file v 0 0) else []) ++
    ((unexpectedIn file ds).map (reportIn file v) ++
      (missedLines file ds).map (missingError file v))

/-! ### Going through the lines -/

/-- Going through the expected lines in their order is going through all lines. -/
theorem filter_expectedLines (p : Nat → Bool) :
    ((expectedLines file.text.toList).filter fun n => p n && decide (n < lineCount file)) =
      (List.range (lineCount file)).filter fun (n : Nat) => decide (Expects file n) && p n := by
  have hleft : ((expectedLines file.text.toList).filter
      fun n => p n && decide (n < lineCount file)).Pairwise (· < ·) :=
    (pairwise_expectedLines _).filter _
  have hright : ((List.range (lineCount file)).filter
      fun (n : Nat) => decide (Expects file n) && p n).Pairwise (· < ·) :=
    List.pairwise_lt_range.filter _
  refine List.Perm.eq_of_pairwise (fun a b _ _ hab hba => absurd hba (Nat.lt_asymm hab))
    hleft hright ?_
  refine (List.perm_ext_iff_of_nodup (hleft.imp Nat.ne_of_lt) (hright.imp Nat.ne_of_lt)).mpr
    fun n => ?_
  have hexpects : Expects file n ↔ n ∈ expectedLines file.text.toList := by
    simp only [Expects, Int.natCast_inj, exists_eq_right]
  simp only [List.mem_filter, List.mem_range, Bool.and_eq_true, decide_eq_true_eq, hexpects]
  tauto

/-! ### The rule renders accounts -/

theorem isExpected_iff {line : Int} : isExpected file line = true ↔ Expects file line := by
  simp [isExpected, Expects]

theorem unexpectedFailures_eq (file : SourceFile) (v : VersionToTest) (ds : List Diagnostic) :
    unexpectedFailures file v ds = (unexpectedIn file ds).map (reportIn file v) := by
  rw [unexpectedFailures, diagnosticsIn, List.filter_filter]
  refine congrArg (List.map _) (List.filter_congr fun d _ => ?_)
  rw [Bool.eq_iff_iff]
  simp only [Bool.and_eq_true, Bool.not_eq_true', decide_eq_true_eq, ← isExpected_iff,
    Bool.not_eq_true, IsIn]
  exact and_comm

theorem missingFailures_eq (file : SourceFile) (v : VersionToTest) (ds : List Diagnostic) :
    missingFailures file v ds = (missedLines file ds).map (missingError file v) := by
  have hcount : (Text.newlinePieces file.text.toList).length = lineCount file :=
    Text.length_pieces '\n' _
  have herror : ∀ n : Nat, ((diagnosticsIn file ds).map (·.line)).contains (n : Int) = true ↔
      HasError file ds n := by
    intro n
    simp [diagnosticsIn, HasError, IsIn, and_assoc]
  rw [missingFailures, hcount, filter_expectedLines
    fun n => !((diagnosticsIn file ds).map (·.line)).contains (n : Int)]
  refine congrArg (List.map _) (List.filter_congr fun n _ => ?_)
  rw [Bool.eq_iff_iff]
  simp only [Bool.and_eq_true, Bool.not_eq_true', decide_eq_true_eq, ← herror, Bool.not_eq_true]

theorem failuresIn_eq_account (file : SourceFile) (v : VersionToTest) (new : Bool)
    (ds : List Diagnostic) : failuresIn file v new ds = account file v new ds := by
  rw [failuresIn, unexpectedFailures_eq, missingFailures_eq, account, projectFailures, projectWide]
  simp only [← Option.isNone_iff_eq_none, Bool.decide_eq_true]

/-! ### Accounts balance -/

/-- Failures account for the errors of a file and for those that are expected. -/
structure Accounts (file : SourceFile) (v : VersionToTest) (new : Bool) (ds : List Diagnostic)
    (fs : List Failure) : Prop where
  /-- A line with an expectation has an error, or else one failure says that it has none. -/
  settled : ∀ n < lineCount file, Expects file n →
    HasError file ds n ∧ fs.count (missingError file v n) = 0 ∨
      ¬ HasError file ds n ∧ fs.count (missingError file v n) = 1
  /-- An error on any other line is reported as often as there are diagnostics that say so, apart
  from those about the whole project that say the same. -/
  reported : ∀ d, fs.count (reportIn file v d) =
    (if new then (projectWide ds).countP fun e => compileError file v 0 0 e = reportIn file v d
      else 0) +
    (unexpectedIn file ds).countP fun e => reportIn file v e = reportIn file v d
  /-- Only lines of the file that an error is expected on miss one. -/
  missed : ∀ n, missingError file v n ∈ fs → n < lineCount file ∧ Expects file n

theorem compileError_ne_missingError (line character : Int) (d : Diagnostic) (n : Nat) :
    compileError file v line character d ≠ missingError file v n := by
  intro h
  have hmessage := congrArg (·.message.toList) h
  -- behind the name of the compiler one goes on with a blank, the other with a colon
  simp [compileError, missingError, failure, String.toList_append] at hmessage

theorem missingError_injective : Function.Injective (missingError file v) := by
  intro n m h
  exact Int.ofNat_inj.mp (congrArg (·.line) h)

theorem count_map (g : Diagnostic → Failure) (f : Failure) (ds : List Diagnostic) :
    (ds.map g).count f = ds.countP fun d => g d = f := by
  rw [List.count, List.countP_map]
  exact List.countP_congr fun d _ => by simp

theorem mem_missedLines_iff :
    n ∈ missedLines file ds ↔ n < lineCount file ∧ Expects file n ∧ ¬ HasError file ds n := by
  simp only [missedLines, List.mem_filter, List.mem_range, decide_eq_true_eq]

/-- A line is missed once, or not at all. -/
theorem count_missingError_account (new : Bool) :
    (account file v new ds).count (missingError file v n) =
      if n ∈ missedLines file ds then 1 else 0 := by
  have hproject : (if new then (projectWide ds).map (compileError file v 0 0)
      else []).count (missingError file v n) = 0 := by
    cases new
    · rfl
    · exact (count_map _ _ _).trans (by simp [compileError_ne_missingError])
  have hfile : ((unexpectedIn file ds).map (reportIn file v)).count
      (missingError file v n) = 0 := by
    rw [count_map]
    simp [reportIn, compileError_ne_missingError]
  have hnodup : (missedLines file ds).Nodup := List.nodup_range.filter _
  rw [account, List.count_append, List.count_append, hproject, hfile,
    List.count_map_of_injective _ _ missingError_injective, hnodup.count, Nat.zero_add,
    Nat.zero_add]

theorem count_reportIn_account (new : Bool) (d : Diagnostic) :
    (account file v new ds).count (reportIn file v d) =
      (if new then (projectWide ds).countP fun e => compileError file v 0 0 e = reportIn file v d
        else 0) +
      (unexpectedIn file ds).countP fun e => reportIn file v e = reportIn file v d := by
  have hmissing : ((missedLines file ds).map (missingError file v)).count
      (reportIn file v d) = 0 := by
    refine List.count_eq_zero.mpr fun h => ?_
    obtain ⟨n, -, hn⟩ := List.mem_map.mp h
    exact compileError_ne_missingError _ _ d n hn.symm
  rw [account, List.count_append, List.count_append, hmissing, Nat.add_zero, count_map]
  congr 1
  cases new
  · rfl
  · exact count_map _ _ _

/-- **An account balances.** -/
theorem accounts_account (file : SourceFile) (v : VersionToTest) (new : Bool)
    (ds : List Diagnostic) : Accounts file v new ds (account file v new ds) where
  settled n hn hexpects := by
    rw [count_missingError_account]
    by_cases herror : HasError file ds n
    · exact .inl ⟨herror, if_neg fun h => (mem_missedLines_iff.mp h).2.2 herror⟩
    · exact .inr ⟨herror, if_pos (mem_missedLines_iff.mpr ⟨hn, hexpects, herror⟩)⟩
  reported d := count_reportIn_account new d
  missed n hmem := by
    have hcount := List.count_pos_iff.mpr hmem
    rw [count_missingError_account] at hcount
    split at hcount
    · next h =>
      obtain ⟨hn, hexpects, -⟩ := mem_missedLines_iff.mp h
      exact ⟨hn, hexpects⟩
    · cases hcount

/-! ### One compiler -/

/-- What a compiler answers: what is remembered of it, or else what it says when it is run. -/
def answer (w : Workspace) (compiler : Compiler) (m : Memo) (project : Path) (v : VersionToTest) :
    Except LintError (List Diagnostic) :=
  match m.diagnostics.get? (keyOf project v) with
  | some ds => .ok ds
  | none => compiled w compiler project v.path

/-- Two memories have the same answers, and the compilers of `seen` are reported. -/
structure Continues (w : Workspace) (compiler : Compiler) (project : Path) (m : Memo)
    (seen : List Key) (m' : Memo) : Prop where
  answers : ∀ u, answer w compiler m' project u = answer w compiler m project u
  reported : ∀ k, k ∈ m'.reported ↔ k ∈ seen

/-- Asking for diagnostics changes no answer, since a compiler that is run is remembered with what
it said. -/
theorem exists_run_diagnosticsOf {m : Memo} (h : answer w compiler m project v = .ok ds) :
    ∃ es m', (diagnosticsOf w compiler project v).run m = (⟨es, .ok ds⟩, m') ∧
      Continues w compiler project m m.reported m' := by
  rcases hget : m.diagnostics.get? (keyOf project v) with - | ds'
  · have hcompiled : compiled w compiler project v.path = .ok ds := by
      rw [answer, hget] at h
      exact h
    have hrun : (diagnosticsOf w compiler project v).run m = _ := run_diagnosticsOf_of_none hget
    rw [hcompiled] at hrun
    refine ⟨_, _, hrun, fun u => ?_, fun k => Iff.rfl⟩
    by_cases hu : keyOf project u = keyOf project v
    · have hpath : u.path = v.path := (Prod.mk.inj hu).2
      rw [answer, answer, hu, hget, Table.get?_put_self, hpath, hcompiled]
    · rw [answer, answer, Table.get?_put_of_ne hu]
  · have hds : ds' = ds := by
      rw [answer, hget] at h
      exact Except.ok.inj h
    subst hds
    exact ⟨[], m, run_diagnosticsOf_of_some hget, fun u => rfl, fun k => Iff.rfl⟩

theorem exists_run_firstReport (m : Memo) (key : Key) :
    ∃ m', (firstReport key).run m = (⟨[], .ok (!m.reported.contains key)⟩, m') ∧
      m'.diagnostics = m.diagnostics ∧ ∀ k, k ∈ m'.reported ↔ k ∈ m.reported ++ [key] := by
  by_cases hkey : key ∈ m.reported
  · refine ⟨m, ?_, rfl, fun k => ?_⟩
    · rw [firstReport, Run.run_get_bind, if_pos hkey, List.contains_iff_mem.mpr hkey]
      rfl
    · rw [List.mem_append, List.mem_singleton]
      exact ⟨.inl, Or.rec id fun hk => hk ▸ hkey⟩
  · refine ⟨{ m with reported := m.reported ++ [key] }, ?_, rfl, fun k => Iff.rfl⟩
    have hcontains : m.reported.contains key = false := by simpa using hkey
    rw [firstReport, Run.run_get_bind, if_neg hkey, hcontains]
    rfl

/-- One compiler gives its account of the file, whatever is remembered. -/
theorem exists_run_applyVersion_of_answer {m : Memo} (file : SourceFile)
    (h : answer w compiler m project v = .ok ds) :
    ∃ es m', (applyVersion w compiler project file v).run m =
        (⟨es, .ok (account file v (!m.reported.contains (keyOf project v)) ds)⟩, m') ∧
      Continues w compiler project m (m.reported ++ [keyOf project v]) m' := by
  obtain ⟨es, m₁, hds, hcontinues⟩ := exists_run_diagnosticsOf h
  obtain ⟨m₂, hfirst, hdiagnostics, hreported⟩ := exists_run_firstReport m₁ (keyOf project v)
  have hcontains : m₁.reported.contains (keyOf project v) =
      m.reported.contains (keyOf project v) := by
    rw [Bool.eq_iff_iff, List.contains_iff_mem, List.contains_iff_mem]
    exact hcontinues.reported _
  refine ⟨es, m₂, ?_, fun u => ?_, fun k => ?_⟩
  · rw [← failuresIn_eq_account, ← hcontains, ← List.append_nil es]
    exact Run.run_bind_of_ok hds (Run.run_bind_of_ok hfirst rfl)
  · rw [← hcontinues.answers u, answer, answer, hdiagnostics]
  · rw [hreported, List.mem_append, List.mem_append, hcontinues.reported]

/-! ### All compilers of a call -/

theorem marked_congr {seen seen' : List Key} (h : ∀ k, k ∈ seen ↔ k ∈ seen') (us : List Use) :
    marked seen us = marked seen' us := by
  induction us generalizing seen seen' with
  | nil => rfl
  | cons u us ih =>
    have hcontains : seen.contains u.key = seen'.contains u.key := by
      rw [Bool.eq_iff_iff, List.contains_iff_mem, List.contains_iff_mem]
      exact h u.key
    have hnext : ∀ k, k ∈ seen ++ [u.key] ↔ k ∈ seen' ++ [u.key] := by
      intro k
      rw [List.mem_append, List.mem_append, h]
    rw [marked, marked, hcontains, ih hnext]

/-- The accounts of a file under the compilers of a call. -/
def accountsOf (seen : List Key) (ds : VersionToTest → List Diagnostic) (us : List Use) :
    List (List Failure) :=
  (marked seen us).map fun (u, new) => account u.file u.version new (ds u.version)

theorem exists_run_versions (file : SourceFile) {m : Memo} {vs : List VersionToTest}
    {ds : VersionToTest → List Diagnostic}
    (h : ∀ v ∈ vs, answer w compiler m project v = .ok (ds v)) :
    ∃ es m', (vs.mapM (applyVersion w compiler project file)).run m =
      (⟨es, .ok (accountsOf m.reported ds (vs.map (Use.mk file project)))⟩, m') := by
  induction vs generalizing m with
  | nil => exact ⟨[], m, rfl⟩
  | cons v vs ih =>
    obtain ⟨hv, hvs⟩ := List.forall_mem_cons.mp h
    obtain ⟨es, m₁, hrun, hcontinues⟩ := exists_run_applyVersion_of_answer file hv
    obtain ⟨fs, m₂, hruns⟩ := ih fun u hu => (hcontinues.answers u).trans (hvs u hu)
    refine ⟨es ++ (fs ++ []), m₂, ?_⟩
    rw [List.mapM_cons]
    refine Run.run_bind_of_ok hrun (Run.run_bind_of_ok hruns ?_)
    rw [accountsOf, marked_congr hcontinues.reported]
    rfl

/-- **What a call returns.**  The call returns the account of the file under each compiler, one
after the other, and each of them balances. -/
theorem rule_accounts {m : Memo} {arguments : List RuleArgument} {options : ExpectOptions}
    {ds : VersionToTest → List Diagnostic}
    (hoptions : ExpectOptions.ofArguments arguments = .ok options)
    (hds : ∀ v ∈ options.versionsToTest,
      answer w compiler m (Path.ofString options.tsconfigPath) v = .ok (ds v)) :
    ((rule w compiler file arguments).run m).1.result =
        .ok (accountsOf m.reported ds (usesOf file options)).flatten ∧
      ∀ v new, Accounts file v new (ds v) (account file v new (ds v)) := by
  obtain ⟨es, m', hrun⟩ := exists_run_versions file hds
  refine ⟨?_, fun v new => accounts_account file v new (ds v)⟩
  rw [rule_eq hoptions, Run.run_bind_ok hrun]
  rfl

/-- A file that expects errors on its first two lines, and behind its last one. -/
def expectingFile : SourceFile :=
  ⟨"/p/a.ts", "f(); // $ExpectError\ng(); // $ExpectError\n// $ExpectError"⟩

/-- A compiler that finds an error in the project, one on the first line of the file, and one on
its last. -/
def threeErrors : Compiler := fun _ =>
  .finished "error TS1: p\na.ts(1,1): error TS2: m\na.ts(3,1): error TS3: k\n" "" 2

/-- An install that is asked twice: the second time the error in the project is not reported. -/
theorem rule_accounts_expectingFile :
    (∀ v ∈ [VersionToTest.mk "5.6" "/i/5.6", ⟨"5.6", "/i/5.6"⟩],
      answer twoInstalls threeErrors Memo.empty (Path.ofString "/p/tsconfig.json") v =
        .ok (said twoInstalls threeErrors (Path.ofString "/p/tsconfig.json") v)) ∧
    ∃ fs, ((rule twoInstalls threeErrors expectingFile
        [testedWith ["5.6", "5.6"]]).run Memo.empty).1.result = .ok fs ∧
      fs.map (·.line) = [0, 2, 1, 2, 1] := by
  have hanswers : ∀ v ∈ [VersionToTest.mk "5.6" "/i/5.6", ⟨"5.6", "/i/5.6"⟩],
      answer twoInstalls threeErrors Memo.empty (Path.ofString "/p/tsconfig.json") v =
        .ok (said twoInstalls threeErrors (Path.ofString "/p/tsconfig.json") v) := by
    intro v hv
    obtain rfl : v = ⟨"5.6", "/i/5.6"⟩ := by simpa using hv
    have hsome : (compiled twoInstalls threeErrors (Path.ofString "/p/tsconfig.json")
        "/i/5.6").toOption.isSome := by
      decide +kernel
    obtain ⟨ds, hds⟩ := Option.isSome_iff_exists.mp hsome
    have hcompiled := Except.toOption_eq_some_iff.mp hds
    rw [said_eq hcompiled]
    exact hcompiled
  have hrule : ((rule twoInstalls threeErrors expectingFile
      [testedWith ["5.6", "5.6"]]).run Memo.empty).1.result = _ :=
    (rule_accounts rfl hanswers).1
  exact ⟨hanswers, _, hrule, by decide +kernel⟩

end Expect

end DeclLint
