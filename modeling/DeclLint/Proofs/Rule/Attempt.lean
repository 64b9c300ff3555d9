/-
DeclLint/Proofs/Rule/Attempt.lean

Calls of the rule `expect` of which some fail.  Each call finds its own installs and its
own compiler, so one that failed may answer at the next call.  A call *reaches* its uses
one after the other, up to the first whose compiler does not answer (`Turn.reached`); if
there is such a use, the call fails, and what it found is gone.

The compilers that are reached are marked as reported, in a call that fails as in any
other (`isSettled_of_run`).  So the diagnostics about the whole project are reported by
the call that reached the compiler first, or never (`accounted_turns`): if that call
fails, no later one reports them (`not_all_loseNothing`).
-/
import DeclLint.Proofs.Rule.Account
import Mathlib.Data.List.Perm.Basic
import Mathlib.Data.List.TakeWhile

namespace DeclLint

namespace Expect

variable {w : Workspace} {compiler : Compiler} {project : Path} {file : SourceFile}
  {v : VersionToTest}

/-! ### Calls -/

/-- A call of the rule, with the installs and the compiler that it finds. -/
structure Attempt where
  workspace : Workspace
  compiler : Compiler
  call : Call

/-- A call with the memory that it found, what came of it, and the memory that it left. -/
structure Turn where
  attempt : Attempt
  before : Memo
  outcome : Traced (List Failure)
  after : Memo

/-- The calls, one after the other; each finds the memory that the one before has left, also where
that one failed. -/
def turns (m : Memo) : List Attempt → List Turn
  | [] => []
  | a :: as =>
    let (t, m') := (rule a.workspace a.compiler a.call.file a.call.arguments).run m
    ⟨a, m, t, m'⟩ :: turns m' as

namespace Turn

variable (t : Turn)

/-- What the compiler of a use answers in the call. -/
def answer (u : Use) : Except LintError (List Diagnostic) :=
  Expect.answer t.attempt.workspace t.attempt.compiler t.before u.project u.version

/-- The compiler of a use answers. -/
def answers (u : Use) : Bool :=
  (t.answer u).toOption.isSome

/-- The diagnostics of a compiler that answers. -/
def said (u : Use) : List Diagnostic :=
  (t.answer u).toOption.getD []

/-- The uses of the call. -/
def uses : List Use :=
  t.attempt.call.uses

/-- The uses that the call gets to, and whose compilers answer. -/
def reached : List Use :=
  t.uses.takeWhile t.answers

/-- The compilers that the call gets to. -/
def keys : List Key :=
  t.reached.map Use.key

/-- The call does not fail. -/
def returns : Bool :=
  t.outcome.result.toOption.isSome

/-- The failures that the call returns. -/
def failures : List Failure :=
  t.outcome.result.toOption.getD []

/-- The failures about the whole project that a use comes to. -/
def projectFailures (u : Use) : List Failure :=
  Expect.projectFailures u.file u.version (t.said u)

/-- The failures about the file alone. -/
def fileFailures (u : Use) : List Failure :=
  failuresIn u.file u.version false (t.said u)

/-- What comes of a call.  It returns if it is given options and all their compilers answer, and
then it returns what the uses come to; and it marks what it reached, whether it returns or not. -/
structure IsSettled : Prop where
  returns_iff : t.returns = true ↔
    (∃ options, ExpectOptions.ofArguments t.attempt.call.arguments = .ok options) ∧
      ∀ u ∈ t.uses, t.answers u = true
  failures_eq : t.returns = true → t.failures =
    (marked t.before.reported t.uses).flatMap fun (u, new) =>
      (if new then t.projectFailures u else []) ++ t.fileFailures u
  reported_iff : ∀ k, k ∈ t.after.reported ↔ k ∈ t.before.reported ∨ k ∈ t.keys

end Turn

/-! ### One call -/

/-- A compiler that does not answer ends the call, and nothing changes. -/
theorem exists_run_applyVersion_of_error {m : Memo} (file : SourceFile) {e : LintError}
    (h : answer w compiler m project v = .error e) :
    ∃ es, (applyVersion w compiler project file v).run m = (⟨es, .error e⟩, m) := by
  rcases hget : m.diagnostics.get? (keyOf project v) with - | ds
  · have hcompiled : compiled w compiler project v.path = .error e := by
      rw [answer, hget] at h
      exact h
    have hrun : (diagnosticsOf w compiler project v).run m = _ := run_diagnosticsOf_of_none hget
    rw [hcompiled] at hrun
    exact ⟨_, Run.run_bind_error hrun⟩
  · rw [answer, hget] at h
    cases h

/-- The versions that are reached, one after the other. -/
def reachedOf (w : Workspace) (compiler : Compiler) (project : Path) (m : Memo)
    (vs : List VersionToTest) : List VersionToTest :=
  vs.takeWhile fun v => (answer w compiler m project v).toOption.isSome

theorem Continues.trans {m m' m'' : Memo} {seen : List Key} {ks : List Key}
    (h : Continues w compiler project m seen m')
    (h' : Continues w compiler project m' (m'.reported ++ ks) m'') :
    Continues w compiler project m (seen ++ ks) m'' where
  answers u := (h'.answers u).trans (h.answers u)
  reported k := by
    rw [h'.reported, List.mem_append, List.mem_append, h.reported]

/-- Versions up to the first one that does not answer. -/
theorem exists_run_versions_of_reached (w : Workspace) (compiler : Compiler) (project : Path)
    (file : SourceFile) (m : Memo) (vs : List VersionToTest) :
    ∃ es r m', (vs.mapM (applyVersion w compiler project file)).run m = (⟨es, r⟩, m') ∧
      Continues w compiler project m
        (m.reported ++ (reachedOf w compiler project m vs).map (keyOf project)) m' ∧
      (r.toOption.isSome = true ↔
        ∀ v ∈ vs, (answer w compiler m project v).toOption.isSome = true) := by
  induction vs generalizing m with
  | nil =>
    exact ⟨[], .ok [], m, rfl, ⟨fun _ => rfl, by simp [reachedOf]⟩, by simp [Except.toOption]⟩
  | cons v vs ih =>
    rcases hv : answer w compiler m project v with e | ds
    · obtain ⟨es, hrun⟩ := exists_run_applyVersion_of_error file hv
      have hreached : reachedOf w compiler project m (v :: vs) = [] := by
        simp [reachedOf, hv, Except.toOption]
      refine ⟨es, .error e, m, ?_, ⟨fun _ => rfl, ?_⟩, ?_⟩
      · rw [List.mapM_cons]
        exact Run.run_bind_error hrun
      · simp [hreached]
      · simp [hv, Except.toOption]
    · obtain ⟨es, m₁, hrun, hcontinues⟩ := exists_run_applyVersion_of_answer file hv
      obtain ⟨fs, r, m₂, hruns, hcontinues', hr⟩ := ih m₁
      have hreached : reachedOf w compiler project m (v :: vs) =
          v :: reachedOf w compiler project m₁ vs := by
        simp [reachedOf, hv, hcontinues.answers, Except.toOption]
      have hall : (∀ u ∈ v :: vs, (answer w compiler m project u).toOption.isSome = true) ↔
          ∀ u ∈ vs, (answer w compiler m₁ project u).toOption.isSome = true := by
        simp [hv, hcontinues.answers, Except.toOption]
      have hseen : m.reported ++ (v :: reachedOf w compiler project m₁ vs).map (keyOf project) =
          m.reported ++ [keyOf project v] ++
            (reachedOf w compiler project m₁ vs).map (keyOf project) := by
        simp
      rw [hreached, hall, hseen, List.mapM_cons]
      rcases r with e | fss
      · exact ⟨_, _, m₂, Run.run_bind_of_ok hrun (Run.run_bind_error hruns),
          hcontinues.trans hcontinues', hr⟩
      · exact ⟨_, _, m₂, Run.run_bind_of_ok hrun (Run.run_bind_of_ok hruns rfl),
          hcontinues.trans hcontinues', hr⟩

/-- What the versions answer. -/
def saidOf (w : Workspace) (compiler : Compiler) (project : Path) (m : Memo) (v : VersionToTest) :
    List Diagnostic :=
  (answer w compiler m project v).toOption.getD []

/-- If all versions answer, their accounts are the result, and else an error. -/
theorem result_of_run_versions {m m' : Memo} {vs : List VersionToTest} {es : List Event}
    {r : Except LintError (List (List Failure))}
    (hrun : (vs.mapM (applyVersion w compiler project file)).run m = (⟨es, r⟩, m'))
    (hr : r.toOption.isSome = true ↔
      ∀ v ∈ vs, (answer w compiler m project v).toOption.isSome = true)
    (h : r.toOption.isSome = true) :
    r = .ok
      (accountsOf m.reported (saidOf w compiler project m) (vs.map (Use.mk file project))) := by
  have hsaid : ∀ v ∈ vs, answer w compiler m project v = .ok (saidOf w compiler project m v) := by
    intro v hv
    obtain ⟨ds, hds⟩ := Option.isSome_iff_exists.mp (hr.mp h v hv)
    rw [saidOf, hds, Option.getD_some, Except.toOption_eq_some_iff.mp hds]
  obtain ⟨fs, m₂, hruns⟩ := exists_run_versions file hsaid
  obtain ⟨ht, -⟩ := Prod.mk.inj (hrun.symm.trans hruns)
  exact (Traced.mk.inj ht).2

namespace Turn

variable {t : Turn}

/-- A call without options ends at once. -/
theorem isSettled_of_noOptions {e : LintError}
    (h : ExpectOptions.ofArguments t.attempt.call.arguments = .error e)
    (hresult : t.outcome.result = .error e) (hafter : t.after = t.before) : t.IsSettled := by
  have huses : t.uses = [] := by
    rw [uses, Call.uses, h]
  have hreturns : t.returns = false := by
    rw [returns, hresult]
    rfl
  refine ⟨?_, fun hreturned => ?_, fun k => ?_⟩
  · rw [hreturns, h]
    simp
  · rw [hreturns] at hreturned
    cases hreturned
  · rw [hafter, keys, reached, huses]
    simp

theorem flatten_accountsOf {ds : VersionToTest → List Diagnostic} {us : List Use}
    (seen : List Key) (h : ∀ u ∈ us, ds u.version = t.said u) :
    (accountsOf seen ds us).flatten = (marked seen us).flatMap fun (u, new) =>
      (if new then t.projectFailures u else []) ++ t.fileFailures u := by
  rw [accountsOf, ← List.flatMap_def]
  refine List.flatMap_congr fun p hp => ?_
  dsimp only
  rw [← failuresIn_eq_account, h p.1 (fst_mem_of_mem_marked hp)]
  rfl

/-- A call with options goes through their versions. -/
theorem isSettled_of_options {options : ExpectOptions} {es : List Event}
    {r : Except LintError (List (List Failure))}
    (h : ExpectOptions.ofArguments t.attempt.call.arguments = .ok options)
    (hrun : (options.versionsToTest.mapM (applyVersion t.attempt.workspace t.attempt.compiler
      (Path.ofString options.tsconfigPath) t.attempt.call.file)).run t.before = (⟨es, r⟩, t.after))
    (hresult : t.outcome.result = r.map List.flatten) : t.IsSettled := by
  have huses : t.uses = usesOf t.attempt.call.file options := by
    rw [uses, Call.uses, h]
  have hreturns : t.returns = r.toOption.isSome := by
    rw [returns, hresult]
    cases r <;> rfl
  obtain ⟨es', r', m', hrun', hcontinues, hr⟩ := exists_run_versions_of_reached
    t.attempt.workspace t.attempt.compiler (Path.ofString options.tsconfigPath)
    t.attempt.call.file t.before options.versionsToTest
  obtain ⟨ht, rfl⟩ := Prod.mk.inj (hrun'.symm.trans hrun)
  obtain ⟨rfl, rfl⟩ := Traced.mk.inj ht
  refine ⟨?_, fun hreturned => ?_, fun k => ?_⟩
  · have hall : (∀ u ∈ t.uses, t.answers u = true) ↔ r'.toOption.isSome = true := by
      rw [hr, huses, usesOf, List.forall_mem_map]
      rfl
    rw [hall, hreturns]
    exact (and_iff_right ⟨options, h⟩).symm
  · rw [hreturns] at hreturned
    have hsaid : ∀ u ∈ t.uses, saidOf t.attempt.workspace t.attempt.compiler
        (Path.ofString options.tsconfigPath) t.before u.version = t.said u := by
      rw [huses, usesOf, List.forall_mem_map]
      exact fun _ _ => rfl
    rw [← flatten_accountsOf _ hsaid, failures, hresult,
      result_of_run_versions hrun' hr hreturned, huses]
    rfl
  · have hkeys : t.keys = (reachedOf t.attempt.workspace t.attempt.compiler
        (Path.ofString options.tsconfigPath) t.before options.versionsToTest).map
          (keyOf (Path.ofString options.tsconfigPath)) := by
      rw [keys, reached, huses, usesOf, List.takeWhile_map, List.map_map]
      rfl
    rw [hkeys, hcontinues.reported, List.mem_append]

/-- **What a call reaches is marked**, whether the call returns or fails. -/
theorem isSettled_of_run
    (h : (rule t.attempt.workspace t.attempt.compiler t.attempt.call.file
      t.attempt.call.arguments).run t.before = (t.outcome, t.after)) : t.IsSettled := by
  rcases hoptions : ExpectOptions.ofArguments t.attempt.call.arguments with e | options
  · rw [rule, hoptions] at h
    obtain ⟨houtcome, hafter⟩ := Prod.mk.inj h
    exact isSettled_of_noOptions hoptions (congrArg Traced.result houtcome).symm hafter.symm
  · rw [rule_eq hoptions] at h
    rcases hrun : (options.versionsToTest.mapM (applyVersion t.attempt.workspace
      t.attempt.compiler (Path.ofString options.tsconfigPath) t.attempt.call.file)).run
        t.before with ⟨⟨es, e | fss⟩, m'⟩
    · obtain ⟨houtcome, rfl⟩ := Prod.mk.inj ((Run.run_bind_error hrun).symm.trans h)
      exact isSettled_of_options hoptions hrun (congrArg Traced.result houtcome).symm
    · have hrule := Run.run_bind_of_ok (f := fun fss => pure fss.flatten) hrun (Run.run_pure _ _)
      obtain ⟨houtcome, rfl⟩ := Prod.mk.inj (hrule.symm.trans h)
      exact isSettled_of_options hoptions hrun (congrArg Traced.result houtcome).symm

end Turn

/-! ### New compilers -/

/-- The uses of compilers that have not been used before. -/
def newUses (seen : List Key) (us : List Use) : List Use :=
  ((marked seen us).filter (·.2)).map (·.1)

theorem newUses_cons (seen : List Key) (u : Use) (us : List Use) :
    newUses seen (u :: us) =
      if u.key ∈ seen then newUses (seen ++ [u.key]) us else u :: newUses (seen ++ [u.key]) us := by
  rw [newUses, marked, List.filter_cons]
  by_cases hu : u.key ∈ seen
  · simp [hu, newUses]
  · simp [hu, newUses]

theorem mem_keys_newUses {seen : List Key} {us : List Use} {k : Key} :
    k ∈ (newUses seen us).map Use.key ↔ k ∈ us.map Use.key ∧ k ∉ seen := by
  induction us generalizing seen with
  | nil => simp [newUses, marked]
  | cons u us ih =>
    rw [newUses_cons]
    split
    · next hu =>
      rw [ih, List.map_cons, List.mem_cons, List.mem_append, List.mem_singleton]
      grind
    · next hu =>
      rw [List.map_cons, List.map_cons, List.mem_cons, List.mem_cons, ih, List.mem_append,
        List.mem_singleton]
      grind

theorem nodup_keys_newUses (seen : List Key) (us : List Use) :
    ((newUses seen us).map Use.key).Nodup := by
  induction us generalizing seen with
  | nil => simp [newUses, marked]
  | cons u us ih =>
    rw [newUses_cons]
    split
    · exact ih _
    · refine List.nodup_cons.mpr ⟨fun h => ?_, ih _⟩
      exact (mem_keys_newUses.mp h).2 (by simp)

theorem flatMap_newUses_cons (P : Use → List Failure) (seen : List Key) (u : Use) (us : List Use) :
    (newUses seen (u :: us)).flatMap P =
      (if !seen.contains u.key then P u else []) ++ (newUses (seen ++ [u.key]) us).flatMap P := by
  rw [newUses_cons]
  by_cases hu : u.key ∈ seen <;> simp [hu]

/-- What uses come to is what the new ones say about the project, and what all of them say about
their files. -/
theorem flatMap_marked_perm (P F : Use → List Failure) (seen : List Key) (us : List Use) :
    ((marked seen us).flatMap fun (u, new) => (if new then P u else []) ++ F u).Perm
      ((newUses seen us).flatMap P ++ us.flatMap F) := by
  induction us generalizing seen with
  | nil => exact .refl _
  | cons u us ih =>
    rw [marked, List.flatMap_cons, flatMap_newUses_cons, List.flatMap_cons, List.append_assoc,
      List.append_assoc]
    refine List.Perm.append_left _ (((ih _).append_left _).trans ?_)
    -- what is about the file moves behind what is about the project
    exact List.perm_append_comm_assoc _ _ _

/-! ### All calls -/

/-- The uses whose compilers are reported: in each call that returns, those that no call before it
has marked. -/
def reporting (marks : Turn → List Key) (seen : List Key) : List Turn → List (Turn × Use)
  | [] => []
  | t :: ts =>
    (if t.returns then (newUses seen t.uses).map (t, ·) else []) ++
      reporting marks (seen ++ marks t) ts

/-- What the calls return, if these are the uses whose compilers are reported: the failures about
the whole project from these uses, and the failures about files from all uses of calls that
return. -/
def Reports (us : List (Turn × Use)) (ts : List Turn) : Prop :=
  (ts.flatMap Turn.failures).Perm
    ((us.flatMap fun (t, u) => t.projectFailures u) ++
      (ts.filter Turn.returns).flatMap fun t => t.uses.flatMap t.fileFailures)

theorem turns_cons {m m' : Memo} {a : Attempt} {t : Traced (List Failure)}
    (h : (rule a.workspace a.compiler a.call.file a.call.arguments).run m = (t, m'))
    (as : List Attempt) : turns m (a :: as) = ⟨a, m, t, m'⟩ :: turns m' as := by
  rw [turns, h]

theorem exists_turns_cons (m : Memo) (a : Attempt) (as : List Attempt) :
    ∃ t : Turn, t.IsSettled ∧ t.before = m ∧ turns m (a :: as) = t :: turns t.after as := by
  rcases hrun : (rule a.workspace a.compiler a.call.file a.call.arguments).run m with ⟨t, m'⟩
  exact ⟨⟨a, m, t, m'⟩, Turn.isSettled_of_run hrun, rfl, turns_cons hrun as⟩

theorem Turn.IsSettled.failures_perm {t : Turn} (ht : t.IsSettled) (hreturns : t.returns = true)
    {seen : List Key} (hseen : ∀ k, k ∈ t.before.reported ↔ k ∈ seen) :
    t.failures.Perm ((newUses seen t.uses).flatMap t.projectFailures ++
      t.uses.flatMap t.fileFailures) := by
  rw [ht.failures_eq hreturns, marked_congr hseen]
  exact flatMap_marked_perm _ _ _ _

theorem Turn.failures_of_not_returns {t : Turn} (h : t.returns = false) : t.failures = [] := by
  have hnone : t.outcome.result.toOption = none := by simpa [Turn.returns] using h
  rw [Turn.failures, hnone, Option.getD_none]

/-- Where calls mark what they reach, the first call to reach a compiler reports it, if it
returns. -/
theorem reports_turns (m : Memo) (as : List Attempt) {seen : List Key}
    (hseen : ∀ k, k ∈ m.reported ↔ k ∈ seen) :
    Reports (reporting Turn.keys seen (turns m as)) (turns m as) := by
  induction as generalizing m seen with
  | nil => exact .refl _
  | cons a as ih =>
    obtain ⟨t, ht, rfl, hturns⟩ := exists_turns_cons m a as
    have hafter : ∀ k, k ∈ t.after.reported ↔ k ∈ seen ++ t.keys := by
      intro k
      rw [ht.reported_iff, hseen, List.mem_append]
    have hrest := ih t.after hafter
    rw [hturns, Reports, reporting, List.flatMap_cons]
    rw [Reports] at hrest
    rcases hreturns : t.returns with - | -
    · rw [Turn.failures_of_not_returns hreturns, List.filter_cons_of_neg (by simp [hreturns])]
      simpa using hrest
    · rw [List.filter_cons_of_pos hreturns, List.flatMap_cons, if_pos rfl, List.flatMap_append,
        List.flatMap_map]
      refine ((ht.failures_perm hreturns hseen).append hrest).trans ?_
      rw [List.append_assoc, List.append_assoc]
      exact (List.perm_append_comm_assoc _ _ _).append_left _

theorem Turn.IsSettled.keys_eq {t : Turn} (ht : t.IsSettled) (hreturns : t.returns = true) :
    t.keys = t.uses.map Use.key := by
  rw [Turn.keys, Turn.reached, List.takeWhile_eq_self_iff.mpr (ht.returns_iff.mp hreturns).2]

theorem Turn.IsSettled.mem_keys_newUses {t : Turn} (ht : t.IsSettled) {seen : List Key} {k : Key} :
    k ∈ (if t.returns then (newUses seen t.uses).map (t, ·) else []).map (·.2.key) ↔
      t.returns = true ∧ k ∈ t.keys ∧ k ∉ seen := by
  split
  · next hreturns =>
    rw [List.map_map, ht.keys_eq hreturns, and_iff_right hreturns]
    exact Expect.mem_keys_newUses
  · next hreturns => simp [hreturns]

/-- A compiler is reported by the first call that reaches it, if that returns, and by no other. -/
theorem mem_keys_reporting {m : Memo} {as : List Attempt} {seen : List Key} {k : Key} :
    k ∈ (reporting Turn.keys seen (turns m as)).map (·.2.key) ↔
      k ∉ seen ∧ ∃ t, (turns m as).find? (k ∈ ·.keys) = some t ∧ t.returns = true := by
  induction as generalizing m seen with
  | nil => simp [turns, reporting]
  | cons a as ih =>
    obtain ⟨t, ht, rfl, hturns⟩ := exists_turns_cons m a as
    rw [hturns, reporting, List.map_append, List.mem_append, ih, ht.mem_keys_newUses,
      List.mem_append, not_or]
    by_cases hk : k ∈ t.keys
    · rw [List.find?_cons_of_pos (by simpa using hk)]
      simp [hk, and_comm]
    · rw [List.find?_cons_of_neg (by simpa using hk)]
      simp [hk]

theorem nodup_keys_reporting (m : Memo) (as : List Attempt) (seen : List Key) :
    ((reporting Turn.keys seen (turns m as)).map (·.2.key)).Nodup := by
  induction as generalizing m seen with
  | nil => simp [turns, reporting]
  | cons a as ih =>
    obtain ⟨t, ht, rfl, hturns⟩ := exists_turns_cons m a as
    rw [hturns, reporting, List.map_append]
    refine List.nodup_append.mpr ⟨?_, ih _ _, fun k hk k' hk' heq => ?_⟩
    · split
      · rw [List.map_map]
        exact nodup_keys_newUses _ _
      · exact List.nodup_nil
    · have hmarked := (ht.mem_keys_newUses.mp hk).2.1
      exact (mem_keys_reporting.mp hk').1 (List.mem_append_right _ (heq ▸ hmarked))

theorem settled_of_mem_turns {m : Memo} {as : List Attempt} {t : Turn} (h : t ∈ turns m as) :
    t.IsSettled := by
  induction as generalizing m with
  | nil => cases h
  | cons a as ih =>
    obtain ⟨t', ht', rfl, hturns⟩ := exists_turns_cons m a as
    rw [hturns] at h
    rcases List.mem_cons.mp h with rfl | h
    · exact ht'
    · exact ih h

/-- What comes of calls that find the compilers `seen` marked. -/
structure Accounted (seen : List Key) (ts : List Turn) : Prop where
  settled : ∀ t ∈ ts, t.IsSettled
  /-- The failures returned are those about whole projects from the uses that report, and those
  about files. -/
  reports : Reports (reporting Turn.keys seen ts) ts
  /-- No compiler is reported twice. -/
  nodup : ((reporting Turn.keys seen ts).map (·.2.key)).Nodup
  /-- A compiler is reported if the first call that reaches it returns.  If that call fails, no
  other one makes up for it. -/
  reported_iff : ∀ k, k ∈ (reporting Turn.keys seen ts).map (·.2.key) ↔
    k ∉ seen ∧ ∃ t, ts.find? (k ∈ ·.keys) = some t ∧ t.returns = true

/-- **Each compiler is reported by the call that reaches it first, or never**, over any calls, on
any memory, with any installs and compilers that the calls find. -/
theorem accounted_turns (m : Memo) (as : List Attempt) : Accounted m.reported (turns m as) where
  settled _ := settled_of_mem_turns
  reports := reports_turns m as fun _ => Iff.rfl
  nodup := nodup_keys_reporting m as _
  reported_iff _ := mem_keys_reporting

/-! ### What a failed call takes with it -/

/-- What a call marks if nothing is lost when it fails. -/
def Turn.keysReturned (t : Turn) : List Key :=
  if t.returns then t.keys else []

/-- Failed calls lose nothing: they leave what is marked as it was, and the diagnostics about the
whole project are reported by the first call that uses the compiler and returns. -/
structure LoseNothing (ts : List Turn) : Prop where
  unmarked : ∀ t ∈ ts, t.returns = false → t.after.reported = t.before.reported
  reports : Reports (reporting Turn.keysReturned [] ts) ts

theorem reporting_keysReturned {seen : List Key} {ts : List Turn}
    (h : ∀ t ∈ ts, t.returns = true) :
    reporting Turn.keysReturned seen ts = reporting Turn.keys seen ts := by
  induction ts generalizing seen with
  | nil => rfl
  | cons t ts ih =>
    obtain ⟨ht, hts⟩ := List.forall_mem_cons.mp h
    have hmarks : t.keysReturned = t.keys := if_pos ht
    rw [reporting, reporting, hmarks, ih hts]

/-- Nothing is lost as long as no call fails. -/
theorem loseNothing_of_returns {as : List Attempt}
    (h : ∀ t ∈ turns Memo.empty as, t.returns = true) : LoseNothing (turns Memo.empty as) where
  unmarked t ht hreturns := by
    rw [h t ht] at hreturns
    cases hreturns
  reports := by
    rw [reporting_keysReturned h]
    exact reports_turns Memo.empty as fun _ => Iff.rfl

/-- The first compiler finds an error in the project, and the second one does not come to an end. -/
def hangingCompiler : Compiler := fun s =>
  if s.script = Compiler.scriptPath "/i/5.5" then .finished "error TS5055: g\n" "" 2
  else .timedOut

/-- A call with both compilers, then one with the first of them. -/
def retriedCalls : List Attempt :=
  [⟨twoInstalls, hangingCompiler, ⟨⟨"/p/a.ts", ""⟩, [testedWith ["5.5", "5.6"]]⟩⟩,
    ⟨twoInstalls, hangingCompiler, ⟨⟨"/p/a.ts", ""⟩, [testedWith ["5.5"]]⟩⟩]

/-- The second call returns nothing, though nothing has been said of the error in the project. -/
theorem not_all_loseNothing : ¬ ∀ as : List Attempt, LoseNothing (turns Memo.empty as) := by
  intro hall
  have hlength := (hall retriedCalls).reports.length_eq
  revert hlength
  decide +kernel

-- the first call fails, the second one returns, and neither says anything
example : (turns Memo.empty retriedCalls).map (fun t => (t.returns, t.failures)) =
    [(false, []), (true, [])] := by
  decide +kernel

end Expect

end DeclLint
