/-
DeclLint/Proofs/Engine/Recorded.lean

What an engine records, in closed form.  Where every compiler answers, applying the
rules to a file adds failures that depend on nothing but the file and on whether it
is the first one (`failuresFor`): the only rule with a memory asks each compiler
once, and from the first file on has all its answers.  So a row of files comes to
`recordedIn`, the failures of the first file and those of the others
(`exists_run_forM`).

The first file has all the failures that it has later, and with them those about
the project as a whole (`perm_failuresFor_first`).  Their messages do not depend on
the file that they are reported with, so rows of the same files in another order
have the same failures but for the files' names (`perm_recordedIn`).
-/
import DeclLint.Proofs.Engine
import DeclLint.Proofs.Rule.Session
import Mathlib.Data.List.Flatten
import Mathlib.Data.List.Nodup
import Mathlib.Data.List.Perm.Basic

namespace DeclLint

namespace Expect

variable {w : Workspace} {compiler : Compiler} {project : Path} {file : SourceFile}

/-! ### The compilers of a range -/

/-- The failures of a file under several compilers, where `first` says that the diagnostics about
the whole project are still to be reported. -/
def failuresUnder (w : Workspace) (compiler : Compiler) (project : Path) (vs : List VersionToTest)
    (file : SourceFile) (first : Bool) : List Failure :=
  vs.flatMap fun v => failuresIn file v first (said w compiler project v)

/-- What the compilers say about the project as a whole, as messages. -/
def projectMessages (w : Workspace) (compiler : Compiler) (project : Path)
    (vs : List VersionToTest) : List String :=
  vs.flatMap fun v => ((said w compiler project v).filter (·.file.isNone)).map fun d =>
    label v ++ " compile error: \n" ++ d.message

/-- A failure about the whole project, as it is reported with a file. -/
def aboutProject (file : SourceFile) (message : String) : Failure :=
  failure file 0 0 message

theorem sublist_failuresUnder (vs : List VersionToTest) :
    (failuresUnder w compiler project vs file false).Sublist
      (failuresUnder w compiler project vs file true) :=
  List.Sublist.flatMap_right vs fun _ _ => List.sublist_append_right _ _

/-- With the first file come the messages about the project. -/
theorem perm_failuresUnder (vs : List VersionToTest) :
    (failuresUnder w compiler project vs file true).Perm
      ((projectMessages w compiler project vs).map (aboutProject file) ++
        failuresUnder w compiler project vs file false) := by
  have hmessages : (projectMessages w compiler project vs).map (aboutProject file) =
      vs.flatMap fun v => projectFailures file v (said w compiler project v) := by
    rw [projectMessages, List.map_flatMap]
    simp only [List.map_map]
    rfl
  rw [hmessages]
  exact (List.flatMap_append_perm vs _ _).symm

/-- What a failure of the rule says of itself. -/
theorem of_mem_failuresUnder {vs : List VersionToTest} {first : Bool} {f : Failure}
    (h : f ∈ failuresUnder w compiler project vs file first) :
    f.file = file.name ∧ f.severity = Severity.error.name := by
  obtain ⟨v, -, hf⟩ := List.mem_flatMap.mp h
  rcases List.mem_append.mp hf with hf | hf
  · split at hf
    · obtain ⟨d, -, rfl⟩ := List.mem_map.mp hf
      exact ⟨rfl, rfl⟩
    · cases hf
  · rcases List.mem_append.mp hf with hf | hf
    · obtain ⟨d, -, rfl⟩ := List.mem_map.mp hf
      exact ⟨rfl, rfl⟩
    · obtain ⟨n, -, rfl⟩ := List.mem_map.mp hf
      exact ⟨rfl, rfl⟩

/-! ### The first file and the others -/

theorem marked_of_mem {seen : List Key} {us : List Use} (h : ∀ u ∈ us, u.key ∈ seen) :
    marked seen us = us.map (·, false) := by
  induction us generalizing seen with
  | nil => rfl
  | cons u us ih =>
    obtain ⟨hu, hus⟩ := List.forall_mem_cons.mp h
    rw [marked, List.contains_iff_mem.mpr hu,
      ih fun v hv => List.mem_append_left _ (hus v hv)]
    rfl

theorem marked_of_notMem {seen : List Key} {us : List Use} (h : ∀ u ∈ us, u.key ∉ seen)
    (hn : (us.map Use.key).Nodup) : marked seen us = us.map (·, true) := by
  induction us generalizing seen with
  | nil => rfl
  | cons u us ih =>
    obtain ⟨hu, hus⟩ := List.forall_mem_cons.mp h
    obtain ⟨hnew, hn⟩ := List.nodup_cons.mp hn
    have hrest : ∀ v ∈ us, v.key ∉ seen ++ [u.key] := by
      intro v hv hmem
      rcases List.mem_append.mp hmem with hmem | hmem
      · exact hus v hv hmem
      · exact hnew (List.mem_singleton.mp hmem ▸ List.mem_map_of_mem hv)
    have hseen : seen.contains u.key = false := by simpa using hu
    rw [marked, hseen, ih hrest hn]
    rfl

/-- The compilers that options ask for, as what is remembered of them. -/
def keysOf (options : ExpectOptions) : List Key :=
  options.versionsToTest.map (keyOf (Path.ofString options.tsconfigPath))

theorem map_key_usesOf (file : SourceFile) (options : ExpectOptions) :
    (usesOf file options).map Use.key = keysOf options := by
  rw [usesOf, List.map_map]
  rfl

theorem failuresOf_first {options : ExpectOptions}
    (hpaths : (options.versionsToTest.map (·.path)).Nodup) :
    failuresOf w compiler [] (usesOf file options) =
      failuresUnder w compiler (Path.ofString options.tsconfigPath) options.versionsToTest file
        true := by
  have hkeys : ((usesOf file options).map Use.key).Nodup := by
    rw [map_key_usesOf]
    refine List.Nodup.of_map Prod.snd ?_
    rw [keysOf, List.map_map]
    exact hpaths
  rw [failuresOf, marked_of_notMem (fun _ _ => List.not_mem_nil) hkeys, usesOf, List.map_map,
    List.flatMap_map]
  rfl

theorem failuresOf_later {options : ExpectOptions} {seen : List Key}
    (hseen : ∀ k ∈ keysOf options, k ∈ seen) :
    failuresOf w compiler seen (usesOf file options) =
      failuresUnder w compiler (Path.ofString options.tsconfigPath) options.versionsToTest file
        false := by
  have hkeys : ∀ u ∈ usesOf file options, u.key ∈ seen := fun u hu =>
    hseen _ (map_key_usesOf file options ▸ List.mem_map_of_mem hu)
  rw [failuresOf, marked_of_mem hkeys, usesOf, List.map_map, List.flatMap_map]
  rfl

end Expect

namespace Engine

open Expect (Memo Key Remembers Use usesOf keysOf failuresOf failuresUnder projectMessages
  aboutProject)

/-- Rules that name `expect` once, as an error and with options. -/
structure Enforcing where
  before : RuleTable
  options : ExpectOptions
  after : RuleTable
  notMem_before : LooseText.ofString Config.expectRule ∉ before.keys
  notMem_after : LooseText.ofString Config.expectRule ∉ after.keys

namespace Enforcing

/-- The rules, in the order of their table. -/
def rules (r : Enforcing) : RuleTable :=
  r.before ++ (LooseText.ofString Config.expectRule, ⟨.error, [.expect r.options]⟩) :: r.after

/-- The project that compilers are run on. -/
def project (r : Enforcing) : Path :=
  Path.ofString r.options.tsconfigPath

/-- Every compiler that the options ask for says something. -/
def Answered (w : Workspace) (compiler : Compiler) (r : Enforcing) : Prop :=
  ∀ v ∈ r.options.versionsToTest, ∃ ds, Expect.compiled w compiler r.project v.path = .ok ds

theorem before_eq_takeWhile (r : Enforcing) :
    r.before = r.rules.takeWhile fun e => e.1 ≠ LooseText.ofString Config.expectRule := by
  have hbefore : ∀ e ∈ r.before, decide (e.1 ≠ LooseText.ofString Config.expectRule) = true := by
    intro e he
    refine decide_eq_true fun h => r.notMem_before ?_
    exact h ▸ List.mem_map_of_mem he
  rw [rules, List.takeWhile_append_of_pos hbefore, List.takeWhile_cons_of_neg (by simp),
    List.append_nil]

end Enforcing

theorem EnforcesOnce.exists_rules {rules : RuleTable} {options : ExpectOptions}
    (h : EnforcesOnce rules options) : ∃ r : Enforcing, r.rules = rules ∧ r.options = options := by
  obtain ⟨before, after, rfl, hbefore, hafter⟩ := h
  exact ⟨⟨before, options, after, hbefore, hafter⟩, rfl, rfl⟩

variable {w : Workspace} {compiler : Compiler} {r : Enforcing} {file : SourceFile}

/-! ### Where failures say that they are -/

theorem mem_withSeverity {severity : Severity} {fs : List Failure} {f : Failure}
    (h : f ∈ withSeverity severity fs) : ∃ g ∈ fs, f.file = g.file := by
  obtain ⟨g, hg, rfl⟩ := List.mem_map.mp h
  exact ⟨g, hg, rfl⟩

theorem file_of_mem_trimFile {f : Failure} (h : f ∈ TrimFile.failures file) :
    f.file = file.name := by
  rcases List.mem_append.mp h with h | h
  · split at h
    · rw [List.mem_singleton.mp h]
      rfl
    · cases h
  · split at h
    · rw [List.mem_singleton.mp h]
      rfl
    · cases h

theorem file_of_mem_deadReference {f : Failure} (h : f ∈ DeadReference.failures file) :
    f.file = file.name := by
  obtain ⟨offset, -, rfl⟩ := List.mem_map.mp h
  rfl

theorem file_of_mem_otherFailures {rules : RuleTable} {f : Failure}
    (h : f ∈ rules.flatMap (otherFailures file)) : f.file = file.name := by
  obtain ⟨entry, -, hf⟩ := List.mem_flatMap.mp h
  unfold otherFailures at hf
  split at hf
  · split at hf
    · next rule hrule =>
      obtain ⟨name, -, hname⟩ := Option.bind_eq_some_iff.mp hrule
      obtain ⟨g, hg, hfile⟩ := mem_withSeverity hf
      rw [hfile]
      unfold fileRule? at hname
      split at hname
      · obtain rfl := Option.some.inj hname
        exact file_of_mem_deadReference hg
      · split at hname
        · obtain rfl := Option.some.inj hname
          exact file_of_mem_trimFile hg
        · cases hname
    · cases hf
  · cases hf

/-! ### One file -/

/-- The failures of a file, where `first` says that no file came before it. -/
def failuresFor (w : Workspace) (compiler : Compiler) (r : Enforcing) (first : Bool)
    (file : SourceFile) : List Failure :=
  r.before.flatMap (otherFailures file) ++
    failuresUnder w compiler r.project r.options.versionsToTest file first ++
    r.after.flatMap (otherFailures file)

/-- The failures of a file are reported with its name. -/
theorem file_of_mem_failuresFor {first : Bool} {f : Failure}
    (h : f ∈ failuresFor w compiler r first file) : f.file = file.name := by
  rcases List.mem_append.mp h with h | h
  · rcases List.mem_append.mp h with h | h
    · exact file_of_mem_otherFailures h
    · exact (Expect.of_mem_failuresUnder h).1
  · exact file_of_mem_otherFailures h

theorem withSeverity_failuresUnder {project : Path} {vs : List VersionToTest} {first : Bool} :
    withSeverity .error (failuresUnder w compiler project vs file first) =
      failuresUnder w compiler project vs file first := by
  refine (List.map_congr_left fun f hf => ?_).trans (List.map_id _)
  rw [← (Expect.of_mem_failuresUnder hf).2]
  rfl

/-- What the rules do to a file is what `expect` does, between the failures of the others. -/
theorem exists_run_lint_rules (r : Enforcing) (file : SourceFile) (e : Engine Memo)
    {es : List Event} {fs : List Failure} {m : Memo}
    (h : (Expect.rule w compiler file [.expect r.options]).run e.rules = (⟨es, .ok fs⟩, m)) :
    ∃ es' unknown, (lint (builtinRules w compiler) r.rules file).run e =
      (⟨es', .ok ()⟩, ⟨e.failures ++ (r.before.flatMap (otherFailures file) ++
        withSeverity .error fs ++ r.after.flatMap (otherFailures file)), unknown, m⟩) := by
  obtain ⟨es₁, u₁, -, hrun₁⟩ := run_lint_other w compiler file r.notMem_before e
  have hexpect : (applyRule (builtinRules w compiler) file (LooseText.ofString Config.expectRule)
      ⟨.error, [.expect r.options]⟩).run
        ⟨e.failures ++ r.before.flatMap (otherFailures file), u₁, e.rules⟩ =
      (⟨es ++ [], .ok ()⟩, ⟨e.failures ++ r.before.flatMap (otherFailures file) ++
        withSeverity .error fs, u₁, m⟩) := by
    rw [applyRule_expect]
    refine Run.run_bind_of_ok (Run.run_zoom_eq_ok_iff.mpr ⟨m, h, rfl⟩) ?_
    exact Run.run_modify_eq_ok_iff.mpr ⟨rfl, rfl⟩
  obtain ⟨es₃, u₃, -, hrun₃⟩ := run_lint_other w compiler file r.notMem_after
    ⟨e.failures ++ r.before.flatMap (otherFailures file) ++ withSeverity .error fs, u₁, m⟩
  refine ⟨es₁ ++ (es ++ [] ++ es₃), u₃, ?_⟩
  rw [Enforcing.rules, lint_append, lint_cons,
    Run.run_bind_of_ok hrun₁ (Run.run_bind_of_ok hexpect hrun₃)]
  simp only [List.append_assoc]

/-- Where `expect` ends in an error, the failures of the rules before it stay recorded. -/
theorem exists_run_lint_rules_of_error (r : Enforcing) (file : SourceFile) (e : Engine Memo)
    {es : List Event} {x : LintError} {m : Memo}
    (h : (Expect.rule w compiler file [.expect r.options]).run e.rules = (⟨es, .error x⟩, m)) :
    ∃ es' unknown, (lint (builtinRules w compiler) r.rules file).run e =
      (⟨es', .error x⟩, ⟨e.failures ++ r.before.flatMap (otherFailures file), unknown, m⟩) := by
  obtain ⟨es₁, u₁, -, hrun₁⟩ := run_lint_other w compiler file r.notMem_before e
  have hzoom : (onRules (Expect.rule w compiler file [.expect r.options])).run
      (⟨e.failures ++ r.before.flatMap (otherFailures file), u₁, e.rules⟩ : Engine Memo) =
      (⟨es, .error x⟩, ⟨e.failures ++ r.before.flatMap (otherFailures file), u₁, m⟩) := by
    simp only [onRules, Run.zoom, h]
  have hexpect := Run.run_bind_error (f := record .error) hzoom
  rw [← applyRule_expect] at hexpect
  refine ⟨es₁ ++ es, u₁, ?_⟩
  rw [Enforcing.rules, lint_append, lint_cons]
  exact Run.run_bind_of_ok hrun₁ (Run.run_bind_error hexpect)

theorem exists_run_lint_of_answered (hr : r.Answered w compiler) {seen : List Key}
    {e : Engine Memo} (hm : Remembers w compiler seen e.rules) {first : Bool}
    (hfirst : failuresOf w compiler seen (usesOf file r.options) =
      failuresUnder w compiler r.project r.options.versionsToTest file first) :
    ∃ es unknown m, (lint (builtinRules w compiler) r.rules file).run e =
        (⟨es, .ok ()⟩, ⟨e.failures ++ failuresFor w compiler r first file, unknown, m⟩) ∧
      Remembers w compiler (seen ++ keysOf r.options) m := by
  have hanswers : ∀ u ∈ usesOf file r.options, u.Answers w compiler := by
    intro u hu
    obtain ⟨v, hv, rfl⟩ := List.mem_map.mp hu
    exact Use.answers_iff.mpr (hr v hv)
  obtain ⟨⟨es, result⟩, m, hrule, hresult, -, hlooked⟩ :=
    Expect.exists_run_rule (c := ⟨file, [.expect r.options]⟩) hm hanswers
  have hplain : Expect.plainCall w compiler seen ⟨file, [.expect r.options]⟩ =
      .ok (failuresOf w compiler seen (usesOf file r.options)) :=
    Expect.plainCall_eq_ok rfl hanswers
  obtain rfl : result = .ok (failuresOf w compiler seen (usesOf file r.options)) :=
    hresult.trans hplain
  obtain ⟨es', unknown, hrun⟩ := exists_run_lint_rules r file e hrule
  refine ⟨es', unknown, m, ?_, ?_⟩
  · rw [hrun, hfirst, withSeverity_failuresUnder]
    rfl
  · have hmemory := hlooked.memory
    rwa [show (Expect.Call.uses ⟨file, [.expect r.options]⟩) = usesOf file r.options from rfl,
      Expect.map_key_usesOf] at hmemory

/-! ### A row of files -/

/-- What files have of their own. -/
def recordedLater (w : Workspace) (compiler : Compiler) (r : Enforcing)
    (files : List SourceFile) : List Failure :=
  files.flatMap (failuresFor w compiler r false)

/-- What an engine records for a row of files. -/
def recordedIn (w : Workspace) (compiler : Compiler) (r : Enforcing) :
    List SourceFile → List Failure
  | [] => []
  | file :: files => failuresFor w compiler r true file ++ recordedLater w compiler r files

theorem recordedLater_cons (file : SourceFile) (files : List SourceFile) :
    recordedLater w compiler r (file :: files) =
      failuresFor w compiler r false file ++ recordedLater w compiler r files :=
  List.flatMap_cons

/-- Once every compiler is remembered, each file adds what it has of its own. -/
theorem exists_run_forM_later (hr : r.Answered w compiler) (files : List SourceFile)
    {seen : List Key} {e : Engine Memo} (hm : Remembers w compiler seen e.rules)
    (hseen : ∀ k ∈ keysOf r.options, k ∈ seen) :
    ∃ es e', (files.forM (lint (builtinRules w compiler) r.rules)).run e = (⟨es, .ok ()⟩, e') ∧
      e'.failures = e.failures ++ recordedLater w compiler r files := by
  induction files generalizing seen e with
  | nil => exact ⟨[], e, rfl, (List.append_nil _).symm⟩
  | cons file files ih =>
    have hlater : failuresOf w compiler seen (usesOf file r.options) = _ :=
      Expect.failuresOf_later hseen
    obtain ⟨es, unknown, m, hrun, hm'⟩ := exists_run_lint_of_answered hr hm hlater
    obtain ⟨es', e', hruns, hfailures⟩ := ih (e := ⟨_, unknown, m⟩) hm' fun k hk =>
      List.mem_append_left _ (hseen k hk)
    refine ⟨es ++ es', e', Run.run_bind_of_ok hrun hruns, ?_⟩
    rw [hfailures, recordedLater_cons]
    exact List.append_assoc _ _ _

/-- **What is recorded for a row of files**, where every compiler answers. -/
theorem exists_run_forM (hpaths : (r.options.versionsToTest.map (·.path)).Nodup)
    {files : List SourceFile} (hr : files ≠ [] → r.Answered w compiler) :
    ∃ es e, (files.forM (lint (builtinRules w compiler) r.rules)).run (Engine.start Memo.empty) =
        (⟨es, .ok ()⟩, e) ∧
      e.failures = recordedIn w compiler r files := by
  cases files with
  | nil => exact ⟨[], _, rfl, rfl⟩
  | cons file files =>
    replace hr := hr (List.cons_ne_nil file files)
    have hempty : Remembers w compiler [] (Engine.start Memo.empty).rules :=
      ⟨Expect.Memo.valid_empty, rfl⟩
    have hfirst : failuresOf w compiler [] (usesOf file r.options) = _ :=
      Expect.failuresOf_first hpaths
    obtain ⟨es, unknown, m, hrun, hm⟩ := exists_run_lint_of_answered hr hempty hfirst
    obtain ⟨es', e', hruns, hfailures⟩ :=
      exists_run_forM_later hr files (e := ⟨_, unknown, m⟩) hm fun k hk => hk
    exact ⟨es ++ es', e', Run.run_bind_of_ok hrun hruns, hfailures⟩

/-- With a compiler that cannot be understood, the first file is the last one: what the rules before
`expect` find in it is recorded. -/
theorem exists_run_forM_of_unreadable {v : VersionToTest} {vs : List VersionToTest}
    (hversions : r.options.versionsToTest = v :: vs)
    (hv : (Use.mk file r.project v).Unreadable w compiler) (files : List SourceFile) :
    ∃ es x e, ((file :: files).forM (lint (builtinRules w compiler) r.rules)).run
        (Engine.start Memo.empty) = (⟨es, .error x⟩, e) ∧
      e.failures = r.before.flatMap (otherFailures file) := by
  obtain ⟨es, x, hrun, -⟩ := Expect.exists_run_applyVersion_of_unreadable Expect.Memo.valid_empty
    List.not_mem_nil hv
  dsimp only [Enforcing.project] at hrun
  have hoptions : ExpectOptions.ofArguments [.expect r.options] = .ok r.options := rfl
  have hrule : (Expect.rule w compiler file [.expect r.options]).run Memo.empty =
      (⟨es, .error x⟩, Memo.empty) := by
    rw [Expect.rule_eq hoptions, hversions, List.mapM_cons]
    exact Run.run_bind_error (Run.run_bind_error hrun)
  obtain ⟨es', unknown, hlint⟩ :=
    exists_run_lint_rules_of_error r file (Engine.start Memo.empty) hrule
  exact ⟨es', x, _, Run.run_bind_error hlint, rfl⟩

/-! ### The order of the files -/

theorem failuresFor_sublist (file : SourceFile) :
    (failuresFor w compiler r false file).Sublist (failuresFor w compiler r true file) :=
  ((Expect.sublist_failuresUnder _).append_left _).append_right _

/-- The first file has what is said of the project on top of its own failures. -/
theorem perm_failuresFor_first (file : SourceFile) :
    (failuresFor w compiler r true file).Perm
      ((projectMessages w compiler r.project r.options.versionsToTest).map (aboutProject file) ++
        failuresFor w compiler r false file) := by
  unfold failuresFor
  refine (((Expect.perm_failuresUnder _).append_left _).append_right _).trans ?_
  rw [← List.append_assoc, ← List.append_assoc, ← List.append_assoc]
  exact (List.perm_append_comm.append_right _).append_right _

theorem perm_recordedIn_cons (file : SourceFile) (files : List SourceFile) :
    (recordedIn w compiler r (file :: files)).Perm
      ((projectMessages w compiler r.project r.options.versionsToTest).map (aboutProject file) ++
        recordedLater w compiler r (file :: files)) := by
  rw [recordedIn, recordedLater_cons, ← List.append_assoc]
  exact (perm_failuresFor_first file).append_right _

/-- A failure, whichever file it is reported with. -/
def withoutFile (f : Failure) : Failure :=
  { f with file := "" }

theorem map_withoutFile_aboutProject (file : SourceFile) (messages : List String) :
    (messages.map (aboutProject file)).map withoutFile =
      messages.map fun m => ⟨"", Config.expectRule, Severity.error.name, 0, 0, m⟩ := by
  rw [List.map_map]
  rfl

/-- **In any order of the files the same is recorded**, up to the files that it is reported with. -/
theorem perm_recordedIn (w : Workspace) (compiler : Compiler) (r : Enforcing)
    {files files' : List SourceFile} (h : files.Perm files') :
    ((recordedIn w compiler r files).map withoutFile).Perm
      ((recordedIn w compiler r files').map withoutFile) := by
  rcases files with - | ⟨file, files⟩
  · rw [List.nil_perm.mp h]
  rcases files' with - | ⟨file', files'⟩
  · exact absurd h.length_eq (Nat.succ_ne_zero _)
  -- what is said of the project is the same with either file
  refine ((perm_recordedIn_cons file files).map withoutFile).trans ?_
  refine .trans ?_ ((perm_recordedIn_cons file' files').map withoutFile).symm
  rw [List.map_append, List.map_append, map_withoutFile_aboutProject,
    map_withoutFile_aboutProject]
  exact ((h.flatMap_right _).map withoutFile).append_left _

theorem length_recordedIn_perm (w : Workspace) (compiler : Compiler) (r : Enforcing)
    {files files' : List SourceFile} (h : files.Perm files') :
    (recordedIn w compiler r files).length = (recordedIn w compiler r files').length := by
  simpa using (perm_recordedIn w compiler r h).length_eq

theorem countOf_recordedIn_perm (w : Workspace) (compiler : Compiler) (r : Enforcing)
    {files files' : List SourceFile} (h : files.Perm files') (s : Severity) :
    Report.countOf s (recordedIn w compiler r files) =
      Report.countOf s (recordedIn w compiler r files') := by
  have hcount := (perm_recordedIn w compiler r h).countP_eq fun f => f.severity = s.name
  rwa [List.countP_map, List.countP_map] at hcount

end Engine

end DeclLint
