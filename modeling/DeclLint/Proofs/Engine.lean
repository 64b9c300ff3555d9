/-
DeclLint/Proofs/Engine.lean

Applying the rules of a configuration to a file.  Of the rules that come with
the linter only `expect` has a memory, can fail and starts compilers; applying
any other rule, implemented or not, adds its failures in the file and does nothing
else (`run_applyRule_other`).  A configuration that is in use names every rule once,
so applying it to a file is applying `expect` to it, with some failures of other
rules before and after (`exists_run_of_lint`).
-/
import DeclLint.Engine
import DeclLint.Proofs.Rule.Expect

namespace DeclLint

namespace Engine

open Expect (Memo)

variable {w : Workspace} {compiler : Compiler} {file : SourceFile}

theorem lint_cons {σ : Type} (registry : Registry σ) (entry : LooseText × RuleSetting)
    (rules : RuleTable) (file : SourceFile) :
    lint registry (entry :: rules) file =
      applyRule registry file entry.1 entry.2 >>= fun _ => lint registry rules file := rfl

theorem lint_append {σ : Type} (registry : Registry σ) (rules more : RuleTable)
    (file : SourceFile) :
    lint registry (rules ++ more) file =
      lint registry rules file >>= fun _ => lint registry more file :=
  List.forM_append

/-! ### Rules without a memory -/

/-- The rules that look at one file alone, by their names. -/
def fileRule? (name : String) : Option (SourceFile → List Failure) :=
  if name = DeadReference.name then some DeadReference.failures
  else if name = TrimFile.name then some TrimFile.failures
  else none

/-- A rule that comes with the linter under another name than `expect` is one of these. -/
theorem builtinRules_other (w : Workspace) (compiler : Compiler) {name : String}
    (h : name ≠ Config.expectRule) :
    builtinRules w compiler name = (fileRule? name).map Rule.ofFunction := by
  unfold builtinRules fileRule?
  rw [if_neg h]
  split
  · rfl
  · split
    · rfl
    · rfl

/-- Failures with the severity of a setting. -/
def withSeverity (severity : Severity) (fs : List Failure) : List Failure :=
  fs.map fun f => { f with severity := severity.name }

/-- The failures that another rule than `expect` adds for a file. -/
def otherFailures (file : SourceFile) (e : LooseText × RuleSetting) : List Failure :=
  if e.2.isEnabled then
    match e.1.toString?.bind fileRule? with
    | some f => withSeverity e.2.severity (f file)
    | none => []
  else []

theorem run_warnUnknown (name : LooseText) (e : Engine Memo) :
    ∃ es unknown, Event.starts es = [] ∧
      (warnUnknown name).run e = (⟨es, .ok ()⟩, { e with unknown := unknown }) := by
  by_cases hname : name ∈ e.unknown
  · refine ⟨[], e.unknown, rfl, ?_⟩
    rw [warnUnknown, Run.run_get_bind, if_pos hname]
    rfl
  · refine ⟨[.logged ⟨.warning, Component.engine.logger,
      "No implementation found for rule '" ++ name.escaped ++ "', skipping it"⟩],
      e.unknown ++ [name], rfl, ?_⟩
    rw [warnUnknown, Run.run_get_bind, if_neg hname]
    rfl

/-- Any other rule adds its failures and does nothing else. -/
theorem run_applyRule_other (w : Workspace) (compiler : Compiler) (file : SourceFile)
    {name : LooseText} (h : name ≠ LooseText.ofString Config.expectRule)
    (setting : RuleSetting) (e : Engine Memo) :
    ∃ es unknown, Event.starts es = [] ∧
      (applyRule (builtinRules w compiler) file name setting).run e =
        (⟨es, .ok ()⟩, ⟨e.failures ++ otherFailures file (name, setting), unknown, e.rules⟩) := by
  have hunknown : ∃ es unknown, Event.starts es = [] ∧
      (warnUnknown name).run e = (⟨es, .ok ()⟩, ⟨e.failures ++ [], unknown, e.rules⟩) := by
    obtain ⟨es, unknown, hes, hrun⟩ := run_warnUnknown name e
    exact ⟨es, unknown, hes, by rw [hrun, List.append_nil]⟩
  unfold applyRule otherFailures
  dsimp only
  split
  · rcases hs : name.toString? with - | s
    · exact hunknown
    -- only one loose text is the name of `expect`
    · have hne : s ≠ Config.expectRule := by
        rintro rfl
        exact h (LooseText.eq_ofString hs)
      rw [Option.bind_some, Option.bind_some, builtinRules_other w compiler hne]
      rcases fileRule? s with - | f
      · exact hunknown
      · exact ⟨[], e.unknown, rfl, rfl⟩
  · exact ⟨[], e.unknown, rfl, by rw [List.append_nil]; rfl⟩

theorem run_lint_other (w : Workspace) (compiler : Compiler) (file : SourceFile)
    {rules : RuleTable} (h : LooseText.ofString Config.expectRule ∉ rules.keys)
    (e : Engine Memo) :
    ∃ es unknown, Event.starts es = [] ∧
      (lint (builtinRules w compiler) rules file).run e =
        (⟨es, .ok ()⟩, ⟨e.failures ++ rules.flatMap (otherFailures file), unknown, e.rules⟩) := by
  induction rules generalizing e with
  | nil => exact ⟨[], e.unknown, rfl, by rw [List.flatMap_nil, List.append_nil]; rfl⟩
  | cons entry rules ih =>
    obtain ⟨hentry, hrules⟩ := not_or.mp (mt List.mem_cons.mpr h)
    obtain ⟨es, unknown, hes, hrun⟩ :=
      run_applyRule_other w compiler file (Ne.symm hentry) entry.2 e
    obtain ⟨es', unknown', hes', hrun'⟩ :=
      ih hrules ⟨e.failures ++ otherFailures file entry, unknown, e.rules⟩
    refine ⟨es ++ es', unknown', ?_, ?_⟩
    · rw [Event.starts_append, hes, hes']
      rfl
    · rw [lint_cons, Run.run_bind_ok hrun, hrun', List.flatMap_cons, List.append_assoc]

/-! ### The rule that runs compilers -/

/-- The rules name `expect` once, as an error and with these options. -/
def EnforcesOnce (rules : RuleTable) (options : ExpectOptions) : Prop :=
  ∃ before after : RuleTable,
    rules = before ++ (LooseText.ofString Config.expectRule, ⟨.error, [.expect options]⟩) :: after ∧
    LooseText.ofString Config.expectRule ∉ before.keys ∧
    LooseText.ofString Config.expectRule ∉ after.keys

theorem enforcesOnce_withOptions {rules : RuleTable} (h : rules.keys.Nodup)
    (options : ExpectOptions) : EnforcesOnce (Config.withOptions rules options) options :=
  Table.exists_append_of_get? (Table.nodup_keys_put h _ _) (Table.get?_put_self _ _ _)

theorem applyRule_expect (w : Workspace) (compiler : Compiler) (file : SourceFile)
    (options : ExpectOptions) :
    applyRule (builtinRules w compiler) file (LooseText.ofString Config.expectRule)
        ⟨.error, [.expect options]⟩ =
      onRules (Expect.rule w compiler file [.expect options]) >>= record .error := by
  have hrule : builtinRules w compiler Config.expectRule = some (Expect.rule w compiler) :=
    if_pos rfl
  have henabled : RuleSetting.isEnabled ⟨.error, [.expect options]⟩ = true := rfl
  rw [applyRule, if_pos henabled, LooseText.toString?_ofString, Option.bind_some, hrule]

/-- **Applying the rules to a file is applying `expect` to it**, up to failures of other rules. -/
theorem exists_run_of_lint {rules : RuleTable} {options : ExpectOptions}
    (hrules : EnforcesOnce rules options) {e e' : Engine Memo} {es : List Event}
    (h : (lint (builtinRules w compiler) rules file).run e = (⟨es, .ok ()⟩, e')) :
    ∃ es₁ fs before after,
      (Expect.rule w compiler file [.expect options]).run e.rules = (⟨es₁, .ok fs⟩, e'.rules) ∧
      Event.starts es = Event.starts es₁ ∧
      e'.failures = e.failures ++ before ++
        fs.map (fun f => { f with severity := Severity.error.name }) ++ after := by
  obtain ⟨before, after, rfl, hbefore, hafter⟩ := hrules
  obtain ⟨es₁, u₁, hes₁, hrun₁⟩ := run_lint_other w compiler file hbefore e
  -- the rules before `expect` are no more than failures
  rw [lint_append, Run.run_bind_eq_ok_iff] at h
  obtain ⟨es₁', a₁, e₁, es₂, h₁, h, rfl⟩ := h
  obtain ⟨ht, rfl⟩ := Prod.mk.inj (hrun₁.symm.trans h₁)
  obtain ⟨rfl, -⟩ := Traced.mk.inj ht
  rw [lint_cons, Run.run_bind_eq_ok_iff] at h
  obtain ⟨es₂', a₂, e₂, es₃, h₂, h₃, rfl⟩ := h
  -- so are the rules after it
  obtain ⟨es₃', u₃, hes₃, hrun₃⟩ := run_lint_other w compiler file hafter e₂
  obtain ⟨ht, rfl⟩ := Prod.mk.inj (hrun₃.symm.trans h₃)
  obtain ⟨rfl, -⟩ := Traced.mk.inj ht
  -- in between, `expect` runs on its memory, and its failures are recorded
  rw [applyRule_expect, Run.run_bind_eq_ok_iff] at h₂
  obtain ⟨es₄, fs, e₃, es₅, hzoom, hrecord, rfl⟩ := h₂
  obtain ⟨m, hrule, rfl⟩ := Run.run_zoom_eq_ok_iff.mp hzoom
  obtain ⟨rfl, rfl⟩ := Run.run_modify_eq_ok_iff.mp hrecord
  refine ⟨es₄, fs, before.flatMap (otherFailures file), after.flatMap (otherFailures file), hrule,
    ?_, rfl⟩
  rw [Event.starts_append, Event.starts_append, hes₁, hes₃, List.append_nil, List.append_nil]
  rfl

/-! ### All files of a pass -/

/-- What it comes to that files are looked at one after the other with the compilers of a range,
and nothing is found. -/
structure FoundNothing (w : Workspace) (compiler : Compiler) (project : Path)
    (vs : List VersionToTest) (files : List SourceFile) (m : Memo) (es : List Event)
    (m' : Memo) : Prop where
  valid : m'.Valid w compiler
  /-- After the first file every compiler is remembered. -/
  reported : m'.reported = m.reported ++
    if files = [] then [] else (Expect.fresh project m vs).map (Expect.keyOf project)
  /-- So each one is started once, unless there is no file. -/
  starts : Event.starts es = if files = [] then [] else
    (Expect.fresh project m vs).map fun v => Expect.startOf project v.path
  answers : files ≠ [] → ∀ v ∈ vs,
    Expect.compiled w compiler project v.path = .ok (Expect.said w compiler project v)
  /-- No compiler has anything to say about the project as a whole. -/
  named : files ≠ [] → ∀ v ∈ Expect.fresh project m vs,
    ∀ d ∈ Expect.said w compiler project v, d.file ≠ none
  /-- What they say about a file is expected there. -/
  expected : ∀ file ∈ files, ∀ v ∈ vs, ∀ d ∈ Expect.said w compiler project v,
    d.file = some (Path.normalForm file.name) → Expect.isExpected file d.line = true
  /-- What a file expects, they say. -/
  met : ∀ file ∈ files, ∀ v ∈ vs,
    Expect.missingFailures file v (Expect.said w compiler project v) = []

/-- **Without a failure, nothing was found in any file**: what the engine does to files one after
the other is what `expect` does to them, and a compiler that was run for one file is remembered for
the others. -/
theorem foundNothing_of_forM {rules : RuleTable} {options : ExpectOptions}
    (hrules : EnforcesOnce rules options) (hpaths : (options.versionsToTest.map (·.path)).Nodup)
    {files : List SourceFile} {e e' : Engine Memo} {es : List Event}
    (hm : e.rules.Valid w compiler) (hnone : e'.failures = [])
    (h : (files.forM (lint (builtinRules w compiler) rules)).run e = (⟨es, .ok ()⟩, e')) :
    e.failures = [] ∧ FoundNothing w compiler (Path.ofString options.tsconfigPath)
      options.versionsToTest files e.rules es e'.rules := by
  induction files generalizing e es with
  | nil =>
    obtain ⟨-, rfl, rfl⟩ := Run.run_pure_eq_ok_iff.mp h
    refine ⟨hnone, hm, ?_, rfl, ?_, ?_, ?_, ?_⟩
    · simp
    · exact fun hne => absurd rfl hne
    · exact fun hne => absurd rfl hne
    · simp
    · simp
  | cons file files ih =>
    obtain ⟨es₁, u, e₁, es₂, hfile, hfiles, rfl⟩ := Run.run_bind_eq_ok_iff.mp h
    obtain ⟨es₁', fs, before, after, hrule, hstarts, hfailures⟩ := exists_run_of_lint hrules hfile
    obtain ⟨fss, rfl, happlied⟩ := Expect.applied_of_run_rule hm hpaths hrule
    obtain ⟨hnone₁, hrest⟩ := ih happlied.valid hfiles
    -- after the first file there is no compiler left to be run
    have hfresh := happlied.fresh_eq_nil
    obtain ⟨hnone₀, -, hflat, -⟩ : e.failures = [] ∧ before = [] ∧ (∀ fs ∈ fss, fs = []) ∧
        after = [] := by
      simpa [hnone₁] using hfailures.symm
    -- and what was recorded for it is still there at the end, so it is nothing
    have hclean : ∀ v ∈ options.versionsToTest, _ := fun v hv =>
      Expect.failuresIn_eq_nil_iff.mp (hflat _ (happlied.failures ▸ List.mem_map_of_mem hv))
    refine ⟨hnone₀, hrest.valid, ?_, ?_, fun _ => happlied.answers, ?_, ?_, ?_⟩
    · rw [hrest.reported, hfresh, happlied.reported, if_neg (List.cons_ne_nil file files)]
      simp
    · rw [Event.starts_append, hstarts, happlied.starts, hrest.starts, hfresh,
        if_neg (List.cons_ne_nil file files)]
      simp
    · intro _ v hv
      obtain ⟨hv, hnew⟩ := List.mem_filter.mp hv
      exact (hclean v hv).1 hnew
    · exact List.forall_mem_cons.mpr ⟨fun v hv => (hclean v hv).2.1, hrest.expected⟩
    · exact List.forall_mem_cons.mpr ⟨fun v hv => (hclean v hv).2.2, hrest.met⟩

end Engine

end DeclLint
