/-
DeclLint/Proofs/Engine/Sequence.lean

What an engine collects over any number of calls, whatever its rules do and whatever
state they keep.  The calls are told apart into turns, one for each entry of a
configuration, and the reference is what the rules do on their own: the enabled
ones that are implemented, one after the other, without any engine (`applyAll`).

If they all return, so does the engine, and it has nothing but their failures, with
the severities of the configurations, and one warning for each name that is not
implemented (`run_turns`, by induction on the turns; the step is `run_turn`).  The
failures only ever grow, even where a rule ends in an error
(`failures_isPrefix_lintAll`).
-/
import DeclLint.Proofs.Engine
import DeclLint.Proofs.Table

namespace DeclLint

namespace Engine

variable {σ α β : Type}

/-! ### Calls, turns and applications -/

/-- A call of the engine: the rules of a configuration and the file that they are applied to. -/
structure Call where
  rules : RuleTable
  file : SourceFile

/-- Calls of one engine, one after the other. -/
def lintAll (registry : Registry σ) (cs : List Call) : Run (Engine σ) Unit :=
  cs.forM fun c => lint registry c.rules c.file

/-- A turn of an engine: an entry of a configuration, whether it is enabled or not. -/
structure Turn where
  file : SourceFile
  name : LooseText
  setting : RuleSetting

/-- The turns of calls: the calls in their order, and in each call the order of its rules. -/
def turns (cs : List Call) : List Turn :=
  cs.flatMap fun c => c.rules.map fun entry => ⟨c.file, entry.1, entry.2⟩

/-- An application of an implemented rule. -/
structure Application (σ : Type) where
  rule : Rule σ
  file : SourceFile
  setting : RuleSetting

namespace Application

/-- The failures that the rule finds. -/
def run (u : Application σ) : Run σ (List Failure) :=
  u.rule u.file u.setting.arguments

/-- The rule does not end in an error, whatever state it is in. -/
def Returns (u : Application σ) : Prop :=
  ∀ s, ∃ es fs s', u.run.run s = (⟨es, .ok fs⟩, s')

end Application

namespace Turn

/-- What the engine does in a turn. -/
def apply (registry : Registry σ) (t : Turn) : Run (Engine σ) Unit :=
  applyRule registry t.file t.name t.setting

/-- The rule that is implemented under the name of a turn. -/
def rule? (registry : Registry σ) (t : Turn) : Option (Rule σ) :=
  t.name.toString?.bind registry

/-- The rule that is applied in a turn: it is enabled and implemented. -/
def applications (registry : Registry σ) (t : Turn) : List (Application σ) :=
  if t.setting.isEnabled then (t.rule? registry).toList.map fun rule => ⟨rule, t.file, t.setting⟩
  else []

/-- The name that is enabled in a turn without being implemented. -/
def missing (registry : Registry σ) (t : Turn) : List LooseText :=
  if t.setting.isEnabled ∧ (t.rule? registry).isNone then [t.name] else []

end Turn

/-- The applications of rules, in the order of the turns. -/
def applications (registry : Registry σ) (ts : List Turn) : List (Application σ) :=
  ts.flatMap (Turn.applications registry)

/-- The enabled names that are not implemented, as often as they come up. -/
def missing (registry : Registry σ) (ts : List Turn) : List LooseText :=
  ts.flatMap (Turn.missing registry)

/-- The rules on their own, one after the other: what each of them returns. -/
def applyAll (us : List (Application σ)) : Run σ (List (List Failure)) :=
  us.mapM Application.run

/-- What rules returned, with the severities of the configurations. -/
def recorded (us : List (Application σ)) (returned : List (List Failure)) : List Failure :=
  (us.zip returned).flatMap fun p => withSeverity p.1.setting.severity p.2

/-- The warning about a rule that is not implemented. -/
def warning (name : LooseText) : Event :=
  .logged ⟨.warning, Component.engine.logger,
    "No implementation found for rule '" ++ name.escaped ++ "', skipping it"⟩

theorem turns_cons (c : Call) (cs : List Call) :
    turns (c :: cs) =
      (c.rules.map fun entry => (⟨c.file, entry.1, entry.2⟩ : Turn)) ++ turns cs :=
  List.flatMap_cons

theorem lintAll_append (registry : Registry σ) (cs ds : List Call) :
    lintAll registry (cs ++ ds) = lintAll registry cs >>= fun _ => lintAll registry ds :=
  List.forM_append

theorem lintAll_eq_forM_turns (registry : Registry σ) (cs : List Call) :
    lintAll registry cs = (turns cs).forM (Turn.apply registry) := by
  induction cs with
  | nil => rfl
  | cons c cs ih =>
    have hcall : lint registry c.rules c.file =
        (c.rules.map fun entry => (⟨c.file, entry.1, entry.2⟩ : Turn)).forM
          (Turn.apply registry) := by
      rw [List.forM_eq_forM, List.forM_map]
      rfl
    have hcons : lintAll registry (c :: cs) =
        lint registry c.rules c.file >>= fun _ => lintAll registry cs := rfl
    rw [hcons, hcall, ih, turns_cons, List.forM_eq_forM, List.forM_append]

@[simp] theorem applications_cons (registry : Registry σ) (t : Turn) (ts : List Turn) :
    applications registry (t :: ts) = t.applications registry ++ applications registry ts :=
  List.flatMap_cons

@[simp] theorem missing_cons (registry : Registry σ) (t : Turn) (ts : List Turn) :
    missing registry (t :: ts) = t.missing registry ++ missing registry ts :=
  List.flatMap_cons

/-! ### The rules on their own -/

theorem run_applyAll_append_eq_ok_iff {us vs : List (Application σ)} {s s'' : σ} {es : List Event}
    {returned : List (List Failure)} :
    (applyAll (us ++ vs)).run s = (⟨es, .ok returned⟩, s'') ↔
      ∃ es₁ s' es₂ first more, (applyAll us).run s = (⟨es₁, .ok first⟩, s') ∧
        (applyAll vs).run s' = (⟨es₂, .ok more⟩, s'') ∧ es = es₁ ++ es₂ ∧
        returned = first ++ more := by
  rw [applyAll, List.mapM_append, Run.run_bind_eq_ok_iff]
  constructor
  · rintro ⟨es₁, first, s', es₂, hfirst, hrest, rfl⟩
    obtain ⟨es₂, more, s₂, es₃, hmore, hpure, rfl⟩ := Run.run_bind_eq_ok_iff.mp hrest
    obtain ⟨rfl, rfl, rfl⟩ := Run.run_pure_eq_ok_iff.mp hpure
    exact ⟨es₁, s', es₂, first, more, hfirst, hmore, by rw [List.append_nil], rfl⟩
  · rintro ⟨es₁, s', es₂, first, more, hfirst, hmore, rfl, rfl⟩
    refine ⟨es₁, first, s', es₂, hfirst, ?_, rfl⟩
    refine Run.run_bind_eq_ok_iff.mpr ⟨es₂, more, s'', [], hmore, rfl, ?_⟩
    rw [List.append_nil]

theorem run_applyAll_nil_eq_ok_iff {s s' : σ} {es : List Event}
    {returned : List (List Failure)} :
    (applyAll []).run s = (⟨es, .ok returned⟩, s') ↔ [] = returned ∧ s = s' ∧ es = [] := by
  rw [applyAll, List.mapM_nil]
  exact Run.run_pure_eq_ok_iff

theorem run_applyAll_singleton_eq_ok_iff {u : Application σ} {s s' : σ} {es : List Event}
    {returned : List (List Failure)} :
    (applyAll [u]).run s = (⟨es, .ok returned⟩, s') ↔
      ∃ fs, u.run.run s = (⟨es, .ok fs⟩, s') ∧ returned = [fs] := by
  rw [applyAll, List.mapM_cons, List.mapM_nil, Run.run_bind_eq_ok_iff]
  constructor
  · rintro ⟨es₁, fs, s₁, es₂, hrule, hpure, rfl⟩
    rw [pure_bind] at hpure
    obtain ⟨rfl, rfl, rfl⟩ := Run.run_pure_eq_ok_iff.mp hpure
    exact ⟨fs, by rw [List.append_nil, hrule], rfl⟩
  · rintro ⟨fs, hrule, rfl⟩
    exact ⟨es, fs, s', [], hrule, rfl, (List.append_nil es).symm⟩

/-- Each use returns once. -/
theorem length_of_run_applyAll {us : List (Application σ)} {s s' : σ} {es : List Event}
    {returned : List (List Failure)}
    (h : (applyAll us).run s = (⟨es, .ok returned⟩, s')) : returned.length = us.length := by
  induction us generalizing s es returned with
  | nil =>
    obtain ⟨rfl, -, -⟩ := run_applyAll_nil_eq_ok_iff.mp h
    rfl
  | cons u us ih =>
    rw [← List.singleton_append] at h
    obtain ⟨es₁, s₁, es₂, first, more, hfirst, hmore, -, rfl⟩ :=
      run_applyAll_append_eq_ok_iff.mp h
    obtain ⟨fs, -, rfl⟩ := run_applyAll_singleton_eq_ok_iff.mp hfirst
    rw [List.length_append, ih hmore, List.length_singleton, List.length_cons, Nat.add_comm]

/-- Rules that always return do so one after the other. -/
theorem exists_run_applyAll {us : List (Application σ)} (h : ∀ u ∈ us, u.Returns) (s : σ) :
    ∃ es returned s', (applyAll us).run s = (⟨es, .ok returned⟩, s') := by
  induction us generalizing s with
  | nil => exact ⟨[], [], s, rfl⟩
  | cons u us ih =>
    obtain ⟨hu, hus⟩ := List.forall_mem_cons.mp h
    obtain ⟨es, fs, s₁, hrule⟩ := hu s
    obtain ⟨es', returned, s₂, hrest⟩ := ih hus s₁
    refine ⟨es ++ es', [fs] ++ returned, s₂, ?_⟩
    rw [← List.singleton_append]
    exact run_applyAll_append_eq_ok_iff.mpr ⟨es, s₁, es', [fs], returned,
      run_applyAll_singleton_eq_ok_iff.mpr ⟨fs, hrule, rfl⟩, hrest, rfl, rfl⟩

theorem recorded_append {us vs : List (Application σ)} {first more : List (List Failure)}
    (h : first.length = us.length) :
    recorded (us ++ vs) (first ++ more) = recorded us first ++ recorded vs more := by
  rw [recorded, List.zip_append h.symm, List.flatMap_append]
  rfl

/-! ### What one turn does -/

/-- What a turn can be: its rule is off, or not implemented, or applied. -/
inductive Turn.Kind (registry : Registry σ) (t : Turn) : Prop
  | off (hlist : t.applications registry = []) (hmissing : t.missing registry = [])
      (happly : t.apply registry = pure ())
  | unknown (hlist : t.applications registry = []) (hmissing : t.missing registry = [t.name])
      (happly : t.apply registry = warnUnknown t.name)
  | applied (rule : Rule σ) (hlist : t.applications registry = [⟨rule, t.file, t.setting⟩])
      (hmissing : t.missing registry = [])
      (happly : t.apply registry =
        onRules (rule t.file t.setting.arguments) >>= record t.setting.severity)

theorem Turn.kind (registry : Registry σ) (t : Turn) : t.Kind registry := by
  rcases hon : t.setting.isEnabled with - | -
  · refine .off ?_ ?_ ?_
    · simp [applications, hon]
    · simp [missing, hon]
    · simp [apply, applyRule, hon]
  · rcases hrule : t.name.toString?.bind registry with - | rule
    · refine .unknown ?_ ?_ ?_
      · simp [applications, rule?, hrule]
      · simp [missing, rule?, hon, hrule]
      · rw [apply, applyRule, if_pos hon, hrule]
    · refine .applied rule ?_ ?_ ?_
      · simp [applications, rule?, hon, hrule]
      · simp [missing, rule?, hrule]
      · rw [apply, applyRule, if_pos hon, hrule]

/-- A name is warned about if it is not among the known ones, and then it is. -/
theorem exists_run_warnUnknown {e : Engine σ} (hn : e.unknown.Nodup) (name : LooseText) :
    ∃ es, (warnUnknown name).run e =
        (⟨es, .ok ()⟩, { e with unknown := (e.unknown ++ [name]).eraseDups }) ∧
      e.unknown.map warning ++ es = (e.unknown ++ [name]).eraseDups.map warning := by
  rw [List.eraseDups_concat, List.eraseDups_of_nodup hn]
  by_cases hname : name ∈ e.unknown
  · refine ⟨[], ?_, ?_⟩
    · rw [warnUnknown, Run.run_get_bind, if_pos hname, if_pos hname]
      rfl
    · rw [if_pos hname, List.append_nil]
  · refine ⟨[warning name], ?_, ?_⟩
    · rw [warnUnknown, Run.run_get_bind, if_neg hname, if_neg hname]
      rfl
    · rw [if_neg hname, List.map_append]
      rfl

/-- What an engine has after turns, where the rules on their own did `es`, returned `returned` and
went to `s'`. -/
structure Collected (us : List (Application σ)) (names : List LooseText) (e : Engine σ)
    (es : List Event) (returned : List (List Failure)) (s' : σ) (es' : List Event)
    (e' : Engine σ) : Prop where
  /-- Nothing was dropped, and the failures of the rules were added in order. -/
  failures : e'.failures = e.failures ++ recorded us returned
  /-- The rules are where they would be on their own. -/
  rules : e'.rules = s'
  unknown : e'.unknown = (e.unknown ++ names).eraseDups
  /-- What happened is what the rules did, and a warning for each name that was not known. -/
  events : (e.unknown.map warning ++ es').Perm (es ++ e'.unknown.map warning)

theorem Collected.refl {e : Engine σ} (hn : e.unknown.Nodup) :
    Collected [] [] e [] [] e.rules [] e := by
  refine ⟨(List.append_nil _).symm, rfl, ?_, ?_⟩
  · rw [List.append_nil, List.eraseDups_of_nodup hn]
  · rw [List.append_nil, List.nil_append]

theorem Collected.nodup {us : List (Application σ)} {names : List LooseText} {e e' : Engine σ}
    {es es' : List Event} {returned : List (List Failure)} {s' : σ}
    (h : Collected us names e es returned s' es' e') : e'.unknown.Nodup :=
  h.unknown ▸ List.nodup_eraseDups _

open scoped List in
theorem Collected.trans {us vs : List (Application σ)} {names more : List LooseText}
    {e e₁ e₂ : Engine σ} {es fs es' fs' : List Event} {returned returned' : List (List Failure)}
    {s₁ s₂ : σ}
    (hlength : returned.length = us.length) (h : Collected us names e es returned s₁ es' e₁)
    (h' : Collected vs more e₁ fs returned' s₂ fs' e₂) :
    Collected (us ++ vs) (names ++ more) e (es ++ fs) (returned ++ returned') s₂ (es' ++ fs')
      e₂ := by
  refine ⟨?_, h'.rules, ?_, ?_⟩
  · rw [h'.failures, h.failures, recorded_append hlength, List.append_assoc]
  · rw [h'.unknown, h.unknown, List.eraseDups_eraseDups_append, List.append_assoc]
  · -- the names that were warned about in between pass from one side to the other
    calc e.unknown.map warning ++ (es' ++ fs')
      _ = (e.unknown.map warning ++ es') ++ fs' := (List.append_assoc _ _ _).symm
      _ ~ (es ++ e₁.unknown.map warning) ++ fs' := h.events.append_right fs'
      _ = es ++ (e₁.unknown.map warning ++ fs') := List.append_assoc _ _ _
      _ ~ es ++ (fs ++ e₂.unknown.map warning) := h'.events.append_left es
      _ = es ++ fs ++ e₂.unknown.map warning := (List.append_assoc _ _ _).symm

/-- **One turn does what its rule does, or warns.** -/
theorem run_turn {registry : Registry σ} {t : Turn} {e : Engine σ} (hn : e.unknown.Nodup)
    {es : List Event} {returned : List (List Failure)} {s' : σ}
    (h : (applyAll (t.applications registry)).run e.rules = (⟨es, .ok returned⟩, s')) :
    ∃ es' e', (t.apply registry).run e = (⟨es', .ok ()⟩, e') ∧
      Collected (t.applications registry) (t.missing registry) e es returned s' es' e' := by
  cases t.kind registry with
  | off hlist hmissing happly =>
    rw [hlist] at h
    obtain ⟨rfl, rfl, rfl⟩ := run_applyAll_nil_eq_ok_iff.mp h
    rw [hlist, hmissing, happly]
    exact ⟨[], e, rfl, .refl hn⟩
  | unknown hlist hmissing happly =>
    rw [hlist] at h
    obtain ⟨rfl, rfl, rfl⟩ := run_applyAll_nil_eq_ok_iff.mp h
    rw [hlist, hmissing, happly]
    obtain ⟨es', hrun, hevents⟩ := exists_run_warnUnknown hn t.name
    exact ⟨es', _, hrun, (List.append_nil _).symm, rfl, rfl, by rw [hevents]; rfl⟩
  | applied rule hlist hmissing happly =>
    rw [hlist] at h
    obtain ⟨fs, hrule, rfl⟩ := run_applyAll_singleton_eq_ok_iff.mp h
    rw [hlist, hmissing, happly]
    have hzoom : (onRules (rule t.file t.setting.arguments)).run e =
        (⟨es, .ok fs⟩, { e with rules := s' }) :=
      Run.run_zoom_eq_ok_iff.mpr ⟨s', hrule, rfl⟩
    refine ⟨es ++ [], _, Run.run_bind_of_ok hzoom rfl, ?_, rfl, ?_, ?_⟩
    · exact congrArg (e.failures ++ ·) (List.append_nil _).symm
    · rw [List.append_nil, List.eraseDups_of_nodup hn]
    · rw [List.append_nil]
      exact List.perm_append_comm

/-- **Turns do what their rules do on their own**, apart from the warnings. -/
theorem run_turns {registry : Registry σ} {ts : List Turn} {e : Engine σ} (hn : e.unknown.Nodup)
    {es : List Event} {returned : List (List Failure)} {s' : σ}
    (h : (applyAll (applications registry ts)).run e.rules = (⟨es, .ok returned⟩, s')) :
    ∃ es' e', (ts.forM (Turn.apply registry)).run e = (⟨es', .ok ()⟩, e') ∧
      Collected (applications registry ts) (missing registry ts) e es returned s' es' e' := by
  induction ts generalizing e es returned with
  | nil =>
    obtain ⟨rfl, rfl, rfl⟩ := run_applyAll_nil_eq_ok_iff.mp h
    exact ⟨[], e, rfl, .refl hn⟩
  | cons t ts ih =>
    rw [applications_cons] at h
    obtain ⟨es₁, s₁, es₂, first, more, hfirst, hmore, rfl, rfl⟩ :=
      run_applyAll_append_eq_ok_iff.mp h
    obtain ⟨es₁', e₁, hrun₁, hcollected⟩ := run_turn hn hfirst
    obtain ⟨es₂', e₂, hrun₂, hcollected'⟩ := ih hcollected.nodup (hcollected.rules ▸ hmore)
    refine ⟨es₁' ++ es₂', e₂, Run.run_bind_of_ok hrun₁ hrun₂, ?_⟩
    rw [applications_cons, missing_cons]
    exact hcollected.trans (length_of_run_applyAll hfirst) hcollected'

/-! ### Failures stay -/

/-- A part of a run that keeps the failures that are there and only adds to them. -/
def Grows (x : Run (Engine σ) α) : Prop :=
  ∀ e, e.failures <+: (x.run e).2.failures

/-- What comes behind a part only adds to its failures. -/
theorem Grows.isPrefix_bind (x : Run (Engine σ) α) {f : α → Run (Engine σ) β}
    (hf : ∀ a, Grows (f a)) (e : Engine σ) :
    (x.run e).2.failures <+: ((x >>= f).run e).2.failures := by
  rcases hx : x.run e with ⟨⟨es, r⟩, e'⟩
  cases r with
  | ok a =>
    rw [Run.run_bind_ok hx]
    exact hf a e'
  | error y =>
    have hstop : (x >>= f).run e = (⟨es, .error y⟩, e') := Run.run_bind_error hx
    exact hstop ▸ List.prefix_rfl

theorem Grows.bind {x : Run (Engine σ) α} {f : α → Run (Engine σ) β} (hx : Grows x)
    (hf : ∀ a, Grows (f a)) : Grows (x >>= f) :=
  fun e => (hx e).trans (Grows.isPrefix_bind x hf e)

theorem grows_warnUnknown (name : LooseText) : Grows (warnUnknown name : Run (Engine σ) Unit) := by
  intro e
  rw [warnUnknown, Run.run_get_bind]
  split
  · exact List.prefix_rfl
  · exact List.prefix_rfl

theorem grows_apply (registry : Registry σ) (t : Turn) : Grows (t.apply registry) := by
  cases t.kind registry with
  | off _ _ happly => exact happly ▸ fun _ => List.prefix_rfl
  | unknown _ _ happly => exact happly ▸ grows_warnUnknown t.name
  | applied rule _ _ happly =>
    rw [happly]
    -- a rule sees its own state alone, whether it returns or not
    exact Grows.bind (fun _ => List.prefix_rfl) fun _ _ => List.prefix_append _ _

theorem grows_lintAll (registry : Registry σ) (cs : List Call) : Grows (lintAll registry cs) := by
  rw [lintAll_eq_forM_turns]
  induction turns cs with
  | nil => exact fun _ => List.prefix_rfl
  | cons t ts ih => exact (grows_apply registry t).bind fun _ => ih

/-- **Earlier failures are never changed or dropped**, even where a rule ends in an error. -/
theorem failures_isPrefix_lintAll (registry : Registry σ) (cs ds : List Call) (e : Engine σ) :
    ((lintAll registry cs).run e).2.failures <+:
      ((lintAll registry (cs ++ ds)).run e).2.failures := by
  rw [lintAll_append]
  exact Grows.isPrefix_bind _ (fun _ => grows_lintAll registry ds) e

/-! ### Rules that are off -/

/-- A call without the rules that are off. -/
def Call.enabled (c : Call) : Call :=
  ⟨c.rules.filter fun entry => entry.2.isEnabled, c.file⟩

theorem lint_filter_isEnabled (registry : Registry σ) (rules : RuleTable) (file : SourceFile) :
    lint registry (rules.filter fun entry => entry.2.isEnabled) file =
      lint registry rules file := by
  induction rules with
  | nil => rfl
  | cons entry rules ih =>
    rw [List.filter_cons, lint_cons]
    split
    · rw [lint_cons, ih]
    · next hoff =>
      have hnothing : applyRule registry file entry.1 entry.2 = pure () := if_neg hoff
      rw [hnothing, pure_bind, ih]

/-- Without its entry, a rule that is off would not be missed: no call looks at it. -/
theorem lintAll_map_enabled (registry : Registry σ) (cs : List Call) :
    lintAll registry (cs.map Call.enabled) = lintAll registry cs := by
  rw [lintAll, List.forM_eq_forM, List.forM_map]
  exact congrArg (forM cs) (funext fun c => lint_filter_isEnabled registry c.rules c.file)

/-! ### Severities -/

/-- A failure is an error or a warning. -/
def IsCounted (f : Failure) : Prop :=
  f.severity = Severity.error.name ∨ f.severity = Severity.warning.name

theorem isCounted_withSeverity {setting : RuleSetting} (h : setting.isEnabled = true)
    {fs : List Failure} {f : Failure} (hf : f ∈ withSeverity setting.severity fs) :
    IsCounted f := by
  obtain ⟨g, -, rfl⟩ := List.mem_map.mp hf
  obtain ⟨severity, arguments⟩ := setting
  cases severity with
  | error => exact Or.inl rfl
  | warning => exact Or.inr rfl
  | off => cases h

theorem isEnabled_of_mem_applications {registry : Registry σ} {ts : List Turn} {u : Application σ}
    (h : u ∈ applications registry ts) : u.setting.isEnabled = true := by
  obtain ⟨t, -, hu⟩ := List.mem_flatMap.mp h
  unfold Turn.applications at hu
  split at hu
  · next hon =>
    obtain ⟨rule, -, rfl⟩ := List.mem_map.mp hu
    exact hon
  · cases hu

theorem isCounted_of_mem_recorded {registry : Registry σ} {ts : List Turn}
    {returned : List (List Failure)} {f : Failure}
    (h : f ∈ recorded (applications registry ts) returned) : IsCounted f := by
  obtain ⟨⟨u, fs⟩, hmem, hf⟩ := List.mem_flatMap.mp h
  exact isCounted_withSeverity (isEnabled_of_mem_applications (List.of_mem_zip hmem).1) hf

/-- Errors and warnings are all failures, if there are no others. -/
theorem countOf_add_countOf {fs : List Failure} (h : ∀ f ∈ fs, IsCounted f) :
    Report.countOf .error fs + Report.countOf .warning fs = fs.length := by
  have hwarning : Report.countOf .warning fs =
      fs.countP fun f => ¬(decide (f.severity = Severity.error.name) = true) := by
    refine List.countP_congr fun f hf => ?_
    rcases h f hf with hseverity | hseverity
    · simp [hseverity, Severity.name]
    · simp [hseverity, Severity.name]
  rw [hwarning, Report.countOf]
  exact (List.length_eq_countP_add_countP _).symm

/-! ### Whole sequences of calls -/

/-- What an engine has after a sequence of calls and has done in it, next to what its rules return
and do on their own. -/
structure Accounts (registry : Registry σ) (cs : List Call) (s : σ) (es : List Event)
    (returned : List (List Failure)) (s' : σ) (es' : List Event) (e : Engine σ) : Prop where
  /-- Every use of a rule returned once. -/
  length_returned : returned.length = (applications registry (turns cs)).length
  /-- The failures are those that were returned, in order, and differ in the severity alone. -/
  failures : e.failures = recorded (applications registry (turns cs)) returned
  /-- Nothing but these applications changed the state of the rules. -/
  rules : e.rules = s'
  /-- Besides what the rules did, each name that is enabled and not implemented was warned about,
  once. -/
  events : es'.Perm (es ++ (missing registry (turns cs)).eraseDups.map warning)
  /-- The failures of a first part of the calls are still there, and they come first. -/
  earlier : ∀ before after, cs = before ++ after →
    ((lintAll registry before).run (start s)).2.failures <+: e.failures
  /-- It would be the same without the rules that are off. -/
  enabled : (lintAll registry (cs.map Call.enabled)).run (start s) = (⟨es', .ok ()⟩, e)
  severities : ∀ f ∈ e.failures, IsCounted f
  counts : errorCount e + warningCount e = e.failures.length
  /-- The summary counts the same. -/
  total : (Report.summarize e.failures).total = errorCount e + warningCount e
  errors : (Report.summarize e.failures).errors = errorCount e
  warnings : (Report.summarize e.failures).warnings = warningCount e

/-- Where the rules return on their own, the engine returns too, and accounts for them. -/
theorem exists_run_lintAll {registry : Registry σ} {cs : List Call} {s s' : σ} {es : List Event}
    {returned : List (List Failure)}
    (h : (applyAll (applications registry (turns cs))).run s = (⟨es, .ok returned⟩, s')) :
    ∃ es' e, (lintAll registry cs).run (start s) = (⟨es', .ok ()⟩, e) ∧
      Accounts registry cs s es returned s' es' e := by
  obtain ⟨es', e, hrun, hcollected⟩ := run_turns (e := start s) List.nodup_nil h
  rw [← lintAll_eq_forM_turns] at hrun
  have hfailures : e.failures = recorded (applications registry (turns cs)) returned :=
    hcollected.failures
  have hseverities : ∀ f ∈ e.failures, IsCounted f := fun f hf =>
    isCounted_of_mem_recorded (hfailures ▸ hf)
  have hcounts : errorCount e + warningCount e = e.failures.length :=
    countOf_add_countOf hseverities
  refine ⟨es', e, hrun, length_of_run_applyAll h, hfailures, hcollected.rules, ?_, ?_, ?_,
    hseverities, hcounts, hcounts.symm, rfl, rfl⟩
  · have hunknown : e.unknown = (missing registry (turns cs)).eraseDups := hcollected.unknown
    exact hunknown ▸ hcollected.events
  · rintro before after rfl
    have hprefix := failures_isPrefix_lintAll registry before after (start s)
    rwa [hrun] at hprefix
  · rw [lintAll_map_enabled, hrun]

/-- **An engine accounts for its rules**: for any calls, and for any rules that do not end in an
error, whatever state they share and whatever else they do. -/
theorem lintAll_accounts (registry : Registry σ) (cs : List Call)
    (h : ∀ u ∈ applications registry (turns cs), u.Returns) (s : σ) :
    ∃ es returned s' es' e,
      (applyAll (applications registry (turns cs))).run s = (⟨es, .ok returned⟩, s') ∧
      (lintAll registry cs).run (start s) = (⟨es', .ok ()⟩, e) ∧
      Accounts registry cs s es returned s' es' e := by
  obtain ⟨es, returned, s', happlied⟩ := exists_run_applyAll h s
  obtain ⟨es', e, hrun, haccounts⟩ := exists_run_lintAll happlied
  exact ⟨es, returned, s', es', e, happlied, hrun, haccounts⟩

/-- A rule that finds one failure in every file, and numbers them. -/
def numbering : Rule Nat := fun file _ =>
  ⟨fun n => (⟨[], .ok [⟨file.name, "numbering", "", n, 0, ""⟩]⟩, n + 1)⟩

/-- The numbering rule, and one that always ends in an error. -/
def numberingRules : Registry Nat := fun name =>
  if name = "numbering" then some numbering
  else if name = "broken" then some fun _ _ => Run.lift (Traced.fail .nulInPath)
  else none

/-- Two calls: a rule is off in the first one, and both name a rule that is not implemented. -/
def numberingCalls : List Call :=
  [⟨[(.ofString "numbering", ⟨.warning, []⟩), (.ofString "broken", ⟨.off, []⟩),
      (.ofString "nowhere", ⟨.error, []⟩)], ⟨"a.d.ts", ""⟩⟩,
    ⟨[(.ofString "nowhere", ⟨.warning, []⟩), (.ofString "numbering", ⟨.error, []⟩)],
      ⟨"b.d.ts", ""⟩⟩]

theorem lintAll_accounts_numbering :
    (∀ u ∈ applications numberingRules (turns numberingCalls), u.Returns) ∧
      ∃ es returned s' es' e,
        (lintAll numberingRules numberingCalls).run (start 0) = (⟨es', .ok ()⟩, e) ∧
        Accounts numberingRules numberingCalls 0 es returned s' es' e ∧
        es' = [warning (.ofString "nowhere")] ∧
        e.failures = [⟨"a.d.ts", "numbering", "warning", 0, 0, ""⟩,
          ⟨"b.d.ts", "numbering", "error", 1, 0, ""⟩] := by
  have hlist : applications numberingRules (turns numberingCalls) =
      [⟨numbering, ⟨"a.d.ts", ""⟩, ⟨.warning, []⟩⟩,
        ⟨numbering, ⟨"b.d.ts", ""⟩, ⟨.error, []⟩⟩] := rfl
  have hreturns : ∀ u ∈ applications numberingRules (turns numberingCalls), u.Returns := by
    rw [hlist]
    intro u hu n
    rcases (by simpa using hu : u = _ ∨ u = _) with rfl | rfl
    · exact ⟨[], _, n + 1, rfl⟩
    · exact ⟨[], _, n + 1, rfl⟩
  obtain ⟨es, returned, s', es', e, -, hrun, haccounts⟩ :=
    lintAll_accounts numberingRules numberingCalls hreturns 0
  have hvalue : (lintAll numberingRules numberingCalls).run (start 0) =
      (⟨[warning (.ofString "nowhere")], .ok ()⟩,
        ⟨[⟨"a.d.ts", "numbering", "warning", 0, 0, ""⟩,
          ⟨"b.d.ts", "numbering", "error", 1, 0, ""⟩], [.ofString "nowhere"], 2⟩) := rfl
  obtain ⟨htraced, rfl⟩ := Prod.mk.inj (hrun.symm.trans hvalue)
  obtain ⟨rfl, -⟩ := Traced.mk.inj htraced
  exact ⟨hreturns, es, returned, s', _, _, hrun, haccounts, rfl, rfl⟩

end Engine

end DeclLint
