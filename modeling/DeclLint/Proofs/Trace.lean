/-
DeclLint/Proofs/Trace.lean

How traced computations come apart.  `Traced` and `Run` are lawful monads, so
the library's lemmas on `mapM` and `foldlM` apply; beyond these laws one
inversion lemma for each of them is all that later proofs know of a bind: a
run that ends with a result splits into a run of its first part that does, and
one of the rest, and their events follow each other (`Traced.bind_eq_ok_iff`,
`Run.run_bind_eq_ok_iff`).

A computation is *quiet* if it starts no compiler.  Whatever is put together
from quiet parts is quiet.  One with a larger state *covers* another if it does the
same on a part of the state; what is put together from such parts does so too.
-/
import DeclLint.Trace

namespace DeclLint

namespace Traced

variable {α β : Type}

/-! ### Laws -/

@[ext] theorem ext {x y : Traced α} (he : x.events = y.events) (hr : x.result = y.result) :
    x = y := by
  obtain ⟨es, r⟩ := x
  obtain ⟨fs, q⟩ := y
  obtain rfl : es = fs := he
  obtain rfl : r = q := hr
  rfl

instance : LawfulMonad Traced := LawfulMonad.mk' Traced
  (by
    rintro α ⟨es, r⟩
    cases r with
    | ok a => exact Traced.ext (List.append_nil es) rfl
    | error e => rfl)
  (by
    intro α β a f
    exact Traced.ext (List.nil_append _) rfl)
  (by
    rintro α β γ ⟨es, r⟩ f g
    cases r with
    | error e => rfl
    | ok a =>
      rw [bind_ok, bind_ok]
      -- the second step may fail where the first one did not
      rcases h : f a with ⟨fs, q⟩
      cases q with
      | ok b => simp [List.append_assoc]
      | error e => simp)

/-! ### Inversion -/

theorem bind_eq_ok_iff {x : Traced α} {f : α → Traced β} {es : List Event} {b : β} :
    x >>= f = ⟨es, .ok b⟩ ↔
      ∃ es₁ a es₂, x = ⟨es₁, .ok a⟩ ∧ f a = ⟨es₂, .ok b⟩ ∧ es = es₁ ++ es₂ := by
  obtain ⟨fs, r⟩ := x
  cases r with
  | error e => simp
  | ok a =>
    rw [bind_ok]
    constructor
    · intro h
      obtain ⟨he, hr⟩ := Traced.mk.inj h
      exact ⟨fs, a, (f a).events, rfl, Traced.ext rfl hr, he.symm⟩
    · rintro ⟨es₁, a', es₂, hx, hf, rfl⟩
      obtain ⟨rfl, ha⟩ := Traced.mk.inj hx
      obtain rfl := Except.ok.inj ha
      rw [hf]

theorem pure_eq_ok_iff {a b : α} {es : List Event} :
    (Pure.pure a : Traced α) = ⟨es, .ok b⟩ ↔ a = b ∧ es = [] := by
  rw [pure_eq, Traced.mk.injEq, Except.ok.injEq, and_comm]
  exact and_congr_right fun _ => eq_comm

theorem ofExcept_eq_ok_iff {r : Except LintError α} {a : α} {es : List Event} :
    ofExcept r = ⟨es, .ok a⟩ ↔ r = .ok a ∧ es = [] := by
  rw [ofExcept, Traced.mk.injEq, and_comm]
  exact and_congr_right fun _ => eq_comm

@[simp] theorem ofExcept_ok_bind (a : α) (f : α → Traced β) : ofExcept (.ok a) >>= f = f a :=
  pure_bind a f

theorem emit_eq_ok_iff {ev : Event} {es : List Event} {u : Unit} :
    emit ev = ⟨es, .ok u⟩ ↔ es = [ev] := by
  simp [emit, eq_comm]

theorem result_eq_ok_iff {x : Traced α} {a : α} :
    x.result = .ok a ↔ ∃ es, x = ⟨es, .ok a⟩ := by
  constructor
  · intro h
    exact ⟨x.events, Traced.ext rfl h⟩
  · rintro ⟨es, rfl⟩
    rfl

/-! ### Results -/

theorem result_bind_eq_ok_iff {x : Traced α} {f : α → Traced β} {b : β} :
    (x >>= f).result = .ok b ↔ ∃ a, x.result = .ok a ∧ (f a).result = .ok b := by
  obtain ⟨es, r⟩ := x
  cases r with
  | error e => simp
  | ok a => simp

theorem result_log_bind (level : Level) (component : Component) (text : String)
    (f : Unit → Traced β) : (log level component text >>= f).result = (f ()).result := rfl

/-- What holds of a value and is kept by every step holds of what a fold ends with. -/
theorem foldlM_induction {P : β → Prop} {f : β → α → Traced β}
    (hstep : ∀ b a c, P b → (f b a).result = .ok c → P c) {as : List α} {b c : β} (hb : P b)
    (h : (as.foldlM f b).result = .ok c) : P c := by
  induction as generalizing b with
  | nil =>
    obtain rfl := Except.ok.inj h
    exact hb
  | cons a as ih =>
    rw [List.foldlM_cons] at h
    obtain ⟨b', hb', hrest⟩ := result_bind_eq_ok_iff.mp h
    exact ih (hstep b a b' hb hb') hrest

/-- A fold ends with a result if each of its steps has one, whatever came before. -/
theorem exists_foldlM_eq_ok_iff {f : β → α → Traced β} {P : α → Prop}
    (hstep : ∀ b a, (∃ c, (f b a).result = .ok c) ↔ P a) {as : List α} {b : β} :
    (∃ c, (as.foldlM f b).result = .ok c) ↔ ∀ a ∈ as, P a := by
  induction as generalizing b with
  | nil => exact ⟨fun _ => by simp, fun _ => ⟨b, rfl⟩⟩
  | cons a as ih =>
    rw [List.foldlM_cons, List.forall_mem_cons]
    constructor
    · rintro ⟨c, h⟩
      obtain ⟨b', hb', hrest⟩ := result_bind_eq_ok_iff.mp h
      exact ⟨(hstep b a).mp ⟨b', hb'⟩, ih.mp ⟨c, hrest⟩⟩
    · rintro ⟨ha, has⟩
      obtain ⟨b', hb'⟩ := (hstep b a).mpr ha
      obtain ⟨c, hc⟩ := ih.mpr has
      exact ⟨c, result_bind_eq_ok_iff.mpr ⟨b', hb', hc⟩⟩

/-! ### Quiet computations -/

/-- The computation starts no compiler. -/
def Quiet (x : Traced α) : Prop :=
  x.starts = []

theorem quiet_pure (a : α) : Quiet (Pure.pure a : Traced α) := rfl

theorem quiet_fail (e : LintError) : Quiet (fail e : Traced α) := rfl

theorem quiet_ofExcept (r : Except LintError α) : Quiet (ofExcept r) := rfl

theorem quiet_log (level : Level) (component : Component) (text : String) :
    Quiet (log level component text) := rfl

theorem Quiet.bind {x : Traced α} {f : α → Traced β} (hx : Quiet x) (hf : ∀ a, Quiet (f a)) :
    Quiet (x >>= f) := by
  obtain ⟨es, r⟩ := x
  cases r with
  | error e => exact hx
  | ok a =>
    show Event.starts (es ++ (f a).events) = []
    rw [Event.starts_append]
    exact List.append_eq_nil_iff.mpr ⟨hx, hf a⟩

theorem quiet_foldlM {f : β → α → Traced β} (hf : ∀ b a, Quiet (f b a)) (as : List α) (b : β) :
    Quiet (as.foldlM f b) := by
  induction as generalizing b with
  | nil => exact quiet_pure b
  | cons a as ih =>
    rw [List.foldlM_cons]
    exact (hf b a).bind fun b' => ih b'

/-! ### Related computations -/

/-- Two computations do the same, and end in the same error or with related results. -/
inductive Related (R : α → β → Prop) : Traced α → Traced β → Prop
  | ok (es : List Event) {a : α} {b : β} (h : R a b) : Related R ⟨es, .ok a⟩ ⟨es, .ok b⟩
  | error (es : List Event) (e : LintError) : Related R ⟨es, .error e⟩ ⟨es, .error e⟩

theorem Related.refl {R : α → α → Prop} (h : ∀ a, R a a) (x : Traced α) : Related R x x := by
  obtain ⟨es, r⟩ := x
  cases r with
  | ok a => exact .ok es (h a)
  | error e => exact .error es e

theorem Related.eq {x y : Traced α} (h : Related Eq x y) : x = y := by
  cases h with
  | ok es h => rw [h]
  | error es e => rfl

/-- Related results are results of the two computations. -/
theorem Related.results {R : α → β → Prop} {x : Traced α} {y : Traced β} (h : Related R x y) :
    Related (fun a b => R a b ∧ x.result = .ok a ∧ y.result = .ok b) x y := by
  cases h with
  | ok es h => exact .ok es ⟨h, rfl, rfl⟩
  | error es e => exact .error es e

theorem Related.bind {γ δ : Type} {R : α → β → Prop} {S : γ → δ → Prop} {x : Traced α}
    {y : Traced β} {f : α → Traced γ} {g : β → Traced δ} (h : Related R x y)
    (hfg : ∀ a b, R a b → Related S (f a) (g b)) : Related S (x >>= f) (y >>= g) := by
  cases h with
  | error es e => exact .error es e
  | @ok es a b h =>
    have hrest := hfg a b h
    rw [bind_ok, bind_ok]
    -- both go on with the same events
    generalize f a = u, g b = v at hrest
    cases hrest with
    | ok fs h' => exact .ok (es ++ fs) h'
    | error fs e => exact .error (es ++ fs) e

theorem Related.foldlM {γ : Type} {R : β → γ → Prop} {f : β → α → Traced β} {g : γ → α → Traced γ}
    {as : List α} (hstep : ∀ a ∈ as, ∀ b c, R b c → Related R (f b a) (g c a)) {b : β} {c : γ}
    (h : R b c) : Related R (as.foldlM f b) (as.foldlM g c) := by
  induction as generalizing b c with
  | nil => exact .ok [] h
  | cons a as ih =>
    obtain ⟨ha, has⟩ := List.forall_mem_cons.mp hstep
    rw [List.foldlM_cons, List.foldlM_cons]
    exact (ha b c h).bind fun _ _ => ih has

/-! ### One after the other -/

/-- The computation ended, without a result that anything would stop for. -/
def IsClean : Except LintError (Option α) → Bool
  | .ok none => true
  | _ => false

theorem eq_of_isClean {r : Except LintError (Option α)} (h : IsClean r = true) : r = .ok none := by
  rcases r with e | _ | a
  · cases h
  · rfl
  · cases h

/-- Goes on with a second computation where the first one ends clean. -/
def orNext (x y : Traced (Option α)) : Traced (Option α) := do
  match ← x with
  | some a => return some a
  | none => y

/-- Computations one after the other, until one does not end clean. -/
def untilSome (xs : List (Traced (Option α))) : Traced (Option α) :=
  xs.foldr orNext (return none)

/-- The computations that are run: all of them, up to the first that does not end clean. -/
def started (xs : List (Traced (Option α))) : List (Traced (Option α)) :=
  xs.take (xs.findIdx (fun x => !IsClean x.result) + 1)

theorem bind_eq_orNext (x : Traced (Option α)) {y : Traced (Option α)}
    {f : Option α → Traced (Option α)} (hsome : ∀ a, f (some a) = pure (some a))
    (hnone : f none = y) : x >>= f = orNext x y := by
  refine congrArg (x >>= ·) (funext fun r => ?_)
  cases r with
  | none => exact hnone
  | some a => exact hsome a

theorem orNext_clean {x y : Traced (Option α)} (h : IsClean x.result = true) :
    orNext x y = ⟨x.events ++ y.events, y.result⟩ := by
  rcases x with ⟨es, e | _ | a⟩
  · cases h
  · rfl
  · cases h

theorem orNext_stop {x y : Traced (Option α)} (h : IsClean x.result = false) :
    orNext x y = x := by
  rcases x with ⟨es, e | _ | a⟩
  · rfl
  · cases h
  · exact Traced.ext (List.append_nil es) rfl

/-- The result is the first one that is not clean. -/
theorem result_untilSome (xs : List (Traced (Option α))) :
    (untilSome xs).result = ((xs.map result).find? (!IsClean ·)).getD (.ok none) := by
  induction xs with
  | nil => rfl
  | cons x xs ih =>
    rcases h : IsClean x.result with - | -
    · rw [untilSome, List.foldr_cons, orNext_stop h, List.map_cons,
        List.find?_cons_of_pos (by rw [h]; rfl)]
      rfl
    · rw [untilSome, List.foldr_cons, orNext_clean h, List.map_cons,
        List.find?_cons_of_neg (by rw [h]; simp)]
      exact ih

/-- What happened is what the computations that were run did. -/
theorem events_untilSome (xs : List (Traced (Option α))) :
    (untilSome xs).events = (started xs).flatMap events := by
  induction xs with
  | nil => rfl
  | cons x xs ih =>
    rcases h : IsClean x.result with - | -
    · rw [untilSome, List.foldr_cons, orNext_stop h, started, List.findIdx_cons, h]
      simp
    · rw [untilSome, List.foldr_cons, orNext_clean h, started, List.findIdx_cons, h]
      exact congrArg (x.events ++ ·) ih

theorem Quiet.starts_eq {x : Traced α} {es : List Event} {r : Except LintError α} (h : x.Quiet)
    (hx : x = ⟨es, r⟩) : Event.starts es = [] := by
  subst hx
  exact h

end Traced

namespace Run

variable {σ τ α β : Type}

/-! ### Laws -/

@[ext] theorem ext {x y : Run σ α} (h : ∀ s, x.run s = y.run s) : x = y := by
  obtain ⟨f⟩ := x
  obtain ⟨g⟩ := y
  exact congrArg Run.mk (funext h)

@[simp] theorem run_pure (a : α) (s : σ) :
    (Pure.pure a : Run σ α).run s = (⟨[], .ok a⟩, s) := rfl

theorem run_bind_ok {x : Run σ α} {f : α → Run σ β} {s s' : σ} {es : List Event} {a : α}
    (h : x.run s = (⟨es, .ok a⟩, s')) :
    (x >>= f).run s =
      (⟨es ++ ((f a).run s').1.events, ((f a).run s').1.result⟩, ((f a).run s').2) := by
  show (Run.bind x f).run s = _
  simp only [Run.bind, h]

theorem run_bind_of_ok {x : Run σ α} {f : α → Run σ β} {s s' s'' : σ} {es fs : List Event} {a : α}
    {r : Except LintError β} (hx : x.run s = (⟨es, .ok a⟩, s'))
    (hf : (f a).run s' = (⟨fs, r⟩, s'')) : (x >>= f).run s = (⟨es ++ fs, r⟩, s'') := by
  rw [run_bind_ok hx, hf]

theorem run_bind_error {x : Run σ α} {f : α → Run σ β} {s s' : σ} {es : List Event}
    {e : LintError} (h : x.run s = (⟨es, .error e⟩, s')) :
    (x >>= f).run s = (⟨es, .error e⟩, s') := by
  show (Run.bind x f).run s = _
  simp only [Run.bind, h]

theorem run_get_bind (f : σ → Run σ β) (s : σ) : (get >>= f).run s = (f s).run s := by
  have hget : (get : Run σ σ).run s = (⟨[], .ok s⟩, s) := rfl
  rw [run_bind_ok hget, List.nil_append]

instance : LawfulMonad (Run σ) := LawfulMonad.mk' (Run σ)
  (by
    intro α x
    apply Run.ext
    intro s
    show (x >>= fun a => Pure.pure (id a)).run s = x.run s
    rcases h : x.run s with ⟨⟨es, r⟩, s'⟩
    cases r with
    | ok a => simp [run_bind_ok h]
    | error e => exact run_bind_error h)
  (by
    intro α β a f
    apply Run.ext
    intro s
    rw [run_bind_ok (run_pure a s), List.nil_append])
  (by
    intro α β γ x f g
    apply Run.ext
    intro s
    rcases h : x.run s with ⟨⟨es, r⟩, s'⟩
    cases r with
    | error e => rw [run_bind_error (run_bind_error h), run_bind_error h]
    | ok a =>
      rw [run_bind_ok h]
      -- again the second step may fail, now with the state that the first one left
      rcases h' : (f a).run s' with ⟨⟨fs, q⟩, s''⟩
      have hxf := run_bind_ok (f := f) h
      rw [h'] at hxf
      cases q with
      | ok b => rw [run_bind_ok hxf, run_bind_ok h', List.append_assoc]
      | error e => rw [run_bind_error hxf, run_bind_error h'])

/-- What happens behind a part without a state, apart from the state that it leaves. -/
theorem fst_run_lift_bind (t : Traced α) (f : α → Run σ β) (s : σ) :
    ((lift t >>= f).run s).1 = t >>= fun a => ((f a).run s).1 := by
  obtain ⟨es, r⟩ := t
  cases r with
  | ok a => rfl
  | error e => rfl

/-- Two parts without a state are one. -/
theorem lift_bind_bind {γ : Type} (t : Traced α) (g : α → Traced β) (f : β → Run σ γ) :
    (lift t >>= fun a => lift (g a) >>= f) = lift (t >>= g) >>= f := by
  have hlift : (lift (t >>= g) : Run σ β) = lift t >>= fun a => lift (g a) := by
    apply Run.ext
    intro s
    obtain ⟨es, r⟩ := t
    cases r with
    | ok a => rfl
    | error e => rfl
  rw [hlift, bind_assoc]

/-! ### Inversion -/

theorem run_bind_eq_ok_iff {x : Run σ α} {f : α → Run σ β} {s s'' : σ} {es : List Event} {b : β} :
    (x >>= f).run s = (⟨es, .ok b⟩, s'') ↔
      ∃ es₁ a s' es₂, x.run s = (⟨es₁, .ok a⟩, s') ∧ (f a).run s' = (⟨es₂, .ok b⟩, s'') ∧
        es = es₁ ++ es₂ := by
  constructor
  · intro h
    -- a first part that fails gives no result
    rcases hx : x.run s with ⟨⟨es₁, r⟩, s'⟩
    cases r with
    | error e =>
      rw [run_bind_error hx] at h
      cases h
    | ok a =>
      rw [run_bind_ok hx] at h
      obtain ⟨ht, rfl⟩ := Prod.mk.inj h
      obtain ⟨he, hr⟩ := Traced.mk.inj ht
      exact ⟨es₁, a, s', _, rfl, Prod.ext (Traced.ext rfl hr) rfl, he.symm⟩
  · rintro ⟨es₁, a, s', es₂, hx, hf, rfl⟩
    rw [run_bind_ok hx, hf]

theorem run_pure_eq_ok_iff {a b : α} {s s' : σ} {es : List Event} :
    (Pure.pure a : Run σ α).run s = (⟨es, .ok b⟩, s') ↔ a = b ∧ s = s' ∧ es = [] := by
  rw [run_pure]
  constructor
  · intro h
    cases h
    exact ⟨rfl, rfl, rfl⟩
  · rintro ⟨rfl, rfl, rfl⟩
    rfl

theorem run_lift_eq_ok_iff {t : Traced α} {s s' : σ} {es : List Event} {a : α} :
    (lift t : Run σ α).run s = (⟨es, .ok a⟩, s') ↔ t = ⟨es, .ok a⟩ ∧ s = s' := by
  rw [lift, Prod.mk.injEq]

theorem run_modify_eq_ok_iff {f : σ → σ} {s s' : σ} {es : List Event} {u : Unit} :
    (modify f).run s = (⟨es, .ok u⟩, s') ↔ f s = s' ∧ es = [] := by
  rw [modify, Prod.mk.injEq, Traced.pure, Traced.mk.injEq, and_comm, eq_comm (a := es)]
  simp

theorem run_zoom_eq_ok_iff {view : τ → σ} {set : σ → τ → τ} {x : Run σ α} {t t' : τ}
    {es : List Event} {a : α} :
    (zoom view set x).run t = (⟨es, .ok a⟩, t') ↔
      ∃ s', x.run (view t) = (⟨es, .ok a⟩, s') ∧ t' = set s' t := by
  rcases h : x.run (view t) with ⟨r, s'⟩
  simp only [zoom, h, Prod.mk.injEq]
  constructor
  · rintro ⟨rfl, rfl⟩
    exact ⟨s', ⟨rfl, rfl⟩, rfl⟩
  · rintro ⟨s'', ⟨rfl, rfl⟩, rfl⟩
    exact ⟨rfl, rfl⟩

theorem startingAt_eq_ok_iff {x : Run σ α} {s s' : σ} {es : List Event} {a : α} :
    x.startingAt s = ⟨es, .ok (a, s')⟩ ↔ x.run s = (⟨es, .ok a⟩, s') := by
  rcases h : x.run s with ⟨⟨fs, r⟩, s''⟩
  simp only [startingAt, h]
  cases r with
  | error e => simp [Except.map]
  | ok b => simp [Except.map, and_assoc]

/-! ### Agreement -/

/-- Two outcomes differ in nothing but what was logged. -/
structure SameOutcome (u v : Traced α × σ) : Prop where
  result : u.1.result = v.1.result
  starts : u.1.starts = v.1.starts
  state : u.2 = v.2

/-- Two computations differ in nothing but what they log: from every state on they give the same
result, start the same compilers and leave the same state. -/
def Agrees (x y : Run σ α) : Prop :=
  ∀ s, SameOutcome (x.run s) (y.run s)

theorem Agrees.refl (x : Run σ α) : x.Agrees x :=
  fun _ => ⟨rfl, rfl, rfl⟩

theorem Agrees.trans {x y z : Run σ α} (h : x.Agrees y) (h' : y.Agrees z) : x.Agrees z := by
  intro s
  exact ⟨(h s).result.trans (h' s).result, (h s).starts.trans (h' s).starts,
    (h s).state.trans (h' s).state⟩

/-- Parts that leave the same state and start the same compilers, and go on in agreement. -/
theorem Agrees.sameOutcome_bind {β γ : Type} {x : Run σ β} {y : Run σ γ} {f : β → Run σ α}
    {g : γ → Run σ α} {s s' : σ} {es fs : List Event} {b : β} {c : γ}
    (h : (f b).Agrees (g c)) (hx : x.run s = (⟨es, .ok b⟩, s'))
    (hy : y.run s = (⟨fs, .ok c⟩, s')) (hstarts : Event.starts es = Event.starts fs) :
    SameOutcome ((x >>= f).run s) ((y >>= g).run s) := by
  rw [run_bind_ok hx, run_bind_ok hy]
  refine ⟨(h s').result, ?_, (h s').state⟩
  show Event.starts (es ++ _) = Event.starts (fs ++ _)
  rw [Event.starts_append, Event.starts_append, hstarts]
  exact congrArg (Event.starts fs ++ ·) (h s').starts

theorem Agrees.bind_right {x : Run σ β} {f g : β → Run σ α} (h : ∀ b, (f b).Agrees (g b)) :
    (x >>= f).Agrees (x >>= g) := by
  intro s
  rcases hx : x.run s with ⟨⟨es, r⟩, s'⟩
  cases r with
  | error e =>
    rw [run_bind_error hx, run_bind_error hx]
    exact ⟨rfl, rfl, rfl⟩
  | ok b => exact (h b).sameOutcome_bind hx hx rfl

/-- A quiet part without a state adds nothing but its result. -/
theorem agrees_of_quiet {t : Traced β} {f : β → Run σ α} {b : β} (ht : t.Quiet)
    (hb : t.result = .ok b) : (lift t >>= f).Agrees (f b) := by
  intro s
  have hlift : (lift t).run s = (⟨t.events, .ok b⟩, s) := by
    rw [← hb]
    rfl
  rw [run_bind_ok hlift]
  refine ⟨rfl, ?_, rfl⟩
  show Event.starts (t.events ++ _) = _
  rw [Event.starts_append, show Event.starts t.events = [] from ht]
  rfl

/-! ### Larger states -/

variable {view : τ → σ}

/-- A computation does on a part of its state, which is read by `view`, what another does: it gives
the same result, does the same on the way and leaves the same part. -/
def Covers (view : τ → σ) (x : Run τ α) (y : Run σ α) : Prop :=
  ∀ t, y.run (view t) = ((x.run t).1, view (x.run t).2)

theorem covers_pure (a : α) : Covers view (Pure.pure a) (Pure.pure a) :=
  fun _ => rfl

theorem covers_lift (t : Traced α) : Covers view (lift t) (lift t) :=
  fun _ => rfl

theorem covers_modify {f : τ → τ} {g : σ → σ} (h : ∀ t, g (view t) = view (f t)) :
    Covers view (modify f) (modify g) :=
  fun t => congrArg (Traced.pure (), ·) (h t)

theorem covers_zoom {set : σ → τ → τ} (h : ∀ s t, view (set s t) = s) (y : Run σ α) :
    Covers view (zoom view set y) y := by
  intro t
  rcases hy : y.run (view t) with ⟨r, s⟩
  simp only [zoom, hy, h]

theorem Covers.bind {x : Run τ α} {y : Run σ α} {f : α → Run τ β} {g : α → Run σ β}
    (hx : Covers view x y) (hf : ∀ a, Covers view (f a) (g a)) :
    Covers view (x >>= f) (y >>= g) := by
  intro t
  have hy := hx t
  rcases h : x.run t with ⟨⟨es, r⟩, t'⟩
  rw [h] at hy
  cases r with
  | error e => rw [run_bind_error h, run_bind_error hy]
  | ok a => rw [run_bind_ok h, run_bind_ok hy, hf a t']

/-- What is changed elsewhere beforehand is of no account. -/
theorem Covers.behind_modify {f : τ → τ} {x : Run τ α} {y : Run σ α} (hx : Covers view x y)
    (h : ∀ t, view (f t) = view t) : Covers view (modify f >>= fun _ => x) y := by
  intro t
  have hmodify : (modify f).run t = (⟨[], .ok ()⟩, f t) := rfl
  rw [run_bind_ok hmodify, List.nil_append, ← h t, hx (f t)]

end Run

end DeclLint
