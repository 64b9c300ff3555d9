/-
DeclLint/Proofs/Fault.lean

What computations fail with.  A computation *fails within* a property of errors if
any error that it ends in has the property.  This is what can be said of a
computation from its parts alone: whatever is put together from parts that fail
within a property does so, too.  Where a part is reached only behind a result of an
earlier one, the lemma on a bind hands this result on.

The lemmas stand next to each other for the three ways in which something is
computed: plain results, traced computations, and those with a state.
-/
import DeclLint.Proofs.Result
import DeclLint.Proofs.Trace

/-! ### Results -/

namespace Except

variable {ε ε' α β : Type} {P : ε → Prop}

/-- Whatever error the result is has the property. -/
def FailsWithin (P : ε → Prop) (r : Except ε α) : Prop :=
  ∀ e, r = .error e → P e

theorem failsWithin_ok (a : α) : FailsWithin P (.ok a) :=
  fun _ h => nomatch h

theorem failsWithin_error {e : ε} (h : P e) : FailsWithin P (.error e : Except ε α) := by
  intro e' he
  obtain rfl := Except.error.inj he
  exact h

theorem FailsWithin.bind {r : Except ε α} {f : α → Except ε β} (hr : FailsWithin P r)
    (hf : ∀ a, r = .ok a → FailsWithin P (f a)) : FailsWithin P (r >>= f) := by
  cases r with
  | error e => exact failsWithin_error (hr e rfl)
  | ok a => exact hf a rfl

theorem FailsWithin.map {r : Except ε α} (h : FailsWithin P r) (f : α → β) :
    FailsWithin P (r.map f) := by
  cases r with
  | error e => exact failsWithin_error (h e rfl)
  | ok a => exact failsWithin_ok (f a)

theorem failsWithin_mapError {Q : ε' → Prop} {r : Except ε α} {f : ε → ε'}
    (h : ∀ e, r = .error e → Q (f e)) : FailsWithin Q (r.mapError f) := by
  cases r with
  | error e => exact failsWithin_error (h e rfl)
  | ok a => exact failsWithin_ok a

theorem failsWithin_mapM {f : α → Except ε β} {as : List α}
    (h : ∀ a ∈ as, FailsWithin P (f a)) : FailsWithin P (as.mapM f) := by
  induction as with
  | nil => exact failsWithin_ok []
  | cons a as ih =>
    obtain ⟨ha, has⟩ := List.forall_mem_cons.mp h
    rw [List.mapM_cons]
    exact ha.bind fun b _ => (ih has).bind fun bs _ => failsWithin_ok (b :: bs)

end Except

namespace DeclLint

variable {σ τ α β : Type} {P : LintError → Prop}

/-! ### Traced computations -/

namespace Traced

/-- Whatever error the computation ends in has the property. -/
def FailsWithin (P : LintError → Prop) (x : Traced α) : Prop :=
  x.result.FailsWithin P

theorem failsWithin_pure (a : α) : FailsWithin P (Pure.pure a : Traced α) :=
  Except.failsWithin_ok a

theorem failsWithin_fail {e : LintError} (h : P e) : FailsWithin P (fail e : Traced α) :=
  Except.failsWithin_error h

theorem failsWithin_log (level : Level) (component : Component) (text : String) :
    FailsWithin P (log level component text) :=
  Except.failsWithin_ok ()

theorem failsWithin_emit (event : Event) : FailsWithin P (emit event) :=
  Except.failsWithin_ok ()

theorem failsWithin_ofExcept {r : Except LintError α} (h : r.FailsWithin P) :
    FailsWithin P (ofExcept r) :=
  h

theorem FailsWithin.bind {x : Traced α} {f : α → Traced β} (hx : FailsWithin P x)
    (hf : ∀ a, x.result = .ok a → FailsWithin P (f a)) : FailsWithin P (x >>= f) := by
  obtain ⟨es, r⟩ := x
  cases r with
  | error e => exact Except.failsWithin_error (hx e rfl)
  | ok a => exact hf a rfl

theorem failsWithin_foldlM {f : β → α → Traced β} {as : List α}
    (h : ∀ b, ∀ a ∈ as, FailsWithin P (f b a)) (b : β) : FailsWithin P (as.foldlM f b) := by
  induction as generalizing b with
  | nil => exact failsWithin_pure b
  | cons a as ih =>
    rw [List.foldlM_cons]
    exact (h b a List.mem_cons_self).bind fun b' _ =>
      ih (fun c d hd => h c d (List.mem_cons_of_mem a hd)) b'

theorem failsWithin_untilSome {xs : List (Traced (Option α))} (h : ∀ x ∈ xs, FailsWithin P x) :
    FailsWithin P (untilSome xs) := by
  induction xs with
  | nil => exact failsWithin_pure none
  | cons x xs ih =>
    obtain ⟨hx, hxs⟩ := List.forall_mem_cons.mp h
    refine hx.bind fun found _ => ?_
    cases found with
    | some a => exact failsWithin_pure (some a)
    | none => exact ih hxs

end Traced

/-! ### Computations with a state -/

namespace Run

/-- Whatever error the computation ends in, from any state on, has the property. -/
def FailsWithin (P : LintError → Prop) (x : Run σ α) : Prop :=
  ∀ s, (x.run s).1.FailsWithin P

theorem failsWithin_pure (a : α) : FailsWithin P (Pure.pure a : Run σ α) :=
  fun _ => Except.failsWithin_ok a

theorem failsWithin_lift {t : Traced α} (h : t.FailsWithin P) :
    FailsWithin P (lift t : Run σ α) :=
  fun _ => h

theorem failsWithin_get : FailsWithin P (get : Run σ σ) :=
  fun s => Except.failsWithin_ok s

theorem failsWithin_modify (f : σ → σ) : FailsWithin P (modify f) :=
  fun _ => Except.failsWithin_ok ()

theorem FailsWithin.bind {x : Run σ α} {f : α → Run σ β} (hx : FailsWithin P x)
    (hf : ∀ a, FailsWithin P (f a)) : FailsWithin P (x >>= f) := by
  intro s
  rcases h : x.run s with ⟨⟨es, r⟩, s'⟩
  cases r with
  | error e =>
    rw [run_bind_error h]
    have hs := hx s
    rw [h] at hs
    exact Except.failsWithin_error (hs e rfl)
  | ok a =>
    rw [run_bind_ok h]
    exact hf a s'

theorem FailsWithin.zoom {x : Run σ α} (h : FailsWithin P x) (view : τ → σ) (set : σ → τ → τ) :
    FailsWithin P (x.zoom view set) :=
  fun t => h (view t)

theorem failsWithin_mapM {f : α → Run σ β} (h : ∀ a, FailsWithin P (f a)) (as : List α) :
    FailsWithin P (as.mapM f) := by
  induction as with
  | nil => exact failsWithin_pure []
  | cons a as ih =>
    rw [List.mapM_cons]
    exact (h a).bind fun b => ih.bind fun bs => failsWithin_pure (b :: bs)

theorem failsWithin_forM {f : α → Run σ Unit} (h : ∀ a, FailsWithin P (f a)) (as : List α) :
    FailsWithin P (as.forM f) := by
  induction as with
  | nil => exact failsWithin_pure ()
  | cons a as ih =>
    show FailsWithin P (f a >>= fun _ => as.forM f)
    exact (h a).bind fun _ => ih

theorem FailsWithin.startingAt {x : Run σ α} (h : FailsWithin P x) (s : σ) :
    (x.startingAt s).FailsWithin P :=
  Except.FailsWithin.map (h s) _

end Run

end DeclLint
