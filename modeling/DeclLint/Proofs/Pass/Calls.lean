/-
DeclLint/Proofs/Pass/Calls.lean

The calls that a pass makes to its engine.  Any engine can be given a note of the
calls made to it (`noting`).  The note is a part of the state that nothing reads, so
the pass does the same with it and without it (`covers_noting`), whatever the engine
does with a file, and what stands in the note at the end are the calls of the pass
(`callsOf`).

A pass that gets through has called its engine once for each file that is not left
to another pass, in the order of the program (`callsOf_eq`).
-/
import DeclLint.Proofs.Pass.Reference

namespace DeclLint.Pass

variable {σ τ : Type} {isLatest : Bool} {root : Path}

/-! ### Engines with a note -/

/-- A computation on the first of two parts of a state. -/
def onFirst {κ α : Type} (x : Run σ α) : Run (σ × κ) α :=
  x.zoom Prod.fst fun e s => (e, s.2)

/-- An engine with a note of the calls that are made to it. -/
def noting (runner : Runner σ) : Runner (σ × List (LintConfig × SourceFile)) where
  lint config file := do
    Run.modify fun s => (s.1, s.2 ++ [(config, file)])
    onFirst (runner.lint config file)
  result := onFirst runner.result

/-- The calls that a pass makes to its engine, in order, as a note beside the engine tells them. -/
def callsOf (runner : Runner σ) (config : LintConfig) (isLatest : Bool) (root : Path) (p : Program)
    (e : σ) : List (LintConfig × SourceFile) :=
  ((lintProgramWith (noting runner) config isLatest root p).run (e, [])).2.2

theorem covers_onFirst {κ α : Type} (x : Run σ α) :
    Run.Covers Prod.fst (onFirst x : Run (σ × κ) α) x :=
  Run.covers_zoom (fun _ _ => rfl) x

theorem covers_noting_lint (runner : Runner σ) (config : LintConfig) (file : SourceFile) :
    Run.Covers Prod.fst ((noting runner).lint config file) (runner.lint config file) :=
  (covers_onFirst _).behind_modify fun _ => rfl

theorem run_onFirst_eq_ok_iff {κ α : Type} {x : Run σ α} {s s' : σ × κ} {es : List Event} {a : α} :
    (onFirst x).run s = (⟨es, .ok a⟩, s') ↔
      ∃ e, x.run s.1 = (⟨es, .ok a⟩, e) ∧ s' = (e, s.2) :=
  Run.run_zoom_eq_ok_iff

/-! ### Passes over a part of the state -/

/-- The state of a pass with the part of its engine that is read by `view`. -/
def State.viewing (view : τ → σ) (s : State τ) : State σ :=
  ⟨view s.engine, s.counts⟩

section Covers

open Run (Covers)

variable {view : τ → σ} {lintFile : SourceFile → Run τ Unit} {lintPart : SourceFile → Run σ Unit}

theorem covers_count (k : Counter) : Covers (State.viewing view) (count k) (count k) :=
  Run.covers_modify fun _ => rfl

theorem covers_checkDirectives (file : SourceFile) :
    Covers (State.viewing view) (checkDirectives file) (checkDirectives file) := by
  unfold checkDirectives
  split
  · exact (covers_count _).bind fun _ => Run.covers_pure _
  · refine (covers_count _).bind fun _ => ?_
    split
    · exact Run.covers_pure _
    · exact (Run.covers_lift _).bind fun _ => Run.covers_pure _

theorem covers_onEngine {α : Type} {x : Run τ α} {y : Run σ α} (h : Covers view x y) :
    Covers (State.viewing view) (onEngine x) (onEngine y) := by
  intro s
  simp only [onEngine, Run.zoom, State.viewing, h s.engine]

theorem covers_applyRules (h : ∀ file, Covers view (lintFile file) (lintPart file))
    (file : SourceFile) :
    Covers (State.viewing view) (applyRules lintFile isLatest root file)
      (applyRules lintPart isLatest root file) := by
  unfold applyRules
  split
  · exact (covers_count _).bind fun _ => Run.covers_lift _
  · exact (covers_onEngine (h file)).bind fun _ => covers_count _

theorem covers_visit (h : ∀ file, Covers view (lintFile file) (lintPart file))
    (files : List SourceFile) :
    Covers (State.viewing view) (visit lintFile isLatest root files)
      (visit lintPart isLatest root files) := by
  induction files with
  | nil => exact Run.covers_pure _
  | cons file files ih =>
    refine (covers_checkDirectives file).bind fun found => ?_
    cases found with
    | some report => exact Run.covers_pure _
    | none => exact (covers_applyRules h file).bind fun _ => ih

theorem covers_countingFrom {α : Type} {x : Run (State τ) α} {y : Run (State σ) α}
    (h : Covers (State.viewing view) x y) (counts : Counts) :
    Covers view (countingFrom counts x) (countingFrom counts y) := by
  intro e
  have hy : y.run ⟨view e, counts⟩ = _ := h ⟨e, counts⟩
  simp only [countingFrom, hy, State.viewing]

end Covers

/-! ### The calls of a pass -/

variable {runner : Runner σ} {config : LintConfig} {p : Program} {e : σ}

/-- **A note of the calls changes nothing else**: the pass ends in the same way, does the same until
then and leaves its engine in the same state. -/
theorem covers_noting (runner : Runner σ) (config : LintConfig) (isLatest : Bool) (root : Path)
    (p : Program) :
    Run.Covers Prod.fst (lintProgramWith (noting runner) config isLatest root p)
      (lintProgramWith runner config isLatest root p) := by
  have hvisit : Run.Covers (State.viewing Prod.fst)
      (visit ((noting runner).lint config) isLatest root (ownFiles p))
      (visit (runner.lint config) isLatest root (ownFiles p)) :=
    covers_visit (covers_noting_lint runner config) (ownFiles p)
  refine (covers_countingFrom hvisit _).bind fun r => ?_
  rcases r with ⟨banned, counts⟩
  cases banned with
  | some report => exact Run.covers_pure _
  | none =>
    refine (covers_onFirst _).bind fun result => ?_
    exact (Run.covers_lift _).bind fun _ => Run.covers_pure _

/-- Applying the rules to one file after the other notes these files. -/
theorem noted_forM {files : List SourceFile} {s s' : σ × List (LintConfig × SourceFile)}
    {es : List Event} {u : Unit}
    (h : (files.forM ((noting runner).lint config)).run s = (⟨es, .ok u⟩, s')) :
    s'.2 = s.2 ++ files.map (config, ·) := by
  induction files generalizing s es with
  | nil =>
    obtain ⟨-, rfl, -⟩ := Run.run_pure_eq_ok_iff.mp h
    exact (List.append_nil _).symm
  | cons file files ih =>
    obtain ⟨es₁, u₁, s₁, es₂, hfile, hrest, -⟩ := Run.run_bind_eq_ok_iff.mp h
    obtain ⟨es₃, u₃, s₃, es₄, hnote, hlint, -⟩ := Run.run_bind_eq_ok_iff.mp hfile
    obtain ⟨rfl, -⟩ := Run.run_modify_eq_ok_iff.mp hnote
    obtain ⟨e₁, -, rfl⟩ := run_onFirst_eq_ok_iff.mp hlint
    rw [ih hrest, List.append_assoc]
    rfl

/-- **The calls of a pass that gets through**: one for each file that is not left out, in order. -/
theorem callsOf_eq (hbanned : bannedReport? (ownFiles p) = none)
    (hok : ∃ report, ((lintProgramWith runner config isLatest root p).run e).1.result = .ok report) :
    callsOf runner config isLatest root p e =
      (linted isLatest root (ownFiles p)).map (config, ·) := by
  obtain ⟨report, hok⟩ := hok
  rw [covers_noting runner config isLatest root p (e, [])] at hok
  -- with the note the engine is still an engine, so the pass agrees with its reference
  have hagrees := agrees_lintProgramWith (noting runner) config isLatest root p (e, [])
  rw [callsOf, hagrees.state]
  rw [hagrees.result] at hok
  rcases h : (reference (noting runner) config isLatest root (ownFiles p)).run (e, [])
    with ⟨⟨es, r⟩, s'⟩
  rw [h] at hok
  obtain rfl : r = .ok report := hok
  rw [reference, received, examined_of_bannedReport? hbanned, hbanned] at h
  obtain ⟨es₁, u, s₁, es₂, hforM, hrest, -⟩ := Run.run_bind_eq_ok_iff.mp h
  obtain ⟨es₃, result, s₃, es₄, hresult, hpure, -⟩ := Run.run_bind_eq_ok_iff.mp hrest
  obtain ⟨-, rfl, -⟩ := Run.run_pure_eq_ok_iff.mp hpure
  obtain ⟨e₁, -, rfl⟩ := run_onFirst_eq_ok_iff.mp hresult
  exact noted_forM hforM

end DeclLint.Pass
