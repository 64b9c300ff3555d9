/-
DeclLint/Trace.lean

Computations that leave a trace.  A step of the linter either gives a result
or ends in an error, and on the way it logs and starts compilers; what it did
before an error stays done.  `Traced` is a step without a state, `Run` one
that carries a state along, and keeps the changes made before an error too.
-/
import DeclLint.Error
import DeclLint.Log

namespace DeclLint

/-- A start of a compiler: the script that is run and the project that it checks. -/
structure CompilerStart where
  script : Path
  project : Path
deriving DecidableEq, Repr

namespace CompilerStart

/-- The words of the command. -/
def command (s : CompilerStart) : List String :=
  ["node", s.script.toString, "--noEmit", "--pretty", "false", "--project", s.project.toString]

/-- The directory that the command is run in. -/
def directory (s : CompilerStart) : Path :=
  s.project.parent

end CompilerStart

/-- Something that a computation did. -/
inductive Event where
  | logged (record : LogRecord)
  | started (start : CompilerStart)
deriving DecidableEq, Repr

namespace Event

/-- The log records among events. -/
def records (es : List Event) : List LogRecord :=
  es.filterMap fun
    | .logged r => some r
    | .started _ => none

/-- The compiler starts among events. -/
def starts (es : List Event) : List CompilerStart :=
  es.filterMap fun
    | .logged _ => none
    | .started s => some s

@[simp] theorem records_append (es fs : List Event) :
    records (es ++ fs) = records es ++ records fs := by
  simp [records]

@[simp] theorem starts_append (es fs : List Event) :
    starts (es ++ fs) = starts es ++ starts fs := by
  simp [starts]

end Event

/-- What a computation did, and its result or the error that ended it. -/
structure Traced (α : Type) where
  events : List Event
  result : Except LintError α

namespace Traced

variable {α β : Type}

/-- A result without any event. -/
def pure (a : α) : Traced α :=
  ⟨[], .ok a⟩

/-- Goes on after a result; after an error nothing more happens. -/
def bind (x : Traced α) (f : α → Traced β) : Traced β :=
  match x.result with
  | .ok a => ⟨x.events ++ (f a).events, (f a).result⟩
  | .error e => ⟨x.events, .error e⟩

instance : Monad Traced where
  pure := pure
  bind := bind

/-- Ends with an error. -/
def fail (e : LintError) : Traced α :=
  ⟨[], .error e⟩

/-- A result that was found without any event. -/
def ofExcept (r : Except LintError α) : Traced α :=
  ⟨[], r⟩

/-- A single event. -/
def emit (e : Event) : Traced Unit :=
  ⟨[e], .ok ()⟩

/-- A log record. -/
def log (level : Level) (component : Component) (text : String) : Traced Unit :=
  emit (.logged ⟨level, component.logger, text⟩)

/-- The log records of a computation. -/
def records (x : Traced α) : List LogRecord :=
  Event.records x.events

/-- The compiler starts of a computation. -/
def starts (x : Traced α) : List CompilerStart :=
  Event.starts x.events

@[simp] theorem pure_eq (a : α) : (Pure.pure a : Traced α) = ⟨[], .ok a⟩ := rfl

@[simp] theorem bind_ok (es : List Event) (a : α) (f : α → Traced β) :
    ((⟨es, .ok a⟩ : Traced α) >>= f) = ⟨es ++ (f a).events, (f a).result⟩ := rfl

@[simp] theorem bind_error (es : List Event) (e : LintError) (f : α → Traced β) :
    ((⟨es, .error e⟩ : Traced α) >>= f) = ⟨es, .error e⟩ := rfl

end Traced

/-- A computation that carries a state of type `σ`. -/
structure Run (σ α : Type) where
  run : σ → Traced α × σ

namespace Run

variable {σ τ α β : Type}

/-- A result that leaves the state alone. -/
def pure (a : α) : Run σ α :=
  ⟨fun s => (Traced.pure a, s)⟩

/-- Goes on after a result, with the state left behind; after an error nothing more happens. -/
def bind (x : Run σ α) (f : α → Run σ β) : Run σ β :=
  ⟨fun s =>
    let (t, s₁) := x.run s
    match t.result with
    | .ok a =>
      let (u, s₂) := (f a).run s₁
      (⟨t.events ++ u.events, u.result⟩, s₂)
    | .error e => (⟨t.events, .error e⟩, s₁)⟩

instance : Monad (Run σ) where
  pure := pure
  bind := bind

/-- A computation without a state. -/
def lift (t : Traced α) : Run σ α :=
  ⟨fun s => (t, s)⟩

instance : MonadLift Traced (Run σ) where
  monadLift := lift

/-- The state. -/
def get : Run σ σ :=
  ⟨fun s => (Traced.pure s, s)⟩

/-- Changes the state. -/
def modify (f : σ → σ) : Run σ Unit :=
  ⟨fun s => (Traced.pure (), f s)⟩

/-- A computation on a part of the state, which is read by `view` and put back by `set`. -/
def zoom (view : τ → σ) (set : σ → τ → τ) (x : Run σ α) : Run τ α :=
  ⟨fun t =>
    let (r, s) := x.run (view t)
    (r, set s t)⟩

/-- The computation from a given state on: its result together with the state left behind. -/
def startingAt (x : Run σ α) (s : σ) : Traced (α × σ) :=
  let (t, s₁) := x.run s
  ⟨t.events, t.result.map fun a => (a, s₁)⟩

end Run

end DeclLint
