/-
DeclLint/Engine.lean

Applying the rules of a configuration to files.  Rules that are off are left
alone, rules that are not implemented are warned about once.  The failures of
a rule take the severity of its setting and are collected file by file; an
error in a rule keeps what was collected before.
-/
import DeclLint.Report
import DeclLint.Rule.DeadReference
import DeclLint.Rule.Expect
import DeclLint.Rule.TrimFile

namespace DeclLint

/-- What the engine carries from file to file: the failures, the names of rules that were warned
about, and the state of the rules. -/
structure Engine (σ : Type) where
  failures : List Failure
  unknown : List LooseText
  rules : σ
deriving Repr

namespace Engine

variable {σ : Type}

/-- Nothing is collected yet. -/
def start (rules : σ) : Engine σ :=
  ⟨[], [], rules⟩

/-- Runs a rule on its own part of the state. -/
def onRules {α : Type} (x : Run σ α) : Run (Engine σ) α :=
  x.zoom Engine.rules fun s e => { e with rules := s }

/-- Adds failures with a severity. -/
def record (severity : Severity) (fs : List Failure) : Run (Engine σ) Unit :=
  Run.modify fun e =>
    { e with failures := e.failures ++ fs.map fun f => { f with severity := severity.name } }

/-- Warns about a rule that is not implemented, the first time. -/
def warnUnknown (name : LooseText) : Run (Engine σ) Unit := do
  let e ← Run.get
  if name ∈ e.unknown then return ()
  else
    Run.modify fun e => { e with unknown := e.unknown ++ [name] }
    Traced.log .warning .engine
      ("No implementation found for rule '" ++ name.escaped ++ "', skipping it")

/-- Applies one rule of a configuration to a file. -/
def applyRule (registry : Registry σ) (file : SourceFile) (name : LooseText)
    (setting : RuleSetting) : Run (Engine σ) Unit :=
  if setting.isEnabled then
    match name.toString?.bind registry with
    | none => warnUnknown name
    | some rule => do
      let fs ← onRules (rule file setting.arguments)
      record setting.severity fs
  else return ()

/-- Applies the rules of a configuration to a file. -/
def lint (registry : Registry σ) (rules : RuleTable) (file : SourceFile) :
    Run (Engine σ) Unit :=
  rules.forM fun e => applyRule registry file e.1 e.2

/-- The number of failures that are errors. -/
def errorCount (e : Engine σ) : Nat :=
  Report.countOf .error e.failures

/-- The number of failures that are warnings. -/
def warningCount (e : Engine σ) : Nat :=
  Report.countOf .warning e.failures

end Engine

/-- The rules that come with the linter. -/
def builtinRules (w : Workspace) (compiler : Compiler) : Registry Expect.Memo := fun name =>
  if name = Config.expectRule then some (Expect.rule w compiler)
  else if name = DeadReference.name then some (Rule.ofFunction DeadReference.failures)
  else if name = TrimFile.name then some (Rule.ofFunction TrimFile.failures)
  else none

end DeclLint
