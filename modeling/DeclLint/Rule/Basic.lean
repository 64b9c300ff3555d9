/-
DeclLint/Rule/Basic.lean

Rules and the failures they report.  A rule looks at one file at a time and
may keep a state from file to file; a registry maps names to rules that
share one state.
-/
import DeclLint.Config.Rule
import DeclLint.Project.Program
import DeclLint.Text.Position
import DeclLint.Trace

namespace DeclLint

/-- A failure of a rule at a place in a file.  Positions count from zero. -/
structure Failure where
  file : String
  rule : String
  severity : String
  line : Int
  character : Int
  message : String
deriving DecidableEq, Repr

/-- A failure at an offset of the text of a file. -/
def Failure.at (file : SourceFile) (rule : String) (offset : Nat) (message : String) : Failure :=
  let p := Text.position file.text.toList offset
  ⟨file.name, rule, Severity.error.name, p.line, p.character, message⟩

/-- A rule with a state of type `σ`: the failures in a file. -/
abbrev Rule (σ : Type) := SourceFile → List RuleArgument → Run σ (List Failure)

/-- The rules that are implemented, by their names. -/
abbrev Registry (σ : Type) := String → Option (Rule σ)

/-- A rule that keeps no state and cannot fail. -/
def Rule.ofFunction {σ : Type} (f : SourceFile → List Failure) : Rule σ :=
  fun file _ => Run.pure (f file)

end DeclLint
