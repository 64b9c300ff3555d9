/-
DeclLint/Compiler/Start.lean

Starting a compiler on a project.  A compiler is described by what each start
ends in.  Output without a diagnostic and with a failing exit code means that
the compiler itself crashed, which is an error and never a clean result.
-/
import DeclLint.Compiler.Diagnostic
import DeclLint.Trace

namespace DeclLint

/-- How a start of a compiler ends. -/
inductive CompilerOutcome where
  | finished (stdout stderr : String) (code : Int)
  /-- It printed something that is no text, for the given reason. -/
  | garbled (explanation : String)
  | timedOut
  | noLauncher
  /-- The system refused to start it, for the given reason. -/
  | refused (explanation : String)
  | interrupted
deriving DecidableEq, Repr

/-- What each start of a compiler ends in. -/
abbrev Compiler := CompilerStart → CompilerOutcome

namespace Compiler

/-- The script of an install: beside the script of a local build, or in the library directory of
a package. -/
def scriptPath (install : String) : Path :=
  let p := Path.ofString install
  if p.suffix = ".js" then p.withName "tsc.js" else (p.child "lib").child "tsc.js"

/-- What is known about a crash: what was printed as an error, else what was printed at all. -/
def crashDetail (stdout stderr : String) : String :=
  let text := Text.stripString (if stderr = "" then stdout else stderr)
  if text = "" then "no output" else text

/-- The output of a finished compiler, unless it crashed. -/
def outputOf (script : Path) : CompilerOutcome → Except LintError String
  | .garbled explanation => .error (.compiler (.garbled explanation))
  | .timedOut => .error (.compiler .timedOut)
  | .noLauncher => .error (.compiler (.noLauncher script))
  | .refused explanation => .error (.compiler (.refused explanation))
  | .interrupted => .error .interrupted
  | .finished stdout stderr code =>
    if code ≠ 0 ∧ Diagnostic.occursIn stdout = false then
      .error (.compiler (.crashed script code (crashDetail stdout stderr)))
    else .ok stdout

/-- Checks a project with the compiler of an install: the output. -/
def check (compiler : Compiler) (w : Workspace) (install : String) (project : Path) :
    Traced String := do
  let script := scriptPath install
  let start : CompilerStart := ⟨script, project⟩
  let isThere ← Traced.ofExcept (LintError.atPath script (w.isFile script))
  if isThere then
    Traced.log .debug .expectRule ("Running " ++ " ".intercalate start.command)
    Traced.emit (.started start)
    Traced.ofExcept (outputOf script (compiler start))
  else Traced.fail (.compiler (.absent script))

end Compiler

end DeclLint
