/-
DeclLint/Rule/Expect.lean

The rule `expect`: the project compiles with every compiler it is tested
with, except on lines that a comment expects an error on, and those lines do
have an error.  Each compiler is run once for a project and its diagnostics
are kept; diagnostics about the project as a whole are reported once, on the
first file.
-/
import DeclLint.Compiler.Start
import DeclLint.Config.Active
import DeclLint.Rule.Basic

namespace DeclLint.Expect

/-! ### Expected errors -/

/-- The text starts with a comment that expects an error. -/
def startsExpectation (cs : List Char) : Bool :=
  match Text.afterPrefix? "//".toList cs with
  | some rest => "$ExpectError".toList.isPrefixOf (rest.dropWhile Text.isBlank)
  | none => false

/-- The line that the comment on line `index` speaks of: the next one, if the comment stands
alone, else its own. -/
def expectedLine? (index : Nat) (line : List Char) : Option Nat :=
  (Text.firstSuffix? startsExpectation line).map fun start =>
    if Text.allBlank (line.take start) then index + 1 else index

/-- The lines that an error is expected on, where the first line has the given index. -/
def expectedFrom (index : Nat) : List (List Char) → List Nat
  | [] => []
  | l :: ls =>
    match expectedLine? index l with
    | some n => n :: expectedFrom (index + 1) ls
    | none => expectedFrom (index + 1) ls

/-- The lines that an error is expected on, in ascending order. -/
def expectedLines (cs : List Char) : List Nat :=
  (expectedFrom 0 (Text.newlinePieces cs)).eraseDups

/-! ### Diagnostics of a compiler -/

/-- What the diagnostics of a compiler are kept under: the project and the install. -/
abbrev Key := Path × String

/-- What the rule remembers: the diagnostics of the compilers that have run, and whose diagnostics
about the whole project are reported. -/
structure Memo where
  diagnostics : Table Key (List Diagnostic)
  reported : List Key
deriving DecidableEq, Repr

/-- Nothing has run yet. -/
def Memo.empty : Memo :=
  ⟨[], []⟩

/-- The diagnostics of a compiler, which is run unless it has run before. -/
def diagnosticsOf (w : Workspace) (compiler : Compiler) (project : Path) (v : VersionToTest) :
    Run Memo (List Diagnostic) := do
  let memo ← Run.get
  match memo.diagnostics.get? (project, v.path) with
  | some ds => return ds
  | none =>
    Traced.log .info .expectRule
      ("Type-checking " ++ project.toString ++ " with TypeScript " ++ v.versionName)
    let output ← compiler.check w v.path project
    let ds ← Traced.ofExcept ((Diagnostic.read project.parent output).mapError .excess)
    Run.modify fun m => { m with diagnostics := m.diagnostics.put (project, v.path) ds }
    return ds

/-- Marks the diagnostics about the whole project as reported, and tells whether they had not
been before. -/
def firstReport (key : Key) : Run Memo Bool := do
  let memo ← Run.get
  if key ∈ memo.reported then return false
  else
    Run.modify fun m => { m with reported := m.reported ++ [key] }
    return true

/-! ### Failures -/

/-- The name of a compiler in messages. -/
def label (v : VersionToTest) : String :=
  "TypeScript@" ++ v.versionName

/-- A failure of the rule. -/
def failure (file : SourceFile) (line character : Int) (message : String) : Failure :=
  ⟨file.name, Config.expectRule, Severity.error.name, line, character, message⟩

/-- The failure that reports a compile error. -/
def compileError (file : SourceFile) (v : VersionToTest) (line character : Int) (d : Diagnostic) :
    Failure :=
  failure file line character (label v ++ " compile error: \n" ++ d.message)

/-- The failure that reports a missing error. -/
def missingError (file : SourceFile) (v : VersionToTest) (line : Nat) : Failure :=
  failure file line 0 (label v ++ ": Expected an error on this line, but found none.")

/-- The failures about the project as a whole. -/
def projectFailures (file : SourceFile) (v : VersionToTest) (ds : List Diagnostic) :
    List Failure :=
  (ds.filter (·.file.isNone)).map (compileError file v 0 0)

/-- The diagnostics that are about a file. -/
def diagnosticsIn (file : SourceFile) (ds : List Diagnostic) : List Diagnostic :=
  ds.filter fun d => d.file = some (Path.normalForm file.name)

/-- The line is one that an error is expected on. -/
def isExpected (file : SourceFile) (line : Int) : Bool :=
  (expectedLines file.text.toList).any fun n => (n : Int) = line

/-- The failures for errors that nothing expects. -/
def unexpectedFailures (file : SourceFile) (v : VersionToTest) (ds : List Diagnostic) :
    List Failure :=
  ((diagnosticsIn file ds).filter fun d => !isExpected file d.line).map fun d =>
    compileError file v d.line d.character d

/-- The failures for expected errors that are missing. -/
def missingFailures (file : SourceFile) (v : VersionToTest) (ds : List Diagnostic) :
    List Failure :=
  let cs := file.text.toList
  let errorLines := (diagnosticsIn file ds).map (·.line)
  ((expectedLines cs).filter fun (n : Nat) =>
    !errorLines.contains (n : Int) && decide (n < (Text.newlinePieces cs).length)).map
      (missingError file v)

/-- The failures in a file under one compiler. -/
def applyVersion (w : Workspace) (compiler : Compiler) (project : Path) (file : SourceFile)
    (v : VersionToTest) : Run Memo (List Failure) := do
  let ds ← diagnosticsOf w compiler project v
  let first ← firstReport (project, v.path)
  return (if first then projectFailures file v ds else []) ++
    (unexpectedFailures file v ds ++ missingFailures file v ds)

/-- The rule. -/
def rule (w : Workspace) (compiler : Compiler) : Rule Memo := fun file arguments => do
  let options ← Traced.ofExcept (ExpectOptions.ofArguments arguments)
  let project := Path.ofString options.tsconfigPath
  let failures ← options.versionsToTest.mapM (applyVersion w compiler project file)
  return failures.flatten

end DeclLint.Expect
