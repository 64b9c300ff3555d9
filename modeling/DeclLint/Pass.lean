/-
DeclLint/Pass.lean

A lint pass over one project.  Files of the compiler's library are left out.
Every other file is looked at in program order: unless it belongs to a
dependency, a banned directive in it ends the pass with a report of its own;
then the rules are applied, except that a pass for the newest compilers
leaves the files of version folders to the passes of those folders.  The
report of a pass that gets through shows the failures of the rules.
-/
import DeclLint.Directive
import DeclLint.Engine
import DeclLint.Metrics
import DeclLint.Path.Role

namespace DeclLint

/-- What a run does not compute itself: the files and settings that it sees, and the compilers. -/
structure Host where
  workspace : Workspace
  compiler : Compiler

/-- What a pass is told. -/
structure PassOptions where
  /-- The directory of the project. -/
  directory : Path
  /-- The oldest release to test with. -/
  low : VersionArg
  /-- The newest release to test with. -/
  high : VersionArg
  /-- The pass is the one for the newest releases. -/
  isLatest : Bool
  /-- Only the compile check is wanted. -/
  expectOnly : Bool
  /-- The directory of a local build of the compiler. -/
  localBuild : Option String
  /-- The name of the report's format. -/
  format : String
  /-- A program to use in place of the one that the project describes. -/
  program : Option Program

namespace Pass

variable {σ : Type}

/-- What a pass carries from file to file: the state of its engine, and its counts. -/
structure State (σ : Type) where
  engine : σ
  counts : Counts

/-- Adds one to a counter. -/
def count (k : Counter) : Run (State σ) Unit :=
  Run.modify fun s => { s with counts := s.counts.add k 1 }

/-- Runs the engine on its own part of the state. -/
def onEngine {α : Type} (x : Run σ α) : Run (State σ) α :=
  x.zoom State.engine fun e s => { s with engine := e }

/-- The report of a banned directive in a file. -/
def directiveReport (file : SourceFile) (o : Directive.Occurrence) : String :=
  let p := Text.position file.text.toList o.offset
  Report.directiveLine file.name p.line p.character o.directive.message

/-- Looks for a banned directive in a file that belongs to no dependency: its report. -/
def checkDirectives (file : SourceFile) : Run (State σ) (Option String) :=
  if Path.isDependency file.name then do
    count .dependencyFiles
    return none
  else do
    count .filesScanned
    match Directive.scan file.text.toList with
    | none => return none
    | some o =>
      Traced.log .info .passes ("Banned directive in " ++ file.name ++ ", stopping")
      return some (directiveReport file o)

/-- The file is left to the pass of its version folder. -/
def isLeftOut (isLatest : Bool) (root : Path) (file : SourceFile) : Bool :=
  isLatest && Path.isVersionPinned file.name root.toString

/-- Applies the rules to a file, unless it is left out. -/
def applyRules (lintFile : SourceFile → Run σ Unit) (isLatest : Bool) (root : Path)
    (file : SourceFile) : Run (State σ) Unit :=
  if isLeftOut isLatest root file then do
    count .pinnedFilesSkipped
    Traced.log .debug .passes ("Skipping " ++ file.name ++ ": belongs to a version-specific pass")
  else do
    onEngine (lintFile file)
    count .filesLinted

/-- Goes through files in order until one holds a banned directive: the report of that. -/
def visit (lintFile : SourceFile → Run σ Unit) (isLatest : Bool) (root : Path) :
    List SourceFile → Run (State σ) (Option String)
  | [] => return none
  | file :: files => do
    match ← checkDirectives file with
    | some report => return some report
    | none =>
      applyRules lintFile isLatest root file
      visit lintFile isLatest root files

/-- The files of a program that are not the compiler's own. -/
def ownFiles (p : Program) : List SourceFile :=
  p.files.filter fun f => !p.isDefaultLibrary f

/-- Counts a file of a program as seen, and as the compiler's own if it is. -/
def countSeen (p : Program) (c : Counts) (file : SourceFile) : Counts :=
  let seen := c.add .filesSeen 1
  if p.isDefaultLibrary file then seen.add .defaultLibraryFiles 1 else seen

/-- The counts of a pass over a program before its first file is visited. -/
def initialCounts (p : Program) : Counts :=
  p.files.foldl (countSeen p) Counts.zero

/-- The report of the failures of a pass: none if there are none. -/
def reportOf (format : Report.Format) (fs : List Failure) : Except LintError (Option String) := do
  let text ← (format.render fs).mapError .excess
  return if fs.isEmpty then none else some text

/-- The format with a given name. -/
def formatOf (name : String) : Except LintError Report.Format :=
  match Report.Format.ofName? name with
  | some f => .ok f
  | none => .error (.argument (.unknownFormat name))

/-- What the log says at the end of a pass.  The times of a pass are not told apart. -/
def finishText (root : Path) (counts : Counts) : String :=
  "Lint pass for " ++ root.toString ++ " finished: " ++
    counts.text (Decimal.Binary64.zero false).text

/-- Goes through a program with the rules of a configuration. -/
def lintProgram (host : Host) (config : LintConfig) (isLatest : Bool) (root : Path)
    (format : Report.Format) (p : Program) : Traced (Option String) := do
  let registry := builtinRules host.workspace host.compiler
  let start := ⟨Engine.start Expect.Memo.empty, initialCounts p⟩
  let lintFile := Engine.lint registry config.rules
  let (banned, s) ← (visit lintFile isLatest root (ownFiles p)).startingAt start
  match banned with
  | some report => return some report
  | none =>
    let report ← Traced.ofExcept (reportOf format s.engine.failures)
    Traced.log .info .passes (finishText root s.counts)
    return report

/-- A lint pass: its report, if there is anything to report. -/
def run (host : Host) (o : PassOptions) : Traced (Option String) := do
  let w := host.workspace
  let root := w.absolute o.directory
  let tsconfig := root.child Project.descriptionFile
  let program ← match o.program with
    | some p => pure p
    | none => Project.build w tsconfig
  let format ← Traced.ofExcept (formatOf o.format)
  let preferred := if o.expectOnly then Config.Bundled.expectOnly.path else Config.projectPath root
  let config ← Config.active w preferred tsconfig o.low o.high o.localBuild
  lintProgram host config o.isLatest root format program

end Pass

end DeclLint
