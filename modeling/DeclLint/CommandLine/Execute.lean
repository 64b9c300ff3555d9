/-
DeclLint/CommandLine/Execute.lean

What a command does: the exit code and what is printed.  The report goes to
standard output, the log and all explanations to standard error.  The code is
0 for a clean package, 1 for a report, 2 for every error and 130 for an
interrupted run.  A report that cannot be printed is an error too; where even
the explanation of an error cannot be printed, the command breaks down.
-/
import DeclLint.CommandLine.Arguments
import DeclLint.CommandLine.Console
import DeclLint.Package

namespace DeclLint.CommandLine

/-- How a command ends. -/
structure Outcome where
  exitCode : Nat
  stdout : String
  /-- What is printed on standard error, unless a progress bar or a breakdown shows there. -/
  stderr : Option String
deriving DecidableEq, Repr

/-- The name and version that the command prints. -/
def versionLine : String := "dts-lint, version 0.1.0"

/-- How the command is used. -/
def usage : String :=
  "Usage: dts-lint [OPTIONS] [DIRECTORY]" ++
    String.join (Opt.all.map fun o =>
      "\n  " ++ o.word ++ (if o.takesValue then " VALUE" else ""))

/-- The path, as it is written, leads to a file. -/
def leadsToFile (w : Workspace) (s : String) : Bool :=
  let last := String.ofList ((Text.pieces '/' s.toList).getLast?.getD [])
  last ≠ "" && last ≠ "." && (w.isFile (Path.ofString s)).toOption = some true

/-- Checks the arguments and lints the package. -/
def lintPackage (host : Host) (a : Arguments) : Traced (Option String) := do
  let root := Path.ofString a.directory
  let minimum := VersionArg.value (.text a.minVersion)
  Traced.ofExcept (Project.checkRoot host.workspace root)
  Traced.ofExcept (Project.checkLocalBuild host.workspace a.localBuild minimum (.release .latest))
  let report ← Package.lint host
    { directory := root
      minimum := minimum
      onlyNewest := a.onlyNewest
      expectOnly := a.expectOnly
      localBuild := a.localBuild
      format := a.format.name
      program := none }
  if report.isNone then
    Traced.log .info .commandLine ("No lint failures in " ++ root.toString)
  return report

/-! ### Errors -/

/-- The records that an error adds to the log, where one that is not about the input is
unexpected. -/
def unexpectedRecords (isInputError : Bool) : List LogRecord :=
  if isInputError then []
  else [⟨.error, Component.commandLine.logger, "Unexpected error during execution"⟩]

/-- What is printed about an error, after the log. -/
def explanation (isInputError : Bool) (message : String) : String :=
  if isInputError then "Error: " ++ message
  else
    "An unexpected error occurred: " ++ message ++ "\n" ++
      "Run with --verbose for details."

/-- The records that an error adds to the log. -/
def errorRecords : LintError → List LogRecord
  | .interrupted => []
  | e => unexpectedRecords e.isInputError

/-- What is printed about an error of a run. -/
def errorText : LintError → String
  | .interrupted => "\nOperation cancelled by user"
  | e => explanation e.isInputError e.fullMessage

/-- The exit code of an error. -/
def errorCode : LintError → Nat
  | .interrupted => 130
  | _ => 2

namespace PrintFault

/-- A text that cannot be encoded is as bad as any other bad input. -/
def isInputError : PrintFault → Bool
  | unencodable _ => true
  | broken _ => false

/-- The explanation of a fault. -/
def message : PrintFault → String
  | unencodable explanation => explanation
  | broken explanation => explanation

end PrintFault

/-! ### Outcomes -/

/-- The exit code of a command that breaks down. -/
def breakdownCode : Nat := 1

/-- The command ends with an explanation after the log, if that can be printed. -/
def explained (console : Console) (code : Nat) (stdout log text : String) : Outcome :=
  let printed := console.err text
  match printed.fault? with
  | none => ⟨code, stdout, some (log ++ printed.text)⟩
  | some _ => ⟨breakdownCode, stdout, none⟩

/-- The command prints what was asked for in place of a run. -/
def answered (console : Console) (text : String) : Outcome :=
  let printed := console.out text
  match printed.fault? with
  | none => ⟨0, printed.text, some ""⟩
  | some _ => ⟨breakdownCode, printed.text, none⟩

/-- How a run with the given trace ends, under a threshold for the log. -/
def outcomeOf (console : Console) (least : Level) (t : Traced (Option String)) : Outcome :=
  match t.result with
  | .ok report =>
    if Report.exitCode report = 0 then ⟨0, "", some (LogRecord.render least t.records)⟩
    else
      let printed := console.out (report.getD "")
      match printed.fault? with
      | none =>
        ⟨Report.exitCode report, printed.text, some (LogRecord.render least t.records)⟩
      | some fault =>
        explained console 2 printed.text
          (LogRecord.render least (t.records ++ unexpectedRecords fault.isInputError))
          (explanation fault.isInputError fault.message)
  | .error e =>
    explained console (errorCode e) "" (LogRecord.render least (t.records ++ errorRecords e))
      (errorText e)

/-- What is told of standard error: nothing where a progress bar is asked for, which is drawn
there. -/
def Outcome.withProgress (progress : Bool) (o : Outcome) : Outcome :=
  if progress then { o with stderr := none } else o

/-- Carries out a request: how it ends, and what was done on the way. -/
def execute (console : Console) (host : Host) : Request → Outcome × List Event
  | .version => (answered console versionLine, [])
  | .help => (answered console usage, [])
  | .lint a =>
    if a.onlyNewest && (Release.localDirectory? a.localBuild).isSome then
      (explained console 2 "" ""
        "Error: --only-test-ts-next and --local-ts cannot be combined", [])
    else
      let t := lintPackage host a
      let least := threshold a.verbose a.quiet host.workspace.environment
      ((outcomeOf console least t).withProgress a.progress, t.events)

end DeclLint.CommandLine
