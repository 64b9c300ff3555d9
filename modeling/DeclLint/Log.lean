/-
DeclLint/Log.lean

Log records and the choice of what is shown.  Records come from the parts of
the linter, each with a name below the common one.  A threshold hides what
ranks below it; a threshold below warnings also shows where records come from.
-/
import DeclLint.Table
import DeclLint.Text.Blank
import DeclLint.Text.Upper
import DeclLint.Text.Search

namespace DeclLint

/-- How important a record is. -/
inductive Level where
  | debug
  | info
  | warning
  | error
  | critical
deriving DecidableEq, Repr

namespace Level

/-- The rank of a level. -/
def rank : Level → Nat
  | .debug => 10
  | .info => 20
  | .warning => 30
  | .error => 40
  | .critical => 50

/-- The name of a level. -/
def name : Level → String
  | .debug => "DEBUG"
  | .info => "INFO"
  | .warning => "WARNING"
  | .error => "ERROR"
  | .critical => "CRITICAL"

/-- All levels, the least important first. -/
def all : List Level := [.debug, .info, .warning, .error, .critical]

/-- The level that a name in upper case stands for; two levels have a second name. -/
def ofName? (s : String) : Option Level :=
  if s = "WARN" then some .warning
  else if s = "FATAL" then some .critical
  else all.find? (·.name = s)

end Level

/-- The parts of the linter that log. -/
inductive Component where
  | configFiles
  | activeConfig
  | sourceReader
  | program
  | engine
  | expectRule
  | passes
  | commandLine
deriving DecidableEq, Repr

/-- The name that all parts share. -/
def rootLogger : String := "dts_lint"

/-- The name of a logger, below the common one. -/
def loggerName (name : String) : String :=
  if name = rootLogger || (rootLogger ++ ".").toList.isPrefixOf name.toList then name
  else rootLogger ++ "." ++ name

/-- The name that the records of a part carry. -/
def Component.logger : Component → String
  | .configFiles => "dts_lint.config"
  | .activeConfig => "dts_lint.config_resolver"
  | .sourceReader => "dts_lint.file_reader"
  | .program => "dts_lint.program"
  | .engine => "dts_lint.engine"
  | .expectRule => "dts_lint.rules.expect"
  | .passes => "dts_lint.orchestrator"
  | .commandLine => "dts_lint.cli"

/-- A log record. -/
structure LogRecord where
  level : Level
  logger : String
  text : String
deriving DecidableEq, Repr

/-- The environment variable that sets the threshold. -/
def levelVariable : String := "DTS_LINT_LOG_LEVEL"

/-- The threshold that the value of the variable names, whatever its case. -/
def levelOfVariable? (value : String) : Option Level :=
  Level.ofName? (String.ofList (Text.upper (Text.strip value.toList)))

/-- The threshold of a run: the variable first, then the flags, of which `quiet` is stronger. -/
def threshold (verbose quiet : Bool) (environment : Table String String) : Level :=
  match (environment.get? levelVariable).bind levelOfVariable? with
  | some level => level
  | none => if quiet then .error else if verbose then .info else .warning

namespace LogRecord

/-- The record is important enough to be shown. -/
def isShown (least : Level) (r : LogRecord) : Bool :=
  decide (least.rank ≤ r.level.rank)

/-- The line that shows a record under a threshold. -/
def line (least : Level) (r : LogRecord) : String :=
  if least.rank < Level.warning.rank then
    r.level.name ++ " [" ++ r.logger ++ "] " ++ r.text ++ "\n"
  else r.level.name ++ ": " ++ r.text ++ "\n"

/-- What is shown of several records. -/
def render (least : Level) (rs : List LogRecord) : String :=
  String.join ((rs.filter (·.isShown least)).map (·.line least))

end LogRecord

end DeclLint
