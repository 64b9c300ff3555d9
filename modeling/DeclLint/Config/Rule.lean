/-
DeclLint/Config/Rule.lean

Settings of rules.  A rule has a severity and arguments.  In a configuration
file it is written as a truth value, as a list of a truth value and
arguments, or as a table with a severity and options.
-/
import DeclLint.Config.Complaint
import DeclLint.Path.Basic

namespace DeclLint

/-- What becomes of the failures of a rule. -/
inductive Severity where
  | error
  | warning
  | off
deriving DecidableEq, Repr

namespace Severity

/-- The name of a severity. -/
def name : Severity → String
  | .error => "error"
  | .warning => "warning"
  | .off => "off"

/-- The severity with a given name; three severities have a second name. -/
def ofName? (s : String) : Option Severity :=
  if s = "error" || s = "default" then some .error
  else if s = "warning" || s = "warn" then some .warning
  else if s = "off" || s = "none" then some .off
  else none

/-- The severity of a rule that is merely switched on or off. -/
def ofBool (on : Bool) : Severity :=
  if on then .error else .off

end Severity

/-- A compiler that the package is tested with: the name of its version and its install. -/
structure VersionToTest where
  versionName : String
  path : String
deriving DecidableEq, Repr

/-- What the rule that runs compilers is told: the project, and the compilers to test with. -/
structure ExpectOptions where
  tsconfigPath : String
  versionsToTest : List VersionToTest
deriving DecidableEq, Repr

/-- An argument of a rule: a value from a file, or options that the linter fills in. -/
inductive RuleArgument where
  | value (v : Json)
  | expect (options : ExpectOptions)
deriving Repr

/-- The setting of a rule. -/
structure RuleSetting where
  severity : Severity
  arguments : List RuleArgument
deriving Repr

namespace RuleSetting

/-- The rule is applied. -/
def isEnabled (s : RuleSetting) : Bool :=
  s.severity ≠ .off

/-- The severity that a table of settings names. -/
def severityOf : Option Json → Except RuleFault Severity
  | none => .ok .error
  | some (.str t) =>
    match t.toString? with
    | none => .error .looseSeverity
    | some s =>
      match Severity.ofName? s with
      | some severity => .ok severity
      | none => .error .severity
  | some _ => .error .severity

/-- The arguments that a table of settings names: a single value is a list of its own. -/
def optionsOf : Option Json → List RuleArgument
  | none => []
  | some (.arr items) => items.map .value
  | some v => [.value v]

/-- The setting that a value stands for. -/
def ofJson (rule : LooseText) : Json → Except RuleFault RuleSetting
  | .bool on => .ok ⟨.ofBool on, []⟩
  | .arr (.bool on :: arguments) => .ok ⟨.ofBool on, arguments.map .value⟩
  | .arr _ => .error (.listHead rule)
  | .obj fields =>
    (severityOf (Json.valueOf? fields "severity")).map fun severity =>
      ⟨severity, optionsOf (Json.valueOf? fields "options")⟩
  | v => .error (.shape rule v)

end RuleSetting

/-- The settings of rules by their names, in the order of a file. -/
abbrev RuleTable := Table LooseText RuleSetting

namespace RuleTable

/-- The settings that a value stands for; the first value that is refused ends it. -/
def ofJson : Json → Except RuleFault RuleTable
  | .obj fields => fields.mapM fun e => (RuleSetting.ofJson e.1 e.2).map fun s => (e.1, s)
  | _ => .error .notTable

end RuleTable

/-- Where a fault in a table of rules is. -/
def RuleFault.place : RuleFault → List PlaceStep
  | .severity | .looseSeverity => [.key "rules", .key "severity"]
  | _ => [.key "rules"]

/-- A fault in a table of rules as a complaint. -/
def RuleFault.complaint (f : RuleFault) : Complaint :=
  ⟨f.place, .rule f⟩

/-- A lint configuration: the rules, and the file that they come from. -/
structure LintConfig where
  rules : RuleTable
  source : Option Path
deriving Repr

end DeclLint
