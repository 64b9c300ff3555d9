/-
DeclLint/Config/Complaint.lean

What a check of configured values finds.  Every complaint has a place, the
keys and indices that lead to the value, and a cause.  Checks of a whole
table list the complaints in the order of its fields.
-/
import DeclLint.Json.Display

namespace DeclLint

/-- One step to a value inside another one. -/
inductive PlaceStep where
  | key (name : String)
  | index (i : Nat)
deriving DecidableEq, Repr

/-- Why the value of a rule is none. -/
inductive RuleFault where
  /-- The rules are no table. -/
  | notTable
  /-- The value has none of the accepted shapes. -/
  | shape (rule : LooseText) (value : Json)
  /-- The value is a list that does not start with a truth value. -/
  | listHead (rule : LooseText)
  /-- The severity is none. -/
  | severity
  /-- A surrogate stands alone in the severity. -/
  | looseSeverity
deriving Repr

/-- Why a value is refused. -/
inductive ComplaintCause where
  | rule (fault : RuleFault)
  | missing
  | notText
  | looseText
  | emptyText
  | notList
  | emptyList
  | notTable (expected : String)
deriving Repr

/-- A refused value. -/
structure Complaint where
  place : List PlaceStep
  cause : ComplaintCause
deriving Repr

/-- What is said about a text in which a surrogate stands alone. -/
def looseTextMessage : String :=
  "Input should be a valid string, unable to parse raw data as a unicode string"

/-- The explanation of a fault, with the name of the rule as it was written. -/
def RuleFault.text : RuleFault → LooseText
  | .notTable => .ofString "rules must be an object mapping rule names to settings"
  | .shape rule value =>
    .ofString "rule '" ++ rule ++ .ofString ("' has invalid value " ++ value.display)
  | .listHead rule => .ofString "rule '" ++ rule ++ .ofString "' list must start with true or false"
  | .severity => .ofString "Input should be 'error', 'warning' or 'off'"
  | .looseSeverity => .ofString looseTextMessage

/-- The explanation of a fault. -/
def RuleFault.message (f : RuleFault) : String :=
  f.text.escaped

namespace ComplaintCause

/-- The short name of the cause. -/
def kind : ComplaintCause → String
  | .rule .severity => "literal_error"
  | .rule .looseSeverity => "string_unicode"
  | .rule _ => "value_error"
  | .missing => "missing"
  | .notText => "string_type"
  | .looseText => "string_unicode"
  | .emptyText => "string_too_short"
  | .notList => "list_type"
  | .emptyList => "too_short"
  | .notTable _ => "model_type"

/-- The explanation of the cause. -/
def message : ComplaintCause → String
  | .rule .severity => RuleFault.message .severity
  | .rule .looseSeverity => RuleFault.message .looseSeverity
  | .rule fault => "Value error, " ++ fault.message
  | .missing => "Field required"
  | .notText => "Input should be a valid string"
  | .looseText => looseTextMessage
  | .emptyText => "String should have at least 1 character"
  | .notList => "Input should be a valid list"
  | .emptyList => "List should have at least 1 item after validation, not 0"
  | .notTable expected => "Input should be a valid dictionary or instance of " ++ expected

end ComplaintCause

/-- A step as a text. -/
def PlaceStep.text : PlaceStep → String
  | .key name => name
  | .index i => toString i

/-- Places and explanations of several complaints. -/
def Complaint.summary (cs : List Complaint) : String :=
  "; ".intercalate (cs.map fun c =>
    ".".intercalate (c.place.map PlaceStep.text) ++ ": " ++ c.cause.message)

end DeclLint
