/-
DeclLint/Directive.lean

Directives that a declaration file may not hold: `ts-ignore` anywhere, and
`tslint:disable` where it switches everything off.  The latter is scoped,
and allowed, when a colon or a hyphen follows it directly.  A `ts-ignore` is
reported even if a banned `tslint:disable` comes before it.
-/
import DeclLint.Text.Search

namespace DeclLint

/-- A banned directive. -/
inductive Directive where
  | tsIgnore
  | tslintDisable
deriving DecidableEq, Repr

namespace Directive

/-- The words of a directive. -/
def word : Directive → List Char
  | .tsIgnore => "ts-ignore".toList
  | .tslintDisable => "tslint:disable".toList

/-- What is said about a directive. -/
def message : Directive → String
  | .tsIgnore => "'ts-ignore' is forbidden."
  | .tslintDisable =>
    "'tslint:disable' is forbidden. " ++
      "('tslint:disable:rulename', tslint:disable-line' and " ++
      "'tslint:disable-next-line' are allowed.)"

/-- A banned directive in a text: which one, and the offset at which it starts. -/
structure Occurrence where
  offset : Nat
  directive : Directive
deriving DecidableEq, Repr

/-- What follows a `tslint:disable` makes it a scoped one. -/
def isScope (rest : List Char) : Bool :=
  match rest with
  | c :: _ => c = ':' || c = '-'
  | [] => false

/-- A text starts with a `tslint:disable` that is not scoped. -/
def startsBlanket (text : List Char) : Bool :=
  match Text.afterPrefix? Directive.tslintDisable.word text with
  | some rest => !isScope rest
  | none => false

/-- The first `ts-ignore` of a text. -/
def findIgnore? (text : List Char) : Option Occurrence :=
  (Text.find? Directive.tsIgnore.word text).map (⟨·, .tsIgnore⟩)

/-- The first `tslint:disable` of a text that is not scoped. -/
def findDisable? (text : List Char) : Option Occurrence :=
  (Text.firstSuffix? startsBlanket text).map (⟨·, .tslintDisable⟩)

/-- The banned directive that is reported for a text. -/
def scan (text : List Char) : Option Occurrence :=
  (findIgnore? text).or (findDisable? text)

end Directive

end DeclLint
