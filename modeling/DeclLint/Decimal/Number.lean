/-
DeclLint/Decimal/Number.lean

Numbers as a clock gives them: whole, or binary of 64 bits.  Whole numbers
stay whole when they are subtracted or rounded.  Beside a binary number a
whole one becomes binary first; beyond the greatest binary number it cannot.
-/
import DeclLint.Decimal.Shortest
import DeclLint.Limit

namespace DeclLint.Decimal

/-- A number that is whole or binary. -/
inductive Number where
  | whole (n : Int)
  | binary (x : Binary64)
deriving Repr, DecidableEq

namespace Number

/-- The number is zero. -/
def isZero : Number → Bool
  | .whole n => n = 0
  | .binary x => x.isZero

/-- The nearest binary number. -/
def toBinary : Number → Except Excess Binary64
  | .whole n =>
    match Binary64.ofInt n with
    | .infinite _ => .error .magnitude
    | x => .ok x
  | .binary x => .ok x

/-- The difference of two numbers, whole where both of them are. -/
def sub : Number → Number → Except Excess Number
  | .whole m, .whole n => .ok (.whole (m - n))
  | x, y => do
    let x ← x.toBinary
    let y ← y.toBinary
    return .binary (x.sub y)

/-- The number rounded to decimal places. -/
def round (places : Nat) : Number → Number
  | .whole n => .whole n
  | .binary x => .binary (x.round places)

/-- The text of a number: all digits of a whole one, the shortest text of a binary one. -/
def text : Number → Except Excess String
  | .whole n => wholeText n
  | .binary x => .ok x.text

end Number

end DeclLint.Decimal
