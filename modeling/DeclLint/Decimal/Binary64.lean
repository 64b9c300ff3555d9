/-
DeclLint/Decimal/Binary64.lean

Binary floating-point numbers of 64 bits, as far as the linter needs them:
times and numbers in configuration files.  A finite number is kept as its
significand and exponent, so that everything is exact arithmetic on naturals
followed by one rounding to the nearest number, ties to the even significand.
-/

namespace DeclLint.Decimal

/-- A quotient rounded to the nearest natural number, a half to the even neighbour. -/
def roundDiv (a b : Nat) : Nat :=
  let q := a / b
  let r := a % b
  if 2 * r < b then q else if b < 2 * r then q + 1 else q + q % 2

/-- A power of two. -/
def twoTo (n : Nat) : Nat :=
  Nat.pow 2 n

/-- A power of ten. -/
def tenTo (n : Nat) : Nat :=
  Nat.pow 10 n

/-- A 64-bit floating-point number; `finite s m q` is `±m · 2^q`. -/
inductive Binary64 where
  | nan
  | infinite (negative : Bool)
  | finite (negative : Bool) (significand : Nat) (exponent : Int)
deriving Repr, DecidableEq

namespace Binary64

/-- The exponent of the smallest numbers. -/
def leastExponent : Int := -1074

/-- The exponent of the largest numbers. -/
def greatestExponent : Int := 971

/-- A zero with a sign. -/
def zero (negative : Bool) : Binary64 :=
  .finite negative 0 leastExponent

/-- `num / den` in units of `2^e`, rounded. -/
def scaled (num den : Nat) (e : Int) : Nat :=
  if 0 ≤ e then roundDiv num (den * twoTo e.toNat) else roundDiv (num * twoTo (-e).toNat) den

/-- `2^e ≤ num / den`. -/
def atLeastPower (num den : Nat) (e : Int) : Bool :=
  if 0 ≤ e then decide (den * twoTo e.toNat ≤ num) else decide (den ≤ num * twoTo (-e).toNat)

/-- The exponent of the greatest power of two below or at `num / den`. -/
def binaryOrder (num den : Nat) : Int :=
  let k : Int := (num.log2 : Int) - den.log2
  if atLeastPower num den k then k else k - 1

/-- The number nearest to `± num / den`. -/
def ofRatio (negative : Bool) (num den : Nat) : Binary64 :=
  if num = 0 then zero negative
  else
    let e := max (binaryOrder num den - 52) leastExponent
    let m := scaled num den e
    let (m, e) := if m = twoTo 53 then (twoTo 52, e + 1) else (m, e)
    if greatestExponent < e then .infinite negative else .finite negative m e

/-- The number nearest to `± m · 2^e`. -/
def ofDyadic (negative : Bool) (m : Nat) (e : Int) : Binary64 :=
  ofRatio negative (m * twoTo e.toNat) (twoTo (-e).toNat)

/-- The number nearest to `± digits · 10^e`.  Magnitudes far outside the range of the type are
settled by their number of digits alone. -/
def ofDecimal (negative : Bool) (digits : Nat) (e : Int) : Binary64 :=
  let order := e + (Nat.toDigits 10 digits).length
  if digits = 0 then zero negative
  else if 400 < order then .infinite negative
  else if order < -400 then zero negative
  else ofRatio negative (digits * tenTo e.toNat) (tenTo (-e).toNat)

/-- The number is a zero of either sign. -/
def isZero : Binary64 → Bool
  | .finite _ m _ => m == 0
  | _ => false

/-- The number with the opposite sign. -/
def neg : Binary64 → Binary64
  | .nan => .nan
  | .infinite s => .infinite !s
  | .finite s m e => .finite (!s) m e

/-- A signed multiple of `2^e` as a multiple of a smaller power `2^f`. -/
def unitsOf (s : Bool) (m : Nat) (e f : Int) : Int :=
  let n : Int := (m * twoTo (e - f).toNat : Nat)
  if s then -n else n

/-- The sum, rounded once. -/
def add : Binary64 → Binary64 → Binary64
  | .nan, _ => .nan
  | _, .nan => .nan
  | .infinite s, .infinite t => if s = t then .infinite s else .nan
  | .infinite s, _ => .infinite s
  | _, .infinite t => .infinite t
  | .finite s m e, .finite t n f =>
    let g := min e f
    let total := unitsOf s m e g + unitsOf t n f g
    if total = 0 then zero (s && t) else ofDyadic (decide (total < 0)) total.natAbs g

/-- The difference, rounded once. -/
def sub (x y : Binary64) : Binary64 :=
  add x y.neg

/-- The number rounded to `places` decimal places; a half of the last place goes to the even
digit, and the result is the number nearest to that decimal. -/
def round (places : Nat) : Binary64 → Binary64
  | .finite s m e =>
    let k := roundDiv (m * twoTo e.toNat * tenTo places) (twoTo (-e).toNat)
    ofRatio s k (tenTo places)
  | x => x

/-- The number nearest to an integer. -/
def ofInt (n : Int) : Binary64 :=
  ofRatio (decide (n < 0)) n.natAbs 1

end Binary64

end DeclLint.Decimal
