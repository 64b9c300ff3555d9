/-
DeclLint/Decimal/Shortest.lean

The text of a floating-point number: the fewest decimal digits that read
back as the same number, and of those the nearest to it.  `inInterval` says
which decimals read back; on the grid of `n` digits only the two neighbours
of the number have to be tried.
-/
import DeclLint.Decimal.Binary64

namespace DeclLint.Decimal

/-- A positive finite number with the width of what rounds to it, in units of `2^unit`: the
number is `4m` units, and the decimals within `below` and `above` units round to it, the ends
included when `closed`. -/
structure Neighbourhood where
  centre : Nat
  below : Nat
  above : Nat
  unit : Int
  closed : Bool

/-- What rounds to `m · 2^e`.  Below a power of two the numbers are twice as dense. -/
def Neighbourhood.of (m : Nat) (e : Int) : Neighbourhood :=
  { centre := 4 * m
    below := if m = twoTo 52 ∧ Binary64.leastExponent < e then 1 else 2
    above := 2
    unit := e - 2
    closed := m % 2 == 0 }

namespace Neighbourhood

/-- `units · 2^unit` compared with `d · 10^p`, both sides as naturals. -/
def sides (h : Neighbourhood) (units d : Nat) (p : Int) : Nat × Nat :=
  (units * twoTo h.unit.toNat * tenTo (-p).toNat, d * tenTo p.toNat * twoTo (-h.unit).toNat)

/-- The decimal `d · 10^p` reads back as the number. -/
def inInterval (h : Neighbourhood) (d : Nat) (p : Int) : Bool :=
  let lo := h.sides (h.centre - h.below) d p
  let hi := h.sides (h.centre + h.above) d p
  if h.closed then decide (lo.1 ≤ lo.2) && decide (hi.2 ≤ hi.1)
  else decide (lo.1 < lo.2) && decide (hi.2 < hi.1)

/-- The greatest `d` with `d · 10^p` at most the number. -/
def floorAt (h : Neighbourhood) (p : Int) : Nat :=
  (h.centre * twoTo h.unit.toNat * tenTo (-p).toNat) / (tenTo p.toNat * twoTo (-h.unit).toNat)

/-- The distance of `d · 10^p` from the number, in units that depend on `p` only. -/
def distance (h : Neighbourhood) (d : Nat) (p : Int) : Nat :=
  let s := h.sides h.centre d p
  (s.1 - s.2) + (s.2 - s.1)

/-- The decimal of the grid `10^p` that reads back, the nearer one if both neighbours do. -/
def onGrid? (h : Neighbourhood) (p : Int) : Option Nat :=
  let d := h.floorAt p
  match h.inInterval d p, h.inInterval (d + 1) p with
  | false, false => none
  | true, false => some d
  | false, true => some (d + 1)
  | true, true =>
    let lower := h.distance d p
    let upper := h.distance (d + 1) p
    if lower < upper then some d
    else if upper < lower then some (d + 1)
    else some (if d % 2 = 0 then d else d + 1)

/-- The number of digits before the decimal point: the number is below `10^k` and not below
`10^(k-1)`.  The binary order gives the place up to one. -/
def decimalOrder (h : Neighbourhood) : Int :=
  let guess := (h.centre.log2 + h.unit) * 30103 / 100000
  let below (k : Int) : Bool :=
    let s := h.sides h.centre 1 k
    decide (s.1 < s.2)
  if below (guess - 1) then guess - 1
  else if below guess then guess
  else if below (guess + 1) then guess + 1
  else guess + 2

end Neighbourhood

/-- The digits of the shortest decimal that reads back as `m · 2^e`, and the number of its
digits before the point. -/
def shortest (m : Nat) (e : Int) : List Char × Int :=
  let h := Neighbourhood.of m e
  let k := h.decimalOrder
  let hit := (List.range 17).findSome? fun (n : Nat) =>
    (h.onGrid? (k - (n + 1 : Nat))).map fun d => (d, n + 1)
  match hit with
  | none => ([], k)
  | some (d, n) =>
    let digits := Nat.toDigits 10 d
    let carry : Int := digits.length - (n : Int)
    ((digits.reverse.dropWhile (· = '0')).reverse, k + carry)

/-- Digits with a point after the first `k` of them, with zeros where digits are missing and at
least one digit on either side. -/
def positional (digits : List Char) (k : Int) : List Char :=
  if k ≤ 0 then ['0', '.'] ++ List.replicate (-k).toNat '0' ++ digits
  else
    let n := k.toNat
    let whole := digits.take n ++ List.replicate (n - digits.length) '0'
    let part := digits.drop n
    whole ++ ['.'] ++ (if part.isEmpty then ['0'] else part)

/-- Digits with the point after the first one and the exponent with a sign and two digits. -/
def scientific (digits : List Char) (exponent : Int) : List Char :=
  let part := digits.drop 1
  let e := Nat.toDigits 10 exponent.natAbs
  digits.take 1 ++ (if part.isEmpty then [] else '.' :: part) ++ ['e'] ++
    [if exponent < 0 then '-' else '+'] ++ (if e.length < 2 then '0' :: e else e)

/-- The text of a number: positional from `10^-4` up to below `10^16`, scientific outside. -/
def Binary64.text : Binary64 → String
  | .nan => "nan"
  | .infinite s => if s then "-inf" else "inf"
  | .finite s m e =>
    let sign := if s then ['-'] else []
    if m = 0 then String.ofList (sign ++ ['0', '.', '0'])
    else
      let (digits, k) := shortest m e
      let body := if -4 < k ∧ k ≤ 16 then positional digits k else scientific digits (k - 1)
      String.ofList (sign ++ body)

end DeclLint.Decimal
