/-
DeclLint/Text/CodePoints.lean

Sets of characters written as ranges of code points.  The properties of
characters that the linter asks for (blank, digit, word, printable) are
tables of such ranges; this module holds only the membership test.
-/

namespace DeclLint.Text

/-- `inRanges table c`: the code point of `c` lies in one of the closed ranges of `table`. -/
def inRanges (table : List (Nat × Nat)) (c : Char) : Bool :=
  table.any fun r => decide (r.1 ≤ c.toNat) && decide (c.toNat ≤ r.2)

end DeclLint.Text
