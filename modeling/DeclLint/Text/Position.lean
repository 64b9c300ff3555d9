/-
DeclLint/Text/Position.lean

Places in a source text.  An offset counts characters from the start of the
text; a position is the zero-based line and the distance from the start of
that line.  Only newlines end lines here.
-/

namespace DeclLint.Text

/-- A zero-based line and the character within it. -/
structure Position where
  line : Nat
  character : Int
deriving Repr, DecidableEq

/-- How many characters stand before an offset: a negative offset counts from the end of the
text, and offsets outside the text mean its nearer end. -/
def before (length : Nat) (offset : Int) : Nat :=
  if offset < 0 then (offset + length).toNat else min offset.toNat length

/-- The offset at which the last line of a text starts. -/
def lastLineStart (cs : List Char) : Nat :=
  cs.length - (cs.reverse.takeWhile (· != '\n')).length

/-- The position of an offset.  The character is measured from the offset as given, also when it
lies outside the text. -/
def position (text : List Char) (offset : Int) : Position :=
  let head := text.take (before text.length offset)
  ⟨head.count '\n', offset - lastLineStart head⟩

end DeclLint.Text
