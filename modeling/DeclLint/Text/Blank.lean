/-
DeclLint/Text/Blank.lean

Blank characters: the white space of Unicode together with the four
information separators U+001C to U+001F.  The zero-width space and the byte
order mark are not blank.  `strip` cuts blank characters from both ends.
-/
import DeclLint.Text.CodePoints

namespace DeclLint.Text

/-- The code points of blank characters. -/
def blankRanges : List (Nat × Nat) := [
  (0x9, 0xD), (0x1C, 0x20), (0x85, 0x85), (0xA0, 0xA0), (0x1680, 0x1680), (0x2000, 0x200A),
  (0x2028, 0x2029), (0x202F, 0x202F), (0x205F, 0x205F), (0x3000, 0x3000)]

/-- White space in any of its forms. -/
def isBlank (c : Char) : Bool :=
  inRanges blankRanges c

/-- The text without its leading blank characters. -/
def stripLeft (cs : List Char) : List Char :=
  cs.dropWhile isBlank

/-- The text without its trailing blank characters. -/
def stripRight (cs : List Char) : List Char :=
  (cs.reverse.dropWhile isBlank).reverse

/-- The text without blank characters at either end. -/
def strip (cs : List Char) : List Char :=
  stripRight (stripLeft cs)

/-- `strip` on a whole string. -/
def stripString (s : String) : String :=
  String.ofList (strip s.toList)

/-- A text of blank characters only. -/
def allBlank (cs : List Char) : Bool :=
  cs.all isBlank

end DeclLint.Text
