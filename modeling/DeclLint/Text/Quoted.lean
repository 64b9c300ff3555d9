/-
DeclLint/Text/Quoted.lean

Texts quoted inside messages.  The quotes are single, or double when the
text holds a single quote and no double one; the quote itself, the backslash
and the characters that are not printable are escaped.
-/
import DeclLint.Text.Printable

namespace DeclLint.Text

/-- A hexadecimal digit in lower case. -/
def hexDigit (n : Nat) : Char :=
  Nat.digitChar n

/-- The last `width` hexadecimal digits of a number. -/
def hex : Nat → Nat → List Char
  | 0, _ => []
  | width + 1, n => hex width (n / 16) ++ [hexDigit (n % 16)]

/-- The quotation mark that a text is put in. -/
def quoteMark (cs : List Char) : Char :=
  if cs.contains '\'' && !cs.contains '"' then '"' else '\''

/-- One character inside a quotation with the given mark. -/
def quoteChar (mark c : Char) : List Char :=
  if c = mark || c = '\\' then ['\\', c]
  else if c = '\t' then ['\\', 't']
  else if c = '\n' then ['\\', 'n']
  else if c = '\r' then ['\\', 'r']
  else if isPrintable c then [c]
  else if c.toNat < 0x100 then ['\\', 'x'] ++ hex 2 c.toNat
  else if c.toNat < 0x10000 then ['\\', 'u'] ++ hex 4 c.toNat
  else ['\\', 'U'] ++ hex 8 c.toNat

/-- The quotation of a text. -/
def quote (cs : List Char) : List Char :=
  let mark := quoteMark cs
  [mark] ++ cs.flatMap (quoteChar mark) ++ [mark]

/-- The quotation of a string. -/
def quoted (s : String) : String :=
  String.ofList (quote s.toList)

end DeclLint.Text
