/-
DeclLint/CommandLine/Console.lean

Where a command prints.  What a stream makes of a line is not up to the
command: it may leave control sequences out, and it may fail, because it has
no code for a character or because it cannot be written to at all.
-/
import DeclLint.Text.Control

namespace DeclLint.CommandLine

/-- Why a line is not printed as a whole. -/
inductive PrintFault where
  /-- The stream has no code for some character. -/
  | unencodable (explanation : String)
  /-- The stream cannot be written to. -/
  | broken (explanation : String)
deriving DecidableEq, Repr

/-- What becomes of a line that is printed: the text that gets through, and why that is not all. -/
structure Printed where
  text : String
  fault? : Option PrintFault
deriving DecidableEq, Repr

/-- The streams of a command: what becomes of a line on standard output and on standard error. -/
structure Console where
  out : String → Printed
  err : String → Printed

namespace Console

/-- A text without control sequences. -/
def plain (s : String) : String :=
  String.ofList (Text.withoutControls s.toList)

/-- The streams of a command that are no terminals and have a code for every character. -/
def piped : Console where
  out line := ⟨plain line ++ "\n", none⟩
  err line := ⟨plain line ++ "\n", none⟩

end Console

end DeclLint.CommandLine
