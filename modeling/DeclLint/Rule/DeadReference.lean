/-
DeclLint/Rule/DeadReference.lean

The rule `no-dead-reference`: a reference directive takes effect only in the
header of a file, which is the blanks and comments before the first
statement.  Every directive line below the header is a failure.
-/
import DeclLint.Rule.Basic
import DeclLint.Text.Blank
import DeclLint.Text.Line
import DeclLint.Text.Search
import DeclLint.Text.Word

namespace DeclLint.DeadReference

/-- The name of the rule. -/
def name : String := "no-dead-reference"

/-- The text after the end of a block comment, if the comment ends. -/
def afterComment? : List Char → Option (List Char)
  | [] => none
  | '*' :: '/' :: cs => some cs
  | _ :: cs => afterComment? cs

theorem length_afterComment?_lt {cs rest : List Char} (h : afterComment? cs = some rest) :
    rest.length < cs.length := by
  fun_induction afterComment? cs with
  | case1 => cases h
  | case2 cs =>
    cases h
    simp only [List.length_cons]
    omega
  | case3 c cs _ ih =>
    have := ih h
    simp only [List.length_cons]
    omega

/-- The text after the header: after the blanks, the line comments and the closed block comments
that it starts with. -/
def afterHeader : List Char → List Char
  | [] => []
  | '/' :: '/' :: cs => afterHeader (cs.dropWhile (· != '\n'))
  | '/' :: '*' :: cs =>
    match _h : afterComment? cs with
    | some rest => afterHeader rest
    | none => '/' :: '*' :: cs
  | c :: cs => if Text.isBlank c then afterHeader cs else c :: cs
termination_by cs => cs.length
decreasing_by
  · have := (List.dropWhile_sublist (l := cs) (· != '\n')).length_le
    simp only [List.length_cons]
    omega
  · have := length_afterComment?_lt _h
    simp only [List.length_cons]
    omega
  · simp

/-- The offset at which the header ends. -/
def headerEnd (cs : List Char) : Nat :=
  cs.length - (afterHeader cs).length

/-- The line is a reference directive. -/
def isDirective (line : List Char) : Bool :=
  match Text.afterPrefix? "///".toList (line.dropWhile fun c => c = ' ' || c = '\t') with
  | none => false
  | some rest =>
    match Text.afterPrefix? "<reference".toList (rest.dropWhile (· = ' ')) with
    | none => false
    | some [] => true
    | some (c :: _) => !Text.isWord c

/-- Lines with the offsets at which they start, the first one at `start`. -/
def withOffsets : Nat → List (List Char) → List (Nat × List Char)
  | _, [] => []
  | start, l :: ls => (start, l) :: withOffsets (start + l.length + 1) ls

/-- The offsets of the directive lines below the header. -/
def deadOffsets (cs : List Char) : List Nat :=
  (withOffsets 0 (Text.newlinePieces cs)).filterMap fun e =>
    if headerEnd cs ≤ e.1 && isDirective e.2 then some e.1 else none

/-- The failures in a file. -/
def failures (file : SourceFile) : List Failure :=
  (deadOffsets file.text.toList).map fun offset =>
    Failure.at file name offset "'/// <reference>' directive must be at top of file to take effect."

end DeclLint.DeadReference
