/-
DeclLint/Text/Line.lean

Two ways of cutting a text into lines.  `pieces` cuts at one separator and
keeps every piece, so a text has one piece more than separators: this is how
lines of source files are counted.  `lines` cuts at every Unicode line
boundary and drops an empty last line: this is how compiler output is read.
`unifyNewlines` is what reading a file as text does to its line endings.
-/

namespace DeclLint.Text

/-- The pieces of a list between the occurrences of `sep`. -/
def pieces {α : Type} [DecidableEq α] (sep : α) : List α → List (List α)
  | [] => [[]]
  | c :: cs => if c = sep then [] :: pieces sep cs else (pieces sep cs).modifyHead (c :: ·)

/-- The lines of a source text: what stands between its newlines. -/
def newlinePieces (cs : List Char) : List (List Char) :=
  pieces '\n' cs

/-- A character that ends a line in the sense of Unicode. -/
def isLineBoundary (c : Char) : Bool :=
  c ∈ ['\n', '\r', '\x0b', '\x0c', '\x1c', '\x1d', '\x1e', '\x85', '\u2028', '\u2029']

/-- The lines of a text at all line boundaries; carriage return and newline together are one. -/
def lines : List Char → List (List Char)
  | [] => []
  | '\r' :: '\n' :: cs => [] :: lines cs
  | c :: cs =>
    if isLineBoundary c then [] :: lines cs
    else
      match lines cs with
      | [] => [[c]]
      | l :: ls => (c :: l) :: ls

/-- Writes every line ending (newline, carriage return, or both) as one newline. -/
def unifyNewlines : List Char → List Char
  | [] => []
  | '\r' :: '\n' :: cs => '\n' :: unifyNewlines cs
  | c :: cs => (if c = '\r' then '\n' else c) :: unifyNewlines cs

theorem pieces_ne_nil {α : Type} [DecidableEq α] (sep : α) (cs : List α) : pieces sep cs ≠ [] := by
  induction cs with
  | nil => simp [pieces]
  | cons c cs ih =>
    rw [pieces]
    split
    · simp
    · cases h : pieces sep cs <;> simp_all

theorem length_pieces {α : Type} [DecidableEq α] (sep : α) (cs : List α) :
    (pieces sep cs).length = cs.count sep + 1 := by
  induction cs with
  | nil => simp [pieces]
  | cons c cs ih =>
    rw [pieces]
    split <;> simp_all

end DeclLint.Text
