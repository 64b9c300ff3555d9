/-
DeclLint/Path/Basic.lean

Paths as they are written.  A path is a root and a list of segments; empty
segments and single dots are dropped on reading, double dots are kept.
Exactly two leading slashes are a root of their own, any other number of
them is one slash.
-/
import DeclLint.Text.Line

namespace DeclLint

/-- How a path starts. -/
inductive PathRoot where
  | relative
  | single
  | double
deriving Repr, DecidableEq, Inhabited

/-- A path: its root and its segments. -/
structure Path where
  root : PathRoot
  segments : List String
deriving Repr, DecidableEq, Inhabited

namespace Path

/-- The slashes that a root is written with. -/
def rootText : PathRoot → String
  | .relative => ""
  | .single => "/"
  | .double => "//"

/-- The root that a text of a path starts with. -/
def rootOf : List Char → PathRoot
  | '/' :: '/' :: '/' :: _ => .single
  | '/' :: '/' :: _ => .double
  | '/' :: _ => .single
  | _ => .relative

/-- A segment that stands for nothing. -/
def isIdle (s : String) : Bool :=
  s = "" || s = "."

/-- The segments that a text of a path names. -/
def segmentsOf (cs : List Char) : List String :=
  ((Text.pieces '/' cs).map String.ofList).filter (!isIdle ·)

/-- The path that a text writes. -/
def ofString (s : String) : Path :=
  ⟨rootOf s.toList, segmentsOf s.toList⟩

/-- The text of a path; the empty relative path is a dot. -/
def toString (p : Path) : String :=
  if p.root = .relative ∧ p.segments = [] then "."
  else rootText p.root ++ String.intercalate "/" p.segments

instance : ToString Path := ⟨toString⟩

/-- The path starts with a root. -/
def isAbsolute (p : Path) : Bool :=
  p.root ≠ .relative

/-- The path `q` seen from `p`: an absolute `q` is taken alone. -/
def join (p q : Path) : Path :=
  if q.isAbsolute then q else ⟨p.root, p.segments ++ q.segments⟩

/-- The path that a text writes, seen from `p`. -/
def child (p : Path) (s : String) : Path :=
  p.join (ofString s)

/-- The path without its last segment. -/
def parent (p : Path) : Path :=
  ⟨p.root, p.segments.dropLast⟩

/-- The last segment, empty where there is none. -/
def name (p : Path) : String :=
  p.segments.getLast?.getD ""

/-- The last segment replaced. -/
def withName (p : Path) (s : String) : Path :=
  ⟨p.root, p.segments.dropLast ++ [s]⟩

/-- The end of the last segment from its last dot on.  A dot in front or at the very end starts
no suffix. -/
def suffix (p : Path) : String :=
  let cs := p.name.toList
  let tail := (cs.reverse.takeWhile (· != '.')).reverse
  if tail.isEmpty || cs.length ≤ tail.length + 1 then "" else String.ofList ('.' :: tail)

/-- The root, if there is one, and the segments. -/
def parts (p : Path) : List String :=
  if p.isAbsolute then rootText p.root :: p.segments else p.segments

theorem join_relative {p q : Path} (h : q.isAbsolute = false) :
    p.join q = ⟨p.root, p.segments ++ q.segments⟩ := by
  simp [join, h]

theorem join_absolute {p q : Path} (h : q.isAbsolute = true) : p.join q = q := by
  simp [join, h]

end Path

end DeclLint
