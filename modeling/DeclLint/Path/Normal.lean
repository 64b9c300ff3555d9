/-
DeclLint/Path/Normal.lean

The lexical resolution of paths.  A double dot cancels the segment before
it; at a root it is dropped, in front of a relative path it stays.  The
normal form of a text reads both slashes as separators, resolves, and writes
a drive letter in upper case, so that two spellings of one place agree.
-/
import DeclLint.Path.Basic

namespace DeclLint.Path

/-- A stack of resolved segments, the last one on top, with one more segment. -/
def push (rooted : Bool) (stack : List String) (s : String) : List String :=
  if s = ".." then
    match stack with
    | [] => if rooted then [] else [".."]
    | top :: rest => if top = ".." then ".." :: top :: rest else rest
  else s :: stack

/-- Segments with the double dots cancelled. -/
def cancelDots (rooted : Bool) (segments : List String) : List String :=
  (segments.foldl (push rooted) []).reverse

/-- The path with the double dots cancelled. -/
def resolveDots (p : Path) : Path :=
  ⟨p.root, cancelDots p.isAbsolute p.segments⟩

/-- The absolute path of `p` seen from the directory `cwd`; double dots are kept. -/
def absolute (cwd p : Path) : Path :=
  cwd.join p

/-- The place of `p` seen from the directory `cwd`: absolute, with one slash in front and
without double dots. -/
def resolve (cwd p : Path) : Path :=
  ⟨.single, cancelDots true (cwd.join p).segments⟩

/-- The text with forward slashes only. -/
def forwardSlashes (cs : List Char) : List Char :=
  cs.map fun c => if c = '\\' then '/' else c

/-- A lower-case letter from `a` to `z` in upper case. -/
def upperLetter (c : Char) : Char :=
  if 'a' ≤ c ∧ c ≤ 'z' then Char.ofNat (c.toNat - 32) else c

/-- The text with an upper-case drive letter, if it starts with a letter and a colon. -/
def upperDrive : List Char → List Char
  | c :: ':' :: cs => upperLetter c :: ':' :: cs
  | cs => cs

/-- The path that a text writes with either kind of slash, resolved. -/
def resolution (s : String) : Path :=
  resolveDots (ofString (String.ofList (forwardSlashes s.toList)))

/-- The normal form of the text of a path. -/
def normalForm (s : String) : String :=
  String.ofList (upperDrive (resolution s).toString.toList)

end DeclLint.Path
