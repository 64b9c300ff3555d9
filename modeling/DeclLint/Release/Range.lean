/-
DeclLint/Release/Range.lean

Ranges of releases.  A range is given by its ends; it holds the shipped
releases from the lower to the upper one, and the unreleased one where that
is the upper end.  A local build forms a range with itself only.
-/
import DeclLint.Release.Basic

namespace DeclLint

/-- Why releases form no range, or have no successor or order. -/
inductive RangeFault where
  /-- A local build together with another release. -/
  | localMixed (low high : Release)
  /-- The newest release as the lower end of a range that stops before it. -/
  | latestMinimum (high : Release)
  /-- The upper end is older than the lower one. -/
  | reversed (low high : Release)
  /-- Nothing follows the release. -/
  | noSuccessor (release : Release)
  /-- A local build has no place in the order. -/
  | localCompared
deriving DecidableEq, Repr

namespace RangeFault

/-- The explanation of a fault. -/
def message : RangeFault → String
  | .localMixed low high =>
    "'local' must be both the minimum and maximum version, got " ++ low.name ++ ".." ++ high.name
  | .latestMinimum high =>
    "Minimum version 'latest' requires maximum version 'latest', got " ++ high.name
  | .reversed low high =>
    "Maximum version " ++ high.name ++ " is older than minimum version " ++ low.name
  | .noSuccessor release => "No version follows " ++ release.name
  | .localCompared => "'local' cannot be compared with other versions"

end RangeFault

namespace Release

/-- The releases from `low` to `high`, oldest first. -/
def range (low high : Release) : Except RangeFault (List Release) :=
  match low, high with
  | .localBuild, .localBuild => .ok [.localBuild]
  | .localBuild, _ => .error (.localMixed low high)
  | _, .localBuild => .error (.localMixed low high)
  | .latest, .latest => .ok [.latest]
  | .latest, .shipped _ => .error (.latestMinimum high)
  | .shipped i, .latest => .ok (allShipped.drop i ++ [.latest])
  | .shipped i, .shipped j =>
    if j < i then .error (.reversed low high) else .ok ((allShipped.take (j + 1)).drop i)

/-- The release that came out after a shipped one. -/
def next : Release → Except RangeFault Release
  | .shipped i =>
    if h : i.val + 1 < shippedNames.length then .ok (.shipped ⟨i.val + 1, h⟩) else .ok .latest
  | r => .error (.noSuccessor r)

/-- The newer of two releases. -/
def later (a b : Release) : Except RangeFault Release :=
  match a, b with
  | .localBuild, _ => .error .localCompared
  | _, .localBuild => .error .localCompared
  | .latest, _ => .ok .latest
  | _, .latest => .ok .latest
  | .shipped i, .shipped j => .ok (.shipped (if j ≤ i then i else j))

end Release

end DeclLint
