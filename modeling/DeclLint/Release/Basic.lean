/-
DeclLint/Release/Basic.lean

The TypeScript compilers a package can be tested with: the shipped releases
in the order they came out, the newest unreleased one, and one built locally.
-/

namespace DeclLint

/-- The shipped releases, oldest first. -/
def shippedNames : List String := [
  "2.0", "2.1", "2.2", "2.3", "2.4", "2.5", "2.6", "2.7", "2.8", "2.9",
  "3.0", "3.1", "3.2", "3.3", "3.4", "3.5", "3.6", "3.7", "3.8", "3.9",
  "4.0", "4.1", "4.2", "4.3", "4.4", "4.5", "4.6", "4.7", "4.8", "4.9",
  "5.0", "5.1", "5.2", "5.3", "5.4", "5.5", "5.6"]

/-- A compiler: a shipped release by its place in the order, the newest unreleased one, which is
newer than all of them, or a local build, which is not ordered against any other. -/
inductive Release where
  | shipped (position : Fin shippedNames.length)
  | latest
  | localBuild
deriving DecidableEq, Repr

namespace Release

/-- The name of a release. -/
def name : Release → String
  | .shipped i => shippedNames.get i
  | .latest => "latest"
  | .localBuild => "local"

/-- All shipped releases, oldest first. -/
def allShipped : List Release :=
  (List.finRange shippedNames.length).map .shipped

/-- The oldest release that is still tested by default. -/
def lowestSupported : Release :=
  .shipped ⟨29, by decide⟩

/-- The shipped releases that are still tested by default. -/
def supported : List Release :=
  allShipped.drop 29

/-- The release with a given name. -/
def ofName? (s : String) : Option Release :=
  if s = "latest" then some .latest
  else if s = "local" then some .localBuild
  else (List.finRange shippedNames.length).find? (fun i => shippedNames.get i = s) |>.map .shipped

theorem ofName?_name (r : Release) : ofName? r.name = some r := by
  cases r with
  | shipped i => revert i; decide +kernel
  | latest => decide
  | localBuild => decide

end Release

end DeclLint
