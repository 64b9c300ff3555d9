/-
DeclLint/Package.lean

Linting a package.  A package may hold folders for older compilers, named
after the newest release that they serve (`ts3.6`).  Each folder has a pass of
its own with the releases after those of the folder before it, up to its own;
the root has the last pass, up to the newest release.  The first report ends
the run.
-/
import DeclLint.Pass
import DeclLint.Project.Root

namespace DeclLint

/-- What is said about the linting of a package. -/
structure PackageOptions where
  /-- The directory of the package. -/
  directory : Path
  /-- The oldest release that the package supports. -/
  minimum : VersionArg
  /-- Only the newest release is tested with. -/
  onlyNewest : Bool
  /-- Only the compile check is wanted. -/
  expectOnly : Bool
  /-- The directory of a local build; it is the only one tested with. -/
  localBuild : Option String
  /-- The name of the report's format. -/
  format : String
  /-- A program to use in place of the ones that the projects describe. -/
  program : Option Program

namespace Package

/-- The order of releases by age; only shipped ones have a place in it. -/
def ageLe (a b : Release) : Bool :=
  match a, b with
  | .shipped i, .shipped j => decide (i ≤ j)
  | _, _ => true

/-- The releases that entries of a directory stand for, in the order of the entries. -/
def folderReleases (w : Workspace) (directory : Path) :
    List String → Except LintError (List Release)
  | [] => .ok []
  | name :: names =>
    match Path.folderVersion? name with
    | some version => do
      let folder := directory.child name
      let isFolder ← LintError.atPath folder (w.isDir folder)
      if isFolder then
        let release ← (VersionArg.value (.text version)).release?
        let more ← folderReleases w directory names
        return release :: more
      else folderReleases w directory names
    | none => folderReleases w directory names

/-- The releases that have a folder in a package, oldest first. -/
def findVersions (w : Workspace) (directory : Path) : Except LintError (List Release) :=
  match w.list directory with
  | .error fault => .error (.access directory fault)
  | .ok names => (folderReleases w directory names).map fun rs => rs.mergeSort ageLe

/-- The ends of the ranges of the passes, before the declared minimum is taken into account: each
folder starts after the one before it, and the root goes up to the newest release. -/
def bounds (folders : List Release) : Except LintError (List (Release × Release)) := do
  let starts ← folders.mapM fun r => (Release.next r).mapError .invalidRange
  return (Release.lowestSupported :: starts).zip (folders ++ [.latest])

/-- The directory of the pass that goes up to a release. -/
def directoryOf (directory : Path) (high : Release) : Path :=
  if high = .latest then directory else directory.child ("ts" ++ high.name)

/-- The options of the pass with the releases from `low` to `high`. -/
def passOptions (o : PackageOptions) (low high : Release) : PassOptions :=
  { directory := directoryOf o.directory high
    low := .release low
    high := .release high
    isLatest := decide (high = .latest)
    expectOnly := o.expectOnly
    localBuild := none
    format := o.format
    program := o.program }

/-- The lower end of a pass: its own, or the declared minimum if that is newer. -/
def lowerEnd (o : PackageOptions) (bound high : Release) : Except LintError Release := do
  let low ← Release.laterOf o.minimum (.release bound)
  match Release.range low high with
  | .ok _ => return low
  | .error _ => .error (.skippedFolder o.minimum high)

/-- Runs passes one after the other until one has a report. -/
def runPasses (host : Host) (o : PackageOptions) (announce : Bool) :
    List (Release × Release) → Traced (Option String)
  | [] => return none
  | (bound, high) :: more => do
    let low ← Traced.ofExcept (lowerEnd o bound high)
    if announce then
      Traced.log .info .passes
        ("Testing from " ++ low.name ++ " to " ++ high.name ++ " in " ++
          (directoryOf o.directory high).toString)
    match ← Pass.run host (passOptions o low high) with
    | some report => return some report
    | none => runPasses host o announce more

/-- The options of the single pass with one release that is not shipped. -/
def singlePass (o : PackageOptions) (release : Release) : PassOptions :=
  { directory := o.directory
    low := .release release
    high := .release release
    isLatest := true
    expectOnly := o.expectOnly
    localBuild := o.localBuild
    format := o.format
    program := o.program }

/-- Lints a package: the first report, if there is any. -/
def lint (host : Host) (o : PackageOptions) : Traced (Option String) :=
  if (Release.localDirectory? o.localBuild).isSome then
    Pass.run host (singlePass o .localBuild)
  else if o.onlyNewest then Pass.run host (singlePass o .latest)
  else do
    let folders ← Traced.ofExcept (findVersions host.workspace o.directory)
    let passes ← Traced.ofExcept (bounds folders)
    runPasses host o (decide (1 < passes.length)) passes

end Package

end DeclLint
