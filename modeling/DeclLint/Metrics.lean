/-
DeclLint/Metrics.lean

What a pass counts and how long it took.  The elapsed time runs until now as
long as no end is noted; an end at time zero counts as none.
-/
import DeclLint.Decimal.Number
import DeclLint.Table

namespace DeclLint

/-- The things that a pass counts. -/
inductive Counter where
  | filesSeen
  | defaultLibraryFiles
  | dependencyFiles
  | filesScanned
  | pinnedFilesSkipped
  | filesLinted
deriving DecidableEq, Repr

namespace Counter

/-- All counters in the order in which they are shown. -/
def all : List Counter :=
  [.filesSeen, .defaultLibraryFiles, .dependencyFiles, .filesScanned, .pinnedFilesSkipped,
    .filesLinted]

/-- The name of a counter. -/
def name : Counter → String
  | .filesSeen => "files_seen"
  | .defaultLibraryFiles => "default_library_files"
  | .dependencyFiles => "dependency_files"
  | .filesScanned => "files_scanned"
  | .pinnedFilesSkipped => "pinned_files_skipped"
  | .filesLinted => "files_linted"

/-- The counter with a given name. -/
def ofName? (s : String) : Option Counter :=
  all.find? (·.name = s)

end Counter

/-- The counts of a pass. -/
structure Counts where
  filesSeen : Int
  defaultLibraryFiles : Int
  dependencyFiles : Int
  filesScanned : Int
  pinnedFilesSkipped : Int
  filesLinted : Int
deriving DecidableEq, Repr

namespace Counts

/-- Nothing is counted yet. -/
def zero : Counts :=
  ⟨0, 0, 0, 0, 0, 0⟩

/-- The value of a counter. -/
def get (c : Counts) : Counter → Int
  | .filesSeen => c.filesSeen
  | .defaultLibraryFiles => c.defaultLibraryFiles
  | .dependencyFiles => c.dependencyFiles
  | .filesScanned => c.filesScanned
  | .pinnedFilesSkipped => c.pinnedFilesSkipped
  | .filesLinted => c.filesLinted

/-- The counts with more added to one counter. -/
def add (c : Counts) (k : Counter) (n : Int) : Counts :=
  match k with
  | .filesSeen => { c with filesSeen := c.filesSeen + n }
  | .defaultLibraryFiles => { c with defaultLibraryFiles := c.defaultLibraryFiles + n }
  | .dependencyFiles => { c with dependencyFiles := c.dependencyFiles + n }
  | .filesScanned => { c with filesScanned := c.filesScanned + n }
  | .pinnedFilesSkipped => { c with pinnedFilesSkipped := c.pinnedFilesSkipped + n }
  | .filesLinted => { c with filesLinted := c.filesLinted + n }

/-- The elapsed time, as it is shown, and the counts in one line. -/
def text (c : Counts) (elapsed : String) : String :=
  "\x7b'elapsed_seconds': " ++ elapsed ++
    String.join (Counter.all.map fun k => ", '" ++ k.name ++ "': " ++ toString (c.get k)) ++
    "\x7d"

end Counts

/-- The times and counts of a pass. -/
structure Metrics where
  start : Decimal.Number
  finish : Option Decimal.Number
  counts : Counts
deriving DecidableEq, Repr

namespace Metrics

/-- Notes the end of the pass. -/
def finished (m : Metrics) (now : Decimal.Number) : Metrics :=
  { m with finish := some now }

/-- The seconds from the start to the end, or to now. -/
def elapsed (m : Metrics) (now : Decimal.Number) : Except Excess Decimal.Number :=
  match m.finish with
  | some t => if t.isZero then now.sub m.start else t.sub m.start
  | none => now.sub m.start

/-- The elapsed seconds as they are shown, with two decimal places. -/
def shownElapsed (m : Metrics) (now : Decimal.Number) : Except Excess Decimal.Number :=
  (m.elapsed now).map (·.round 2)

end Metrics

end DeclLint
