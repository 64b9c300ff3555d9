/-
DeclLint/Project/Files.lean

The files of a project, as its tsconfig.json selects them: the listed files
in their order, then the files that the include patterns select and the
exclude patterns do not, in the order of their paths.  A listed file has to
exist; a file that comes twice counts once.
-/
import DeclLint.Error
import DeclLint.Path.Glob

namespace DeclLint.Project

open Text (CodePoint)

/-- The endings of source file names. -/
def sourceEndings : List String := [".d.ts", ".ts", ".tsx"]

/-- The name is one of a source file. -/
def isSourceName (name : String) : Bool :=
  sourceEndings.any fun e => e.toList.isSuffixOf name.toList

/-- The patterns that select files where none are given. -/
def defaultInclude : List LooseText := [LooseText.ofString "**/*"]

/-- The patterns that leave files out where none are given. -/
def defaultExclude : List LooseText :=
  ["node_modules", "bower_components", "jspm_packages"].map LooseText.ofString

/-- What a tsconfig.json says about the files of its project. -/
structure Selection where
  files : Option (List LooseText)
  includes : Option (List LooseText)
  excludes : Option (List LooseText)
deriving DecidableEq, Repr

/-- The patterns that select files: everything, unless files are listed. -/
def Selection.effectiveInclude (s : Selection) : List LooseText :=
  match s.includes with
  | some patterns => patterns
  | none => if s.files.isSome then [] else defaultInclude

/-- The patterns that leave files out. -/
def Selection.effectiveExclude (s : Selection) : List LooseText :=
  s.excludes.getD defaultExclude

/-! ### Patterns -/

/-- The pattern holds a character that makes it a wildcard. -/
def hasWildcard (pattern : LooseText) : Bool :=
  pattern.any fun p => p = CodePoint.char '*' || p = CodePoint.char '?' || p = CodePoint.char '['

/-- The pattern that selects everything below a directory. -/
def everythingBelow (directory : LooseText) : LooseText :=
  (directory.reverse.dropWhile (· = CodePoint.char '/')).reverse ++ LooseText.ofString "/**/*"

/-- What a name leads to from the root.  No file has a name with a lone surrogate, but such a name
is too long as others are. -/
def namedNode? (w : Workspace) (root : Path) (name : LooseText) :
    Except LintError (Option Node) :=
  let path := root.child name.escaped
  match name.toString? with
  | some _ => LintError.atPath path (w.node? path)
  | none =>
    if name.isFileName then LintError.atPath path ((w.node? path).map fun _ => none)
    else .ok none

/-- The pattern matches the whole path, unless that is nested too deep for the room that there
is. -/
def isMatched (room : Nat) (segments : List String) (pattern : LooseText) :
    Except LintError Bool :=
  if Path.isTooDeep room (Path.globOf pattern) segments then .error (.excess (.nesting .pattern))
  else .ok (Path.matchesGlob segments pattern)

/-- The include pattern selects the file with the given segments below the root.  A pattern that
names a directory selects everything below it. -/
def isIncludedBy (w : Workspace) (root : Path) (segments : List String) (pattern : LooseText) :
    Except LintError Bool := do
  let named ← if hasWildcard pattern then .ok none else namedNode? w root pattern
  isMatched w.room.patterns segments
    (if named = some .dir then everythingBelow pattern else pattern)

/-- Some include pattern selects the file; the patterns behind it are not looked at. -/
def isIncluded (w : Workspace) (root : Path) (segments : List String) :
    List LooseText → Except LintError Bool
  | [] => .ok false
  | p :: ps => do
    let included ← isIncludedBy w root segments p
    if included then return true else isIncluded w root segments ps

/-- Matching the path or a directory that it lies in is nested too deep. -/
def isTooDeepBelow (room : Nat) (segments : List String) (pattern : LooseText) : Bool :=
  (Path.beginnings segments).any (Path.isTooDeep room (Path.withoutTail (Path.globOf pattern)))

/-- Some exclude pattern leaves the file out; the patterns behind it are not looked at. -/
def isLeftOut (room : Nat) (segments : List String) (patterns : List LooseText) :
    Except LintError Bool :=
  let sound := patterns.takeWhile (!isTooDeepBelow room segments ·)
  if Path.isExcluded segments sound then .ok true
  else if sound.length < patterns.length then .error (.excess (.nesting .pattern))
  else .ok false

/-! ### Files -/

/-- The order of paths: segment by segment, a shorter path before those that continue it. -/
def placeLe (p q : Place) : Bool :=
  !decide (q < p)

/-- The path of what lies below a root. -/
def pathBelow (root : Path) (segments : Place) : Path :=
  ⟨root.root, root.segments ++ segments⟩

/-- What lies below a root can be looked up, unless its path is too long. -/
def checkLength (root : Path) (segments : Place) : Except LintError Unit :=
  let path := pathBelow root segments
  if pathLimit < path.toString.utf8ByteSize then .error (.access path .nameTooLong) else .ok ()

/-- A directory below a root is searched, unless it lies too deep or its path is too long. -/
def searchDirectory (w : Workspace) (root : Path) (segments : Place) : Except LintError Unit :=
  if w.room.directories < segments.length then .error (.excess (.nesting .directory))
  else checkLength root segments

/-- The files below a root, in the order of their paths.  All directories there are searched; where
several of them are beyond a limit, the first one in this order ends the search. -/
def filesBelow (w : Workspace) (root : Path) : Except LintError (List Place) :=
  match w.locate root with
  | .error .nameTooLong => .error (.access root .nameTooLong)
  | .error _ => .ok []
  | .ok place => do
    let found := (w.tree.below place).mergeSort fun e f => placeLe e.1 f.1
    found.forM fun e => if e.2 = .dir then searchDirectory w root e.1 else .ok ()
    return (found.filter fun e => e.2 ≠ .dir).map (·.1)

/-- A listed file, which has to exist. -/
def listedFile (w : Workspace) (root : Path) (name : LooseText) : Except LintError Path := do
  match ← namedNode? w root name with
  | some (.file _) => return root.child name.escaped
  | _ => .error (.project (.listedAbsent name.escaped root))

/-- The source files that patterns select among files, in their order. -/
def selected (w : Workspace) (root : Path) (includes excludes : List LooseText) :
    List Place → Except LintError (List Place)
  | [] => .ok []
  | segments :: more => do
    checkLength root segments
    if !isSourceName (segments.getLast?.getD "") then selected w root includes excludes more
    else
      let leftOut ← isLeftOut w.room.patterns segments excludes
      if leftOut then selected w root includes excludes more
      else
        let included ← isIncluded w root segments includes
        let rest ← selected w root includes excludes more
        return if included then segments :: rest else rest

/-- The files of the project below `root`. -/
def collect (w : Workspace) (root : Path) (s : Selection) : Except LintError (List Path) := do
  let listed ← (s.files.getD []).mapM (listedFile w root)
  let listed := listed.eraseDups
  let includes := s.effectiveInclude
  if includes.isEmpty then return listed
  else
    let files ← filesBelow w root
    let candidates := files.filter fun segments => !listed.contains (pathBelow root segments)
    let chosen ← selected w root includes s.effectiveExclude candidates
    return listed ++ chosen.map (pathBelow root)

end DeclLint.Project
