/-
DeclLint/Project/Root.lean

Checks of what a caller asks for before any work is done: the directory to
lint holds a project, and a local build of the compiler is where it is said
to be.
-/
import DeclLint.Project.Program
import DeclLint.Release.Install

namespace DeclLint.Project

/-- The directory exists and holds a tsconfig.json. -/
def checkRoot (w : Workspace) (root : Path) : Except LintError Unit := do
  let isThere ← LintError.atPath root (w.pathExists root)
  if isThere then
    let isDirectory ← LintError.atPath root (w.isDir root)
    if isDirectory then
      let file := root.child descriptionFile
      let isProject ← LintError.atPath file (w.isFile file)
      if isProject then return () else .error (.argument (.noProjectFile root))
    else .error (.argument (.rootNotDirectory root))
  else .error (.argument (.rootAbsent root))

/-- A local build is given where it is asked for, and its script exists where one is given. -/
def checkLocalBuild (w : Workspace) (localBuild : Option String) (low high : VersionArg) :
    Except LintError Unit :=
  match Release.localDirectory? localBuild with
  | none => if low.namesLocal || high.namesLocal then .error .localCompilerMissing else .ok ()
  | some directory => do
    let script := (Path.ofString directory).child Release.localScript
    let isThere ← LintError.atPath script (w.isFile script)
    if isThere then return () else .error (.argument (.noLocalCompiler directory))

end DeclLint.Project
