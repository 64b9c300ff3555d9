/-
DeclLint/Release/Install.lean

Where compilers are installed.  Every version has a directory of its own
below the installs directory, the unreleased one under the name `next`; a
local build is a script in a directory that the caller names.
-/
import DeclLint.Error

namespace DeclLint.Release

/-- The environment variable that names the installs directory. -/
def installsVariable : String := "DTS_TYPESCRIPT_INSTALLS"

/-- The home directory, named by its variable or else by the account, without slashes at the
end. -/
def homeDirectory (w : Workspace) : Except LintError Path :=
  match (w.environment.get? "HOME").or w.accountHome with
  | none => .error .homeUnknown
  | some home =>
    let trimmed := (home.toList.reverse.dropWhile (· = '/')).reverse
    if trimmed.head? = some '~' then .error .homeUnknown
    else .ok (Path.ofString (if trimmed.isEmpty then "/" else String.ofList trimmed))

/-- The directory that holds one install for every version. -/
def installsDirectory (w : Workspace) : Except LintError Path :=
  match w.setting? installsVariable with
  | some directory => .ok (Path.ofString directory)
  | none => (homeDirectory w).map fun home => (home.child ".dts").child "typescript-installs"

/-- The name of the script of a local build. -/
def localScript : String := "typescript.js"

/-- The directory of a local build, if one is given: an empty name gives none. -/
def localDirectory? : Option String → Option String
  | some "" => none
  | directory => directory

/-- The install of a version by its name: a directory, or the script of a local build. -/
def installPath (w : Workspace) (version : String) (localBuild : Option String) :
    Except LintError Path :=
  if version = Release.localBuild.name then
    match localDirectory? localBuild with
    | none => .error .localCompilerMissing
    | some directory => .ok ((Path.ofString directory).child localScript)
  else
    (installsDirectory w).map fun installs =>
      let folder := if version = Release.latest.name then "next" else version
      ((installs.child folder).child "node_modules").child "typescript"

end DeclLint.Release

namespace DeclLint

/-- The release that a caller means. -/
def VersionArg.release? : VersionArg → Except LintError Release
  | .release r => .ok r
  | .value v =>
    match v.str?.bind Release.ofName? with
    | some r => .ok r
    | none => .error (.unknownVersion v)

/-- The argument is the name of a local build. -/
def VersionArg.namesLocal : VersionArg → Bool
  | .value v => v.str? = some Release.localBuild.name
  | _ => false

namespace Release

/-- The releases between two that a caller names. -/
def rangeOf (low high : VersionArg) : Except LintError (List Release) := do
  let low ← low.release?
  let high ← high.release?
  (range low high).mapError .invalidRange

/-- The release after one that a caller names. -/
def nextOf (version : VersionArg) : Except LintError Release := do
  let release ← version.release?
  release.next.mapError .invalidRange

/-- The newer of two releases that a caller names. -/
def laterOf (first second : VersionArg) : Except LintError Release := do
  let first ← first.release?
  let second ← second.release?
  (later first second).mapError .invalidRange

end Release

end DeclLint
