/-
DeclLint/Config/Active.lean

The configuration of a pass.  A project's own file is preferred to the
bundled one.  The rule that runs compilers has to be on as an error, and is
pointed at the project and at the compilers of the tested range; whatever
options the file gave it are replaced.
-/
import DeclLint.Config.Extends
import DeclLint.Config.Options
import DeclLint.Release.Install

namespace DeclLint.Config

/-- The rule that runs compilers. -/
def expectRule : String := "expect"

/-- The name of a project's own configuration file. -/
def projectFile : String := "tslint.json"

/-- Where a project keeps its own configuration. -/
def projectPath (root : Path) : Path :=
  root.child projectFile

/-- The compilers of several releases. -/
def versionsToTest (w : Workspace) (localBuild : Option String) (releases : List Release) :
    Except LintError (List VersionToTest) :=
  releases.mapM fun r =>
    (Release.installPath w r.name localBuild).map fun p => ⟨r.name, p.toString⟩

/-- The rules with the options of the compile check filled in. -/
def withOptions (rules : RuleTable) (options : ExpectOptions) : RuleTable :=
  rules.put (LooseText.ofString expectRule) ⟨.error, [.expect options]⟩

/-- The compile check is on as an error. -/
def enforcesExpect (rules : RuleTable) : Bool :=
  match rules.get? (LooseText.ofString expectRule) with
  | some setting => setting.severity = .error
  | none => false

/-- The configuration for testing a project with the releases from `low` to `high`: from the file
`preferred` if it exists, else the default one. -/
def active (w : Workspace) (preferred tsconfig : Path) (low high : VersionArg)
    (localBuild : Option String) : Traced LintConfig := do
  let isThere ← Traced.ofExcept (LintError.atPath preferred (w.pathExists preferred))
  let file := if isThere then preferred else Bundled.default.path
  Traced.log .info .activeConfig ("Using lint config " ++ file.toString)
  let config ← load w file
  if enforcesExpect config.rules then
    let releases ← Traced.ofExcept (Release.rangeOf low high)
    Traced.log .info .activeConfig
      ("Testing TypeScript versions: " ++ ", ".intercalate (releases.map Release.name))
    let versions ← Traced.ofExcept (versionsToTest w localBuild releases)
    return ⟨withOptions config.rules ⟨tsconfig.toString, versions⟩, config.source⟩
  else
    Traced.fail (.expect .notEnforced)

end DeclLint.Config
