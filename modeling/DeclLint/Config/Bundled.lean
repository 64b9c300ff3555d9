/-
DeclLint/Config/Bundled.lean

The configurations that come with the linter: the default one with all of
its rules, and one with the compile check alone.  Configuration files refer
to them by names, among them the names that packages have long used.
-/
import DeclLint.Files.Tree
import DeclLint.Path.Basic

namespace DeclLint.Config

/-- A configuration that comes with the linter. -/
inductive Bundled where
  | default
  | expectOnly
deriving DecidableEq, Repr

namespace Bundled

/-- The directory of the bundled files. -/
def directory : Place := ["BUILTIN"]

/-- The name of a bundled file. -/
def fileName : Bundled → String
  | .default => "dts-lint.json"
  | .expectOnly => "dts-lint-expect-only.json"

/-- The path of a bundled file. -/
def path (b : Bundled) : Path :=
  ⟨.single, directory ++ [b.fileName]⟩

/-- The contents of a bundled file. -/
def text : Bundled → String
  | .default =>
    "\x7b\"rules\": \x7b\"expect\": true, " ++
      "\"no-dead-reference\": true, \"trim-file\": true\x7d\x7d\n"
  | .expectOnly => "\x7b\"rules\": \x7b\"expect\": true\x7d\x7d\n"

/-- The names that configuration files use for the bundled ones. -/
def names : List (String × Bundled) := [
  ("dts-lint:default", .default),
  ("dts-lint:expect-only", .expectOnly),
  ("dtslint/dtslint.json", .default),
  ("dtslint/dtslint-expect-only.json", .expectOnly),
  ("@definitelytyped/dtslint/dtslint.json", .default),
  ("@definitelytyped/dtslint/dtslint-expect-only.json", .expectOnly)]

/-- The bundled configuration with a given name. -/
def ofName? (name : String) : Option Bundled :=
  names.lookup name

/-- A tree with the bundled files in their directory. -/
def install (t : FileTree) : FileTree :=
  [Bundled.default, .expectOnly].foldl
    (fun t b => t.writeFile (directory ++ [b.fileName]) b.text.toUTF8.toList) t

end Bundled

end DeclLint.Config
