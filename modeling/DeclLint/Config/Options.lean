/-
DeclLint/Config/Options.lean

Reading the options of the rule that runs compilers from its arguments.  The
first argument counts: options that the linter filled in are taken as they
are, a table is checked field by field.  A field is looked up under its
proper name first and under its second name then.  All complaints are listed.
-/
import DeclLint.Config.Rule
import DeclLint.Error

namespace DeclLint

namespace ExpectOptions

/-- The field of a table under one of two names, with the name that was found. -/
def field? (fields : List (LooseText × Json)) (first second : String) : Option (String × Json) :=
  match Json.valueOf? fields first with
  | some v => some (first, v)
  | none => (Json.valueOf? fields second).map fun v => (second, v)

/-- A text that is not empty. -/
def checkText (place : List PlaceStep) : Json → Except (List Complaint) String
  | .str t =>
    match t.toString? with
    | none => .error [⟨place, .looseText⟩]
    | some s => if s = "" then .error [⟨place, .emptyText⟩] else .ok s
  | _ => .error [⟨place, .notText⟩]

/-- A text that is not empty, in a field under one of two names. -/
def textField (place : List PlaceStep) (fields : List (LooseText × Json))
    (first second : String) : Except (List Complaint) String :=
  match field? fields first second with
  | none => .error [⟨place ++ [.key first], .missing⟩]
  | some (name, v) => checkText (place ++ [.key name]) v

/-- Both results, or the complaints of both. -/
def both {α β : Type} (x : Except (List Complaint) α) (y : Except (List Complaint) β) :
    Except (List Complaint) (α × β) :=
  match x, y with
  | .ok a, .ok b => .ok (a, b)
  | .ok _, .error es => .error es
  | .error es, .ok _ => .error es
  | .error es, .error fs => .error (es ++ fs)

/-- A compiler to test with. -/
def checkVersion (place : List PlaceStep) : Json → Except (List Complaint) VersionToTest
  | .obj fields =>
    (both (textField place fields "versionName" "version_name")
      (textField place fields "path" "path")).map fun (name, path) => ⟨name, path⟩
  | _ => .error [⟨place, .notTable "VersionToTest"⟩]

/-- The compilers of a list, the first of them at index `i`. -/
def checkVersions (place : List PlaceStep) (i : Nat) :
    List Json → Except (List Complaint) (List VersionToTest)
  | [] => .ok []
  | v :: vs =>
    (both (checkVersion (place ++ [.index i]) v) (checkVersions place (i + 1) vs)).map
      fun (w, ws) => w :: ws

/-- The compilers to test with: a list that is not empty. -/
def versionsField (fields : List (LooseText × Json)) :
    Except (List Complaint) (List VersionToTest) :=
  match field? fields "versionsToTest" "versions_to_test" with
  | none => .error [⟨[.key "versionsToTest"], .missing⟩]
  | some (name, .arr items) =>
    match checkVersions [.key name] 0 items with
    | .ok [] => .error [⟨[.key name], .emptyList⟩]
    | r => r
  | some (name, _) => .error [⟨[.key name], .notList⟩]

/-- The options that a value stands for. -/
def ofJson : Json → Except (List Complaint) ExpectOptions
  | .obj fields =>
    (both (textField [] fields "tsconfigPath" "tsconfig_path") (versionsField fields)).map
      fun (path, versions) => ⟨path, versions⟩
  | _ => .error [⟨[], .notTable "ExpectOptions"⟩]

/-- The options among the arguments of the rule. -/
def ofArguments : List RuleArgument → Except LintError ExpectOptions
  | [] => .error (.expect .noOptions)
  | .expect options :: _ => .ok options
  | .value v :: _ => (ofJson v).mapError fun cs => .expect (.invalidOptions cs)

end ExpectOptions

end DeclLint
