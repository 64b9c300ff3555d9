/-
DeclLint/Error.lean

The errors that end a run, each as its cause with what it is about, and one
function that words them.  Errors of the package under test (bad versions,
configuration or layout) and errors of the surroundings (a compiler that
crashes, a file that is no text) are told apart by `isInputError`.
-/
import DeclLint.Config.Complaint
import DeclLint.Files.Workspace
import DeclLint.Json.Reader
import DeclLint.Release.Range

namespace DeclLint

/-- A version as a caller names it: by a release, or by a value that ought to be a name. -/
inductive VersionArg where
  | release (r : Release)
  | value (v : Json)
deriving Repr

/-- Why a lint configuration cannot be loaded. -/
inductive ConfigFault where
  /-- A file extends itself, over the files of the chain. -/
  | circular (chain : List Path)
  /-- There is no such file. -/
  | absent (file : Path)
  /-- The file holds no JSON. -/
  | malformed (file : Path) (fault : Json.Misspelling)
  /-- The file holds no JSON object. -/
  | notObject (file : Path)
  /-- The rules of the file are refused. -/
  | invalid (file : Path) (complaints : List Complaint)
deriving Repr

/-- Why a project cannot be loaded. -/
inductive ProjectFault where
  /-- There is no tsconfig.json. -/
  | absent (file : Path)
  /-- The tsconfig.json cannot be read. -/
  | unreadable (file : Path) (fault : AccessFault)
  /-- The tsconfig.json holds no JSON. -/
  | malformed (file : Path) (fault : Json.Misspelling)
  /-- The tsconfig.json holds no JSON object. -/
  | notObject (file : Path)
  /-- A list of files or patterns is none. -/
  | notStrings (key : String) (file : Path)
  /-- A listed file does not exist. -/
  | listedAbsent (name : String) (root : Path)
deriving Repr

/-- Why the rule that runs the compilers cannot be applied. -/
inductive ExpectFault where
  /-- The rule is missing, off or a mere warning. -/
  | notEnforced
  /-- The rule was given no options. -/
  | noOptions
  /-- The options are refused. -/
  | invalidOptions (complaints : List Complaint)
deriving Repr

/-- Why the arguments of a run are refused. -/
inductive ArgumentFault where
  | rootAbsent (root : Path)
  | rootNotDirectory (root : Path)
  | noProjectFile (root : Path)
  | noLocalCompiler (directory : String)
  | unknownFormat (name : String)
deriving Repr

/-- Why a compiler gives no diagnostics. -/
inductive CompilerFault where
  /-- The script of the compiler does not exist. -/
  | absent (script : Path)
  /-- There is nothing to start the script with. -/
  | noLauncher (script : Path)
  /-- The system refuses to start the script. -/
  | refused (explanation : String)
  /-- The output of the compiler is no text. -/
  | garbled (explanation : String)
  /-- The compiler did not finish in time. -/
  | timedOut
  /-- The compiler failed without a diagnostic. -/
  | crashed (script : Path) (code : Int) (detail : String)
deriving Repr

/-- What ends a run. -/
inductive LintError where
  | unknownVersion (v : Json)
  | invalidRange (fault : RangeFault)
  /-- The declared minimum is newer than the release of a version folder. -/
  | skippedFolder (minimum : VersionArg) (folder : Release)
  | config (fault : ConfigFault)
  | rules (complaints : List Complaint)
  | project (fault : ProjectFault)
  | expect (fault : ExpectFault)
  | localCompilerMissing
  | argument (fault : ArgumentFault)
  | compiler (fault : CompilerFault)
  /-- The `extends` entry of a configuration is no list of names. -/
  | extendsShape (v : Json)
  /-- A configuration extends something that is no name. -/
  | extendsName (v : Json)
  /-- A file is no UTF-8 text. -/
  | undecodable (fault : Text.Utf8Fault)
  /-- What a path leads to cannot be looked at. -/
  | access (path : Path) (fault : AccessFault)
  /-- A text to be encoded, a path or an explanation, holds a surrogate that stands alone. -/
  | unencodable (text : LooseText)
  /-- A limit is exceeded. -/
  | excess (e : Excess)
  /-- A path holds the character NUL. -/
  | nulInPath
  /-- The home directory cannot be told from its variable. -/
  | homeUnknown
  /-- The run was interrupted. -/
  | interrupted
deriving Repr

/-- How long a compiler may run, in seconds. -/
def compilerTimeout : Nat := 600

/-- A version as a message shows it. -/
def VersionArg.display : VersionArg → String
  | .release (.shipped i) => "Shipped(position=" ++ toString i.val ++ ")"
  | .release .latest => "Latest()"
  | .release .localBuild => "Local()"
  | .value v => v.str?.getD v.display

/-- The explanation of a fault. -/
def ConfigFault.message : ConfigFault → String
  | .circular chain =>
    "Circular 'extends' in lint config: " ++ " -> ".intercalate (chain.map Path.toString)
  | .absent file => "Could not load config at " ++ file.toString
  | .malformed file fault => "Could not load config at " ++ file.toString ++ ": " ++ fault.message
  | .notObject file => "Config at " ++ file.toString ++ " must be a JSON object"
  | .invalid file _ => "Invalid config at " ++ file.toString ++ ": "

/-- The explanation of a fault. -/
def ProjectFault.message : ProjectFault → String
  | .absent file => "Could not find " ++ file.toString
  | .unreadable file fault => "Could not read " ++ file.toString ++ ": " ++ fault.message file
  | .malformed file fault => "Could not read " ++ file.toString ++ ": " ++ fault.message
  | .notObject file => file.toString ++ " must contain a JSON object"
  | .notStrings key file => "'" ++ key ++ "' in " ++ file.toString ++ " must be a list of strings"
  | .listedAbsent name root =>
    "File '" ++ name ++ "' listed in tsconfig.json not found in " ++ root.toString

/-- The explanation of a fault. -/
def ExpectFault.message : ExpectFault → String
  | .notEnforced => "'expect' rule should be enabled, else compile errors are ignored"
  | .noOptions => "'expect' rule requires tsconfigPath and versionsToTest options"
  | .invalidOptions _ => "Invalid 'expect' rule options: "

/-- The explanation of a fault. -/
def ArgumentFault.message : ArgumentFault → String
  | .rootAbsent root => "Project root does not exist: " ++ root.toString
  | .rootNotDirectory root => "Project root is not a directory: " ++ root.toString
  | .noProjectFile root => "No tsconfig.json found in " ++ root.toString
  | .noLocalCompiler directory =>
    "No typescript.js found in local TypeScript path: " ++ directory
  | .unknownFormat name => "Unknown formatter: " ++ name ++ ". Must be one of: json, stylish"

/-- The explanation of a fault. -/
def CompilerFault.message : CompilerFault → String
  | .absent script => "TypeScript compiler not found at " ++ script.toString
  | .noLauncher script =>
    "Could not run node to execute " ++ script.toString ++
      ": [Errno 2] No such file or directory: 'node'"
  | .refused explanation => explanation
  | .garbled explanation => explanation
  | .timedOut => "TypeScript compiler timed out after " ++ toString compilerTimeout ++ "s"
  | .crashed script code detail =>
    "TypeScript compiler " ++ script.toString ++ " failed with exit code " ++ toString code ++
      ": " ++ detail

/-- The word for the type of a value that is no string, list or table. -/
def valueType : Json → String
  | .null => "NoneType"
  | .bool _ => "bool"
  | .int _ => "int"
  | .float _ => "float"
  | .str _ => "str"
  | .arr _ => "list"
  | .obj _ => "dict"

/-- What is wrong with bytes that are no UTF-8. -/
def utf8Message (f : Text.Utf8Fault) : String :=
  let reason := match f.cause with
    | .invalidStart => "invalid start byte"
    | .invalidContinuation => "invalid continuation byte"
    | .unexpectedEnd => "unexpected end of data"
  let place := match f.bytes with
    | [b] =>
      "byte 0x" ++ String.ofList (Text.hex 2 b.toNat) ++ " in position " ++ toString f.start
    | bs => "bytes in position " ++ toString f.start ++ "-" ++ toString (f.start + bs.length - 1)
  "'utf-8' codec can't decode " ++ place ++ ": " ++ reason

/-- What is wrong with a text whose surrogates no UTF-8 encodes: the first row of them. -/
def surrogateMessage (t : LooseText) : String :=
  let isChar (p : Text.CodePoint) : Bool := p.toChar?.isSome
  let start := (t.takeWhile isChar).length
  let run := (t.dropWhile isChar).takeWhile (!isChar ·)
  let place := match run with
    | [p] => "character '" ++ LooseText.escaped [p] ++ "' in position " ++ toString start
    | ps => "characters in position " ++ toString start ++ "-" ++ toString (start + ps.length - 1)
  "'utf-8' codec can't encode " ++ place ++ ": surrogates not allowed"

namespace LintError

/-- A result that a look at a path gave, or the error that the look failed with. -/
def atPath {α : Type} (p : Path) (r : Except AccessFault α) : Except LintError α :=
  r.mapError (.access p)

/-- The explanation of an error.  Complaints about values are listed by `complaints`. -/
def message : LintError → String
  | .unknownVersion v =>
    "Unknown TypeScript version: " ++ v.display ++
      ". Expected one of 2.0..5.6, 'latest' or 'local'"
  | .invalidRange fault => fault.message
  | .skippedFolder minimum folder =>
    "'Minimum TypeScript Version: " ++ minimum.display ++ "' skips ts" ++ folder.name ++ " folder."
  | .config fault => fault.message
  | .rules _ => ""
  | .project fault => fault.message
  | .expect fault => fault.message
  | .localCompilerMissing => "TypeScript version 'local' requires a local TypeScript path"
  | .argument fault => fault.message
  | .compiler fault => fault.message
  | .extendsShape v => "'" ++ valueType v ++ "' object is not iterable"
  | .extendsName (.arr _) => "unhashable type: 'list'"
  | .extendsName (.obj _) => "unhashable type: 'dict'"
  | .extendsName v => "unsupported operand type(s) for /: 'PosixPath' and '" ++ valueType v ++ "'"
  | .undecodable fault => utf8Message fault
  | .access path fault => fault.message path
  | .unencodable text => surrogateMessage text
  | .excess e => e.message
  | .nulInPath => "embedded null byte"
  | .homeUnknown => "Could not determine home directory."
  | .interrupted => ""

/-- The complaints about values that an error stems from. -/
def complaints : LintError → List Complaint
  | .config (.invalid _ cs) => cs
  | .rules cs => cs
  | .expect (.invalidOptions cs) => cs
  | _ => []

/-- The explanation together with the complaints. -/
def fullMessage (e : LintError) : String :=
  e.message ++ Complaint.summary e.complaints

/-- The error is about the arguments, the versions, the configuration or the layout of the
package, or a file that is missing or no text. -/
def isInputError : LintError → Bool
  | .compiler (.refused _) => false
  | .compiler .timedOut => false
  | .compiler (.crashed ..) => false
  | .extendsShape _ => false
  | .extendsName _ => false
  | .homeUnknown => false
  | .access _ .missing => true
  | .access _ .nulCharacter => true
  | .access .. => false
  | .excess (.nesting _) => false
  | .interrupted => false
  | _ => true

end LintError

end DeclLint
