/-
DeclLint/CommandLine/Arguments.lean

Reading the words of a command.  Options may stand anywhere before a double
hyphen; a value follows its option as the next word or after an equals sign.
A later value replaces an earlier one.  The first unknown or ill-used option
is reported; a request for the version or the help is answered next; then the
values are checked in the order of their options, that of the directory last,
and superfluous words are refused.
-/
import DeclLint.Release.Basic
import DeclLint.Report

namespace DeclLint.CommandLine

/-- The options of the command. -/
inductive Opt where
  | version
  | minVersion
  | onlyNewest
  | expectOnly
  | localBuild
  | format
  | progress
  | noProgress
  | verbose
  | quiet
  | help
deriving DecidableEq, Repr

namespace Opt

/-- All options. -/
def all : List Opt :=
  [.version, .minVersion, .onlyNewest, .expectOnly, .localBuild, .format, .progress, .noProgress,
    .verbose, .quiet, .help]

/-- How an option is written. -/
def word : Opt → String
  | .version => "--version"
  | .minVersion => "--min-version"
  | .onlyNewest => "--only-test-ts-next"
  | .expectOnly => "--expect-only"
  | .localBuild => "--local-ts"
  | .format => "--format"
  | .progress => "--progress"
  | .noProgress => "--no-progress"
  | .verbose => "--verbose"
  | .quiet => "--quiet"
  | .help => "--help"

/-- The option takes a value. -/
def takesValue : Opt → Bool
  | .minVersion | .localBuild | .format => true
  | _ => false

/-- The option that a word writes. -/
def ofWord? (s : String) : Option Opt :=
  all.find? (·.word = s)

end Opt

/-- Why words are no command. -/
inductive UsageFault where
  | noSuchOption
  | optionValue
  | badValue
  /-- The character NUL in a path. -/
  | nulCharacter
  | extraWords
deriving DecidableEq, Repr

/-- The options of a command with their values, and its other words. -/
structure Words where
  options : List (Opt × String)
  others : List String
deriving DecidableEq, Repr

namespace Words

/-- One more option in front. -/
def withOption (o : Opt) (value : String) (w : Words) : Words :=
  { w with options := (o, value) :: w.options }

/-- One more word in front. -/
def withOther (s : String) (w : Words) : Words :=
  { w with others := s :: w.others }

/-- A word starts with a hyphen and is not just that. -/
def isOptionWord (s : String) : Bool :=
  match s.toList with
  | '-' :: _ :: _ => true
  | _ => false

/-- An option word before and after its first equals sign. -/
def splitValue (s : String) : String × Option String :=
  let cs := s.toList
  match cs.dropWhile (· != '=') with
  | [] => (s, none)
  | _ :: value => (String.ofList (cs.takeWhile (· != '=')), some (String.ofList value))

/-- Sorts the words of a command into options and others. -/
def scan : List String → Except UsageFault Words
  | [] => .ok ⟨[], []⟩
  | s :: rest =>
    if s = "--" then .ok ⟨[], rest⟩
    else if isOptionWord s then
      let (word, value) := splitValue s
      match Opt.ofWord? word with
      | none => .error .noSuchOption
      | some o =>
        match o.takesValue, value, rest with
        | true, some v, rest => (scan rest).map (withOption o v)
        | true, none, v :: rest => (scan rest).map (withOption o v)
        | true, none, [] => .error .optionValue
        | false, some _, _ => .error .optionValue
        | false, none, rest => (scan rest).map (withOption o "")
    else (scan rest).map (withOther s)

/-- The last value of an option. -/
def value? (w : Words) (o : Opt) : Option String :=
  (w.options.reverse.find? (·.1 = o)).map (·.2)

/-- The option is given. -/
def has (w : Words) (o : Opt) : Bool :=
  (w.value? o).isSome

/-- A progress bar is asked for, and not declined afterwards. -/
def showsProgress (w : Words) : Bool :=
  match w.options.reverse.find? fun e => e.1 = .progress || e.1 = .noProgress with
  | some (o, _) => o = .progress
  | none => false

end Words

/-- What a command asks to be linted, and how. -/
structure Arguments where
  directory : String
  minVersion : String
  onlyNewest : Bool
  expectOnly : Bool
  localBuild : Option String
  format : Report.Format
  /-- A bar on standard error shows how far a pass is.  Nothing else depends on it. -/
  progress : Bool
  verbose : Bool
  quiet : Bool
deriving DecidableEq, Repr

/-- What a command asks for. -/
inductive Request where
  | lint (arguments : Arguments)
  | version
  | help
deriving DecidableEq, Repr

/-- What is asked for in place of a run, by the first such option. -/
def immediate? (w : Words) : Option Request :=
  w.options.findSome? fun e =>
    match e.1 with
    | .version => some .version
    | .help => some .help
    | _ => none

/-- A path that may name a directory, where `isFile` tells whether it leads to a file. -/
def checkDirectory (isFile : String → Bool) (s : String) : Except UsageFault Unit :=
  if s.toList.contains '\x00' then .error .nulCharacter
  else if isFile s then .error .badValue
  else .ok ()

/-- The last value of an option, if it is one that is checked, is in order. -/
def checkOption (isFile : String → Bool) (w : Words) (o : Opt) : Except UsageFault Unit :=
  match o, w.value? o with
  | .localBuild, some s => checkDirectory isFile s
  | .format, some s => if (Report.Format.ofName? s).isSome then .ok () else .error .badValue
  | _, _ => .ok ()

/-- The request that words make, where `isFile` tells whether a path leads to a file. -/
def requestOf (isFile : String → Bool) (w : Words) : Except UsageFault Request :=
  match immediate? w with
  | some r => .ok r
  | none => do
    w.options.forM fun e => checkOption isFile w e.1
    let directory := w.others.head?.getD "."
    checkDirectory isFile directory
    if 1 < w.others.length then .error .extraWords
    else
      return .lint
        { directory := directory
          minVersion := (w.value? .minVersion).getD Release.lowestSupported.name
          onlyNewest := w.has .onlyNewest
          expectOnly := w.has .expectOnly
          localBuild := w.value? .localBuild
          format := ((w.value? .format).bind Report.Format.ofName?).getD .stylish
          progress := w.showsProgress
          verbose := w.has .verbose
          quiet := w.has .quiet }

/-- The request that the words of a command make. -/
def parse (isFile : String → Bool) (words : List String) : Except UsageFault Request := do
  let w ← Words.scan words
  requestOf isFile w

end DeclLint.CommandLine
