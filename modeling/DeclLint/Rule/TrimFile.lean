/-
DeclLint/Rule/TrimFile.lean

The rule `trim-file`: a file does not start with a blank line and does not
end in more than one newline.
-/
import DeclLint.Rule.Basic

namespace DeclLint.TrimFile

/-- The name of the rule. -/
def name : String := "trim-file"

/-- The text starts with a blank line. -/
def startsBlank (cs : List Char) : Bool :=
  ['\n'].isPrefixOf cs

/-- The text ends with a blank line. -/
def endsBlank (cs : List Char) : Bool :=
  ['\n', '\n'].isSuffixOf cs

/-- The failures in a file. -/
def failures (file : SourceFile) : List Failure :=
  let cs := file.text.toList
  (if startsBlank cs then
    [Failure.at file name 0 "File should not begin with a blank line."] else []) ++
  (if endsBlank cs then
    [Failure.at file name (cs.length - 1)
      ("File should not end with a blank line. " ++
        "(Ending in one newline OK, ending in two newlines not OK.)")] else [])

end DeclLint.TrimFile
