/-
DeclLint/Files/Text.lean

Reading files as text.  Configuration files have to be UTF-8, project files
may start with a byte order mark, and source files fall back to Latin-1.  In
each case line endings are unified.
-/
import DeclLint.Trace

namespace DeclLint.Files

/-- The text of a file in UTF-8. -/
def utf8Text (bytes : List UInt8) : Except Text.Utf8Fault (List Char) :=
  (Text.decodeUtf8 bytes).map Text.unifyNewlines

/-- The text of a file in UTF-8, without a byte order mark in front. -/
def markedUtf8Text (bytes : List UInt8) : Except Text.Utf8Fault (List Char) :=
  utf8Text (Text.dropMark bytes)

/-- The text of a source file, and whether Latin-1 had to be assumed. -/
def sourceText (bytes : List UInt8) : List Char × Bool :=
  match markedUtf8Text bytes with
  | .ok cs => (cs, false)
  | .error _ => (Text.unifyNewlines (Text.decodeLatin1 bytes), true)

/-- Reads a source file.  A file that cannot be read gives none, with a warning. -/
def readSource (w : Workspace) (p : Path) : Traced (Option String) :=
  match w.readBytes p with
  | .ok bytes => do
    let (cs, fallback) := sourceText bytes
    if fallback then
      Traced.log .warning .sourceReader
        ("File " ++ p.toString ++ " is not valid UTF-8, reading as latin-1")
    return some (String.ofList cs)
  | .error .missing => do
    Traced.log .warning .sourceReader ("File not found, skipping: " ++ p.toString)
    return none
  | .error .nulCharacter => Traced.fail .nulInPath
  | .error fault => do
    Traced.log .warning .sourceReader
      ("Error reading file " ++ p.toString ++ ", skipping: " ++ fault.message p)
    return none

end DeclLint.Files
