/-
DeclLint/Proofs/Compiler/Diagnostic.lean

Reading an error that a compiler printed.  An error about a place is printed
as `file(line,character): error TSn: message`, on one line.  The line is taken apart
at the first place in it; this is the one that was printed unless the name of the file
holds another (`splitFile?_text`), for a place has one opening parenthesis only and
starts with it, so none starts in the name and ends behind it
(`holdsPlace_of_located?_append`).

An output of such a line holds a diagnostic, and is refused where the line number has
too many digits (`read_text_of_long`).
-/
import DeclLint.Compiler.Start

namespace DeclLint

/-! ### Lines -/

namespace Text

/-- The text holds no line boundary. -/
def isUnbroken (cs : List Char) : Bool :=
  cs.all (!isLineBoundary ·)

theorem isUnbroken_append_iff {cs ds : List Char} :
    isUnbroken (cs ++ ds) = true ↔ isUnbroken cs = true ∧ isUnbroken ds = true := by
  rw [isUnbroken, List.all_append, Bool.and_eq_true]
  rfl

theorem isUnbroken_cons_iff {c : Char} {cs : List Char} :
    isUnbroken (c :: cs) = true ↔ isLineBoundary c = false ∧ isUnbroken cs = true := by
  rw [isUnbroken, List.all_cons, Bool.and_eq_true, Bool.not_eq_true']
  rfl

/-- A character that ends no line belongs to the first line. -/
theorem lines_cons {c : Char} (hc : isLineBoundary c = false) (cs : List Char) :
    lines (c :: cs) =
      match lines cs with
      | [] => [[c]]
      | l :: ls => (c :: l) :: ls := by
  have hreturn : ∀ cs', c = '\r' → cs = '\n' :: cs' → False := by
    rintro cs' rfl -
    exact absurd hc (by decide)
  rw [lines.eq_3 _ _ hreturn, hc]
  rfl

/-- A text without a line boundary is one line. -/
theorem lines_of_isUnbroken {cs : List Char} (hne : cs ≠ []) (h : isUnbroken cs = true) :
    lines cs = [cs] := by
  induction cs with
  | nil => exact absurd rfl hne
  | cons c cs ih =>
    obtain ⟨hc, hcs⟩ := isUnbroken_cons_iff.mp h
    rw [lines_cons hc]
    cases cs with
    | nil => rfl
    | cons d cs => rw [ih (List.cons_ne_nil d cs) hcs]

/-- Digits end no line. -/
theorem isUnbroken_of_digits {ds : List Char} (h : ds.all isDigit = true) :
    isUnbroken ds = true := by
  have hboundary : ['\n', '\r', '\x0b', '\x0c', '\x1c', '\x1d', '\x1e', '\x85', '\u2028',
      '\u2029'].all (!isDigit ·) = true := by
    decide
  refine List.all_eq_true.mpr fun c hc => ?_
  refine (Bool.not_eq_true' _).mpr (decide_eq_false fun hmem => ?_)
  have hdigit := List.all_eq_true.mp hboundary c hmem
  rw [List.all_eq_true.mp h c hc] at hdigit
  cases hdigit

end Text

namespace Diagnostic

/-! ### Numerals -/

/-- A row of digits, at least one. -/
structure IsNumeral (ds : List Char) : Prop where
  ne_nil : ds ≠ []
  digits : ds.all Text.isDigit = true

theorem digits?_append {ds : List Char} (h : IsNumeral ds) (c : Char)
    (hc : Text.isDigit c = false) (rest : List Char) :
    digits? (ds ++ c :: rest) = some (ds, c :: rest) := by
  have hds := List.all_eq_true.mp h.digits
  have htake : (ds ++ c :: rest).takeWhile Text.isDigit = ds := by
    rw [List.takeWhile_append_of_pos hds, List.takeWhile_cons_of_neg (by simp [hc]),
      List.append_nil]
  have hdrop : (ds ++ c :: rest).dropWhile Text.isDigit = c :: rest := by
    rw [List.dropWhile_append_of_pos hds, List.dropWhile_cons_of_neg (by simp [hc])]
  rw [digits?, htake, hdrop]
  exact if_neg (by simpa using h.ne_nil)

/-! ### Printed errors -/

/-- The parts of an error about a place in a file, as they are printed. -/
structure Printed where
  file : List Char
  line : List Char
  character : List Char
  number : List Char
  message : List Char

namespace Printed

/-- What follows the place. -/
def reportText (p : Printed) : List Char :=
  "error TS".toList ++ (p.number ++ (": ".toList ++ p.message))

/-- What follows the name of the file. -/
def placeText (p : Printed) : List Char :=
  ['('] ++ (p.line ++ ([','] ++ (p.character ++ ("): ".toList ++ p.reportText))))

/-- The printed line. -/
def text (p : Printed) : List Char :=
  p.file ++ p.placeText

/-- The numbers are numbers. -/
structure HasNumerals (p : Printed) : Prop where
  line : IsNumeral p.line
  character : IsNumeral p.character
  number : IsNumeral p.number

/-- The numbers are numbers, and the line can be taken apart in one way only. -/
structure IsPlain (p : Printed) : Prop where
  file_ne_nil : p.file ≠ []
  file_paren : '(' ∉ p.file
  file_unbroken : Text.isUnbroken p.file = true
  line : IsNumeral p.line
  character : IsNumeral p.character
  number : IsNumeral p.number
  message_unbroken : Text.isUnbroken p.message = true

/-- What is read of it. -/
def report (p : Printed) : Report :=
  ⟨"TS".toList ++ p.number, p.message⟩

variable {p : Printed}

theorem IsPlain.hasNumerals (h : p.IsPlain) : p.HasNumerals :=
  ⟨h.line, h.character, h.number⟩

theorem report?_reportText (h : IsNumeral p.number) : report? p.reportText = some p.report := by
  have hword : Text.afterPrefix? "error TS".toList p.reportText =
      some (p.number ++ ':' :: ' ' :: p.message) :=
    Text.afterPrefix?_eq_some_iff.mpr rfl
  have hnumber := digits?_append h ':' (by decide) (' ' :: p.message)
  have hcolon : Text.afterPrefix? ": ".toList (':' :: ' ' :: p.message) = some p.message :=
    Text.afterPrefix?_eq_some_iff.mpr rfl
  simp only [report?, hword, hnumber, hcolon, Option.bind_eq_bind, Option.bind_some]
  rfl

theorem located?_placeText (h : p.HasNumerals) :
    located? p.placeText = some (⟨p.line, p.character⟩, p.report) := by
  have hopen : Text.afterPrefix? ['('] p.placeText =
      some (p.line ++ ',' :: (p.character ++ ("): ".toList ++ p.reportText))) :=
    Text.afterPrefix?_eq_some_iff.mpr rfl
  have hline := digits?_append h.line ',' (by decide)
    (p.character ++ ("): ".toList ++ p.reportText))
  have hcomma : Text.afterPrefix? [','] (',' :: (p.character ++ ("): ".toList ++ p.reportText))) =
      some (p.character ++ ')' :: ':' :: ' ' :: p.reportText) :=
    Text.afterPrefix?_eq_some_iff.mpr rfl
  have hcharacter := digits?_append h.character ')' (by decide) (':' :: ' ' :: p.reportText)
  have hclose : Text.afterPrefix? "): ".toList (')' :: ':' :: ' ' :: p.reportText) =
      some p.reportText :=
    Text.afterPrefix?_eq_some_iff.mpr rfl
  simp only [located?, hopen, hline, hcomma, hcharacter, hclose, report?_reportText h.number,
    Option.bind_eq_bind, Option.bind_some]
  rfl

end Printed

/-! ### Taking printed errors apart -/

theorem digits?_eq_some {cs ds rest : List Char} (h : digits? cs = some (ds, rest)) :
    IsNumeral ds ∧ cs = ds ++ rest := by
  rw [digits?] at h
  split at h
  · cases h
  · next hne =>
    obtain ⟨rfl, rfl⟩ := Prod.mk.inj (Option.some.inj h)
    exact ⟨⟨by simpa using hne, List.all_takeWhile⟩, List.takeWhile_append_dropWhile.symm⟩

theorem report?_eq_some {cs : List Char} {r : Report} (h : report? cs = some r) :
    ∃ number message, IsNumeral number ∧
      cs = "error TS".toList ++ (number ++ (": ".toList ++ message)) := by
  obtain ⟨rest, hword, h⟩ := Option.bind_eq_some_iff.mp h
  obtain ⟨⟨number, rest'⟩, hnumber, h⟩ := Option.bind_eq_some_iff.mp h
  obtain ⟨message, hcolon, -⟩ := Option.bind_eq_some_iff.mp h
  obtain ⟨hnumeral, rfl⟩ := digits?_eq_some hnumber
  obtain rfl := Text.afterPrefix?_eq_some_iff.mp hcolon
  exact ⟨number, message, hnumeral, Text.afterPrefix?_eq_some_iff.mp hword⟩

/-- What starts with a place was printed, without the name of a file. -/
theorem located?_eq_some {cs : List Char} {found : PrintedPlace × Report}
    (h : located? cs = some found) :
    ∃ p : Printed, p.HasNumerals ∧ p.file = [] ∧ cs = p.text := by
  obtain ⟨cs₁, hopen, h⟩ := Option.bind_eq_some_iff.mp h
  obtain ⟨⟨line, cs₂⟩, hline, h⟩ := Option.bind_eq_some_iff.mp h
  obtain ⟨cs₃, hcomma, h⟩ := Option.bind_eq_some_iff.mp h
  obtain ⟨⟨character, cs₄⟩, hcharacter, h⟩ := Option.bind_eq_some_iff.mp h
  obtain ⟨cs₅, hclose, h⟩ := Option.bind_eq_some_iff.mp h
  obtain ⟨r, hreport, -⟩ := Option.bind_eq_some_iff.mp h
  obtain ⟨hlineDigits, rfl⟩ := digits?_eq_some hline
  obtain ⟨hcharacterDigits, rfl⟩ := digits?_eq_some hcharacter
  obtain ⟨number, message, hnumber, rfl⟩ := report?_eq_some hreport
  obtain rfl := Text.afterPrefix?_eq_some_iff.mp hclose
  obtain rfl := Text.afterPrefix?_eq_some_iff.mp hcomma
  obtain rfl := Text.afterPrefix?_eq_some_iff.mp hopen
  exact ⟨⟨[], line, character, number, message⟩, ⟨hlineDigits, hcharacterDigits, hnumber⟩, rfl,
    rfl⟩

namespace Printed

/-- What stands between the parenthesis that opens the place and the message. -/
def inner (p : Printed) : List Char :=
  p.line ++ ([','] ++ (p.character ++ ("): ".toList ++ ("error TS".toList ++
    (p.number ++ ": ".toList)))))

theorem text_eq (p : Printed) : p.text = p.file ++ '(' :: (p.inner ++ p.message) := by
  have hplace : p.inner ++ p.message =
      p.line ++ ([','] ++ (p.character ++ ("): ".toList ++ p.reportText))) := by
    unfold inner reportText
    simp only [List.append_assoc]
  rw [hplace]
  rfl

theorem paren_notMem_of_isNumeral {ds : List Char} (h : IsNumeral ds) : '(' ∉ ds := by
  have hparen : Text.isDigit '(' = false := by decide
  intro hmem
  have hdigit := List.all_eq_true.mp h.digits '(' hmem
  rw [hparen] at hdigit
  cases hdigit

theorem paren_notMem_inner {p : Printed} (h : p.HasNumerals) : '(' ∉ p.inner := by
  simp only [inner, List.mem_append, not_or]
  exact ⟨paren_notMem_of_isNumeral h.line, by decide, paren_notMem_of_isNumeral h.character,
    by decide, by decide, paren_notMem_of_isNumeral h.number, by decide⟩

end Printed

/-- A place occurs in the text, with an error behind it. -/
def HoldsPlace (cs : List Char) : Prop :=
  ∃ p : Printed, p.HasNumerals ∧ cs = p.text

theorem holdsPlace_iff {cs : List Char} :
    HoldsPlace cs ↔ ∃ p : Printed, p.HasNumerals ∧
      ∃ before after, cs = before ++ '(' :: (p.inner ++ after) := by
  constructor
  · rintro ⟨p, hp, rfl⟩
    exact ⟨p, hp, p.file, p.message, p.text_eq⟩
  · rintro ⟨p, hp, before, after, rfl⟩
    exact ⟨{ p with file := before, message := after }, ⟨hp.line, hp.character, hp.number⟩,
      (Printed.text_eq { p with file := before, message := after }).symm⟩

theorem HoldsPlace.cons {cs : List Char} (h : HoldsPlace cs) (c : Char) : HoldsPlace (c :: cs) := by
  obtain ⟨p, hp, before, after, rfl⟩ := holdsPlace_iff.mp h
  exact holdsPlace_iff.mpr ⟨p, hp, c :: before, after, rfl⟩

/-- A place does not start in front of a parenthesis and end behind it. -/
theorem holdsPlace_of_located?_append {cs ds : List Char} {found : PrintedPlace × Report}
    (hne : cs ≠ []) (h : located? (cs ++ '(' :: ds) = some found) : HoldsPlace cs := by
  obtain ⟨p, hp, hfile, htext⟩ := located?_eq_some h
  obtain ⟨c, cs, rfl⟩ := List.exists_cons_of_ne_nil hne
  rw [Printed.text_eq, hfile, List.nil_append, List.cons_append] at htext
  obtain ⟨rfl, hrest⟩ := List.cons_eq_cons.mp htext
  rcases List.append_eq_append_iff.mp hrest with ⟨excess, hinner, hexcess⟩ | ⟨message, rfl, -⟩
  · cases excess with
    | nil => exact holdsPlace_iff.mpr ⟨p, hp, [], [], by simpa using hinner.symm⟩
    | cons d excess =>
      obtain ⟨rfl, -⟩ := List.cons_eq_cons.mp hexcess
      exact absurd (hinner ▸ by simp) (Printed.paren_notMem_inner hp)
  · exact holdsPlace_iff.mpr ⟨p, hp, [], message, rfl⟩

namespace Printed

variable {p : Printed}

/-- **A printed error is split where it was put together**, if no place stands in the name of its
file. -/
theorem splitFile?_text (h : p.HasNumerals) (hne : p.file ≠ []) (hfile : ¬ HoldsPlace p.file) :
    splitFile? p.text = some (p.file, ⟨p.line, p.character⟩, p.report) := by
  have hsplit : ∀ file : List Char, file ≠ [] → ¬ HoldsPlace file →
      splitFile? (file ++ p.placeText) = some (file, ⟨p.line, p.character⟩, p.report) := by
    intro file
    induction file with
    | nil => exact fun hne => absurd rfl hne
    | cons c cs ih =>
      intro _ hplace
      have hcs : ¬ HoldsPlace cs := fun h => hplace (h.cons c)
      rw [List.cons_append, splitFile?]
      cases cs with
      | nil => rw [List.nil_append, located?_placeText h]
      | cons d cs =>
        have hnone : located? (d :: cs ++ p.placeText) = none :=
          Option.eq_none_iff_forall_ne_some.mpr fun _ hsome =>
            hcs (holdsPlace_of_located?_append (List.cons_ne_nil d cs) hsome)
        rw [hnone, ih (List.cons_ne_nil d cs) hcs]
        rfl
  exact hsplit p.file hne hfile

theorem IsPlain.not_holdsPlace (h : p.IsPlain) : ¬ HoldsPlace p.file := by
  rintro ⟨q, -, hq⟩
  refine h.file_paren (hq ▸ ?_)
  rw [text_eq]
  simp

/-- A printed error is read as what it was printed from. -/
theorem classify_text (h : p.IsPlain) :
    classify p.text = .inFile p.file ⟨p.line, p.character⟩ p.report := by
  simp only [classify, splitFile?_text h.hasNumerals h.file_ne_nil h.not_holdsPlace]

theorem isUnbroken_reportText (hnumber : IsNumeral p.number)
    (hmessage : Text.isUnbroken p.message = true) : Text.isUnbroken p.reportText = true :=
  Text.isUnbroken_append_iff.mpr ⟨by decide, Text.isUnbroken_append_iff.mpr
    ⟨Text.isUnbroken_of_digits hnumber.digits, Text.isUnbroken_append_iff.mpr
      ⟨by decide, hmessage⟩⟩⟩

theorem isUnbroken_text (h : p.HasNumerals) (hfile : Text.isUnbroken p.file = true)
    (hmessage : Text.isUnbroken p.message = true) : Text.isUnbroken p.text = true := by
  have hcharacter : Text.isUnbroken (p.character ++ ("): ".toList ++ p.reportText)) = true :=
    Text.isUnbroken_append_iff.mpr ⟨Text.isUnbroken_of_digits h.character.digits,
      Text.isUnbroken_append_iff.mpr ⟨by decide, isUnbroken_reportText h.number hmessage⟩⟩
  have hplace : Text.isUnbroken p.placeText = true :=
    Text.isUnbroken_append_iff.mpr ⟨by decide, Text.isUnbroken_append_iff.mpr
      ⟨Text.isUnbroken_of_digits h.line.digits,
        Text.isUnbroken_append_iff.mpr ⟨by decide, hcharacter⟩⟩⟩
  exact Text.isUnbroken_append_iff.mpr ⟨hfile, hplace⟩

theorem lines_text (h : p.IsPlain) : Text.lines p.text = [p.text] := by
  have hne : p.text ≠ [] := fun he => h.file_ne_nil (List.append_eq_nil_iff.mp he).1
  exact Text.lines_of_isUnbroken hne
    (isUnbroken_text h.hasNumerals h.file_unbroken h.message_unbroken)

theorem occursIn_text (h : p.IsPlain) : occursIn (String.ofList p.text) = true := by
  rw [occursIn, String.toList_ofList, lines_text h, List.any_cons, startsDiagnostic,
    classify_text h]
  rfl

/-- An output with a line number that has too many digits cannot be read. -/
theorem read_text_of_long (h : p.IsPlain) (hlong : digitLimit < p.line.length)
    (directory : Path) :
    read directory (String.ofList p.text) = .error (.digits p.line.length) := by
  have hexcess : lineExcess? p.text = some (.digits p.line.length) := by
    rw [lineExcess?, classify_text h]
    show (digitExcess? p.line).or _ = _
    rw [digitExcess?, if_pos hlong]
    rfl
  rw [read, String.toList_ofList, lines_text h, List.findSome?_cons, hexcess]

end Printed

end Diagnostic

/-- A compiler that printed a diagnostic did not crash, whatever its exit code. -/
theorem Compiler.outputOf_of_occursIn {stdout : String} (h : Diagnostic.occursIn stdout = true)
    (script : Path) (stderr : String) (code : Int) :
    Compiler.outputOf script (.finished stdout stderr code) = .ok stdout := by
  refine if_neg fun hcrash => ?_
  rw [h] at hcrash
  cases hcrash.2

end DeclLint
