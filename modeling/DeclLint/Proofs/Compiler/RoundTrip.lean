/-
DeclLint/Proofs/Compiler/RoundTrip.lean

What a compiler prints is read back.  An error is printed as a block: a first line with
its place, if it has one, and a line for each further text of its message, indented by
two blanks.  Between the blocks there may be lines that are neither an error nor
indented (`Prints`).  Reading the lines joined by newlines gives the errors in their
order, unless one of their numbers has more digits than can be read
(`read_of_prints`).

Each line is read as what it was printed for (`classify_firstLine_of_place`,
`classify_firstLine_of_noPlace`, `classify_indented`): no place is found where none was
printed, since none of the texts holds one.  So a block adds its error to those found so
far, and the other lines add nothing (`foldl_step_of_prints`).
-/
import DeclLint.Proofs.Compiler.Diagnostic
import Mathlib.Algebra.Group.Nat.Defs

namespace DeclLint

/-! ### Numbers and lines -/

namespace Text

theorem digit?_digitChar : ∀ d < 10, digit? (Nat.digitChar d) = some d := by
  decide +kernel

/-- The decimal digits of a number are digits, and they write the number. -/
theorem digits_numeral_toDigits (n : Nat) :
    (Nat.toDigits 10 n).all isDigit = true ∧ numeral (Nat.toDigits 10 n) = n := by
  induction n using Nat.strongRecOn with
  | ind n ih =>
    rcases Nat.lt_or_ge n 10 with hlt | hle
    · rw [Nat.toDigits_of_lt_base hlt]
      simp [isDigit, numeral, digit?_digitChar n hlt]
    · obtain ⟨hdigits, hnumeral⟩ := ih (n / 10) (by omega)
      have hlast := digit?_digitChar (n % 10) (by omega)
      rw [Nat.toDigits_of_base_le (by decide) hle]
      refine ⟨?_, ?_⟩
      · simp [hdigits, isDigit, hlast]
      · rw [numeral_append_singleton, hnumeral, hlast, Option.getD_some]
        omega

theorem lines_append_newline {cs : List Char} (h : isUnbroken cs = true) (ds : List Char) :
    lines (cs ++ '\n' :: ds) = cs :: lines ds := by
  induction cs with
  | nil => rfl
  | cons c cs ih =>
    obtain ⟨hc, hcs⟩ := isUnbroken_cons_iff.mp h
    rw [List.cons_append, lines_cons hc, ih hcs]

/-- Lines joined by newlines are the lines of the text, but for an empty one at the end. -/
theorem lines_intercalate {ls : List (List Char)} (h : ∀ l ∈ ls, isUnbroken l = true) :
    lines (['\n'].intercalate ls) = ls ∨ lines (['\n'].intercalate ls) ++ [[]] = ls := by
  induction ls with
  | nil => exact .inl rfl
  | cons l ls ih =>
    obtain ⟨hl, hls⟩ := List.forall_mem_cons.mp h
    cases ls with
    | nil =>
      rw [List.intercalate_singleton]
      cases l with
      | nil => exact .inr rfl
      | cons c cs => exact .inl (lines_of_isUnbroken (List.cons_ne_nil c cs) hl)
    | cons l' ls =>
      have hjoin : ['\n'].intercalate (l :: l' :: ls) =
          l ++ '\n' :: ['\n'].intercalate (l' :: ls) := by
        rw [List.intercalate_cons_cons]
        simp
      rw [hjoin, lines_append_newline hl]
      exact (ih hls).imp (congrArg (l :: ·)) (congrArg (l :: ·))

end Text

namespace Diagnostic

/-! ### Output -/

/-- A place in a file.  Lines and characters count from zero. -/
structure Place where
  file : List Char
  line : Nat
  character : Nat

/-- An error: its place, if it has one, the number of its code, its message, and the further texts
of the message. -/
structure Entry where
  place? : Option Place
  number : List Char
  message : List Char
  more : List (List Char)

/-- An error at the place, as it is printed.  There, lines and characters count from one. -/
def Place.printed (p : Place) (number message : List Char) : Printed :=
  ⟨p.file, Nat.toDigits 10 (p.line + 1), Nat.toDigits 10 (p.character + 1), number, message⟩

/-- The text `error TSn: message`. -/
def errorText (number message : List Char) : List Char :=
  "error TS".toList ++ (number ++ (": ".toList ++ message))

/-- An indented line. -/
def indented (text : List Char) : List Char :=
  ' ' :: ' ' :: text

namespace Entry

/-- The first line of an error. -/
def firstLine (e : Entry) : List Char :=
  match e.place? with
  | some p => (p.printed e.number e.message).text
  | none => errorText e.number e.message

/-- The lines of an error. -/
def lines (e : Entry) : List (List Char) :=
  e.firstLine :: e.more.map indented

/-- The error as a diagnostic of a compiler that ran in the directory. -/
def diagnostic (directory : Path) (e : Entry) : Diagnostic where
  file := e.place?.map fun p => fileName directory p.file
  line := e.place?.elim 0 fun p => p.line
  character := e.place?.elim 0 fun p => p.character
  code := String.ofList ("TS".toList ++ e.number)
  message := String.ofList (['\n'].intercalate (e.message :: e.more))

/-- The error can be told from its lines: no text ends a line, the further texts are stripped, and
no place stands in the name of the file, in a message without a file, or in a further text. -/
structure IsPrintable (e : Entry) : Prop where
  file : ∀ p ∈ e.place?, p.file ≠ [] ∧ Text.isUnbroken p.file = true ∧ ¬ HoldsPlace p.file
  number : IsNumeral e.number
  message : Text.isUnbroken e.message = true ∧ (e.place? = none → ¬ HoldsPlace e.message)
  more : ∀ t ∈ e.more, Text.isUnbroken t = true ∧ Text.strip t = t ∧ ¬ HoldsPlace t

/-- The numbers of the place have no more digits than can be read. -/
def Fits (e : Entry) : Prop :=
  ∀ p ∈ e.place?, (Nat.toDigits 10 (p.line + 1)).length ≤ digitLimit ∧
    (Nat.toDigits 10 (p.character + 1)).length ≤ digitLimit

end Entry

/-- The line is neither an error, about a place or about the project, nor indented. -/
structure IsOther (l : List Char) : Prop where
  unbroken : Text.isUnbroken l = true
  inFile : ∀ p : Printed, p.HasNumerals → p.file ≠ [] → l ≠ p.text
  inProject : ∀ number message, IsNumeral number → l ≠ errorText number message
  indent : ∀ text, l ≠ indented text

/-- The lines that print errors, with other lines before, between and behind them. -/
inductive Prints : List Entry → List (List Char) → Prop
  | nil : Prints [] []
  | other {es : List Entry} {l : List Char} {ls : List (List Char)} (hl : IsOther l)
      (h : Prints es ls) : Prints es (l :: ls)
  | entry {es : List Entry} {ls : List (List Char)} (e : Entry) (h : Prints es ls) :
      Prints (e :: es) (e.lines ++ ls)

variable {directory : Path} {e : Entry} {es : List Entry} {l t : List Char}
  {ls : List (List Char)}

/-! ### What the lines are -/

theorem isNumeral_toDigits (n : Nat) : IsNumeral (Nat.toDigits 10 n) :=
  ⟨Nat.toDigits_ne_nil, (Text.digits_numeral_toDigits n).1⟩

theorem Entry.IsPrintable.hasNumerals (he : e.IsPrintable) (p : Place) :
    (p.printed e.number e.message).HasNumerals :=
  ⟨isNumeral_toDigits _, isNumeral_toDigits _, he.number⟩

theorem splitFile?_ne_none_of_text {p : Printed} (hp : p.HasNumerals) {file : List Char}
    (hne : file ≠ []) : splitFile? (file ++ p.placeText) ≠ none := by
  induction file with
  | nil => exact absurd rfl hne
  | cons c cs ih =>
    rw [List.cons_append, splitFile?]
    split
    · exact Option.some_ne_none _
    · next hnone =>
      cases cs with
      | nil =>
        rw [List.nil_append, Printed.located?_placeText hp] at hnone
        cases hnone
      | cons d cs => exact fun h => ih (List.cons_ne_nil d cs) (Option.map_eq_none_iff.mp h)

/-- A line is split exactly if it is an error about a place. -/
theorem splitFile?_eq_none_iff :
    splitFile? l = none ↔ ∀ p : Printed, p.HasNumerals → p.file ≠ [] → l ≠ p.text := by
  constructor
  · rintro h p hp hne rfl
    exact splitFile?_ne_none_of_text hp hne h
  · intro h
    induction l with
    | nil => rfl
    | cons c cs ih =>
      have hnone : located? cs = none := Option.eq_none_iff_forall_ne_some.mpr fun _ hfound => by
        obtain ⟨p, hp, hfile, rfl⟩ := located?_eq_some hfound
        refine h { p with file := [c] } ⟨hp.line, hp.character, hp.number⟩
          (List.cons_ne_nil c []) ?_
        rw [Printed.text_eq, Printed.text_eq, hfile]
        rfl
      rw [splitFile?, hnone]
      refine Option.map_eq_none_iff.mpr (ih fun p hp _ hcs => ?_)
      refine h { p with file := c :: p.file } ⟨hp.line, hp.character, hp.number⟩
        (List.cons_ne_nil c _) ?_
      rw [hcs, Printed.text_eq, Printed.text_eq]
      rfl

theorem splitFile?_of_not_holdsPlace (h : ¬ HoldsPlace l) : splitFile? l = none :=
  splitFile?_eq_none_iff.mpr fun p hp _ heq => h ⟨p, hp, heq⟩

/-- A place stands in a text exactly if a line with one more character is split. -/
theorem holdsPlace_iff_splitFile? :
    HoldsPlace l ↔ (splitFile? (' ' :: l)).isSome = true := by
  rw [Option.isSome_iff_ne_none, ne_eq, splitFile?_eq_none_iff]
  constructor
  · intro h hnone
    obtain ⟨p, hp, before, after, rfl⟩ := holdsPlace_iff.mp h
    refine hnone { p with file := ' ' :: before, message := after }
      ⟨hp.line, hp.character, hp.number⟩ (List.cons_ne_nil _ _) ?_
    rw [Printed.text_eq]
    rfl
  · intro h
    refine Classical.byContradiction fun hplace => h fun p hp hne heq => hplace ?_
    obtain ⟨c, file, hfile⟩ := List.exists_cons_of_ne_nil hne
    rw [Printed.text_eq, hfile] at heq
    exact holdsPlace_iff.mpr ⟨p, hp, file, p.message, (List.cons_eq_cons.mp heq).2⟩

instance : DecidablePred HoldsPlace :=
  fun _ => decidable_of_iff _ holdsPlace_iff_splitFile?.symm

theorem report?_errorText {number : List Char} (h : IsNumeral number) (message : List Char) :
    report? (errorText number message) = some ⟨"TS".toList ++ number, message⟩ :=
  Printed.report?_reportText (p := ⟨[], [], [], number, message⟩) h

theorem report?_eq_none_iff :
    report? l = none ↔ ∀ number message, IsNumeral number → l ≠ errorText number message := by
  constructor
  · rintro h number message hnumber rfl
    rw [report?_errorText hnumber] at h
    cases h
  · intro h
    refine Option.eq_none_iff_forall_ne_some.mpr fun r hr => ?_
    obtain ⟨number, message, hnumber, heq⟩ := report?_eq_some hr
    exact h number message hnumber heq

/-- A place that stands behind a text without a parenthesis stands behind it as a whole. -/
theorem not_holdsPlace_append {w : List Char} (hw : '(' ∉ w) (h : ¬ HoldsPlace l) :
    ¬ HoldsPlace (w ++ l) := by
  intro happend
  obtain ⟨p, hp, before, after, heq⟩ := holdsPlace_iff.mp happend
  rcases List.append_eq_append_iff.mp heq with ⟨excess, rfl, rfl⟩ | ⟨excess, rfl, hexcess⟩
  · exact h (holdsPlace_iff.mpr ⟨p, hp, excess, after, rfl⟩)
  · cases excess with
    | nil => exact h (holdsPlace_iff.mpr ⟨p, hp, [], after, hexcess.symm⟩)
    | cons c excess =>
      obtain ⟨rfl, -⟩ := List.cons_eq_cons.mp hexcess
      exact hw (by simp)

theorem classify_firstLine_of_place (he : e.IsPrintable) {p : Place} (hp : e.place? = some p) :
    classify e.firstLine = .inFile p.file
      ⟨Nat.toDigits 10 (p.line + 1), Nat.toDigits 10 (p.character + 1)⟩
      ⟨"TS".toList ++ e.number, e.message⟩ := by
  obtain ⟨hne, -, hplace⟩ := he.file p hp
  have hsplit := Printed.splitFile?_text (he.hasNumerals p) hne hplace
  have hline : e.firstLine = (p.printed e.number e.message).text := by
    rw [Entry.firstLine, hp]
  unfold classify
  rw [hline, hsplit]
  rfl

theorem classify_firstLine_of_noPlace (he : e.IsPrintable) (hp : e.place? = none) :
    classify e.firstLine = .inProject ⟨"TS".toList ++ e.number, e.message⟩ := by
  have hword : '(' ∉ "error TS".toList ++ (e.number ++ ": ".toList) := by
    simp only [List.mem_append, not_or]
    exact ⟨by decide, Printed.paren_notMem_of_isNumeral he.number, by decide⟩
  have hplace : ¬ HoldsPlace (errorText e.number e.message) := by
    have happend := not_holdsPlace_append hword (he.message.2 hp)
    rwa [List.append_assoc, List.append_assoc] at happend
  have hline : e.firstLine = errorText e.number e.message := by
    rw [Entry.firstLine, hp]
  unfold classify
  rw [hline, splitFile?_of_not_holdsPlace hplace, report?_errorText he.number]

theorem strip_indented (t : List Char) : Text.strip (indented t) = Text.strip t := by
  have hblank : Text.isBlank ' ' = true := by decide +kernel
  rw [Text.strip, Text.strip, Text.stripLeft, Text.stripLeft, indented,
    List.dropWhile_cons_of_pos hblank, List.dropWhile_cons_of_pos hblank]

theorem classify_indented (ht : ¬ HoldsPlace t) (hstrip : Text.strip t = t) :
    classify (indented t) = .continuation t := by
  have hplace : ¬ HoldsPlace (indented t) :=
    not_holdsPlace_append (w := [' ', ' ']) (by decide) ht
  have hreport : report? (indented t) = none := rfl
  unfold classify
  rw [splitFile?_of_not_holdsPlace hplace, hreport]
  exact congrArg Line.continuation ((strip_indented t).trans hstrip)

theorem classify_eq_other_iff :
    classify l = .other ↔ splitFile? l = none ∧ report? l = none ∧ ∀ text, l ≠ indented text := by
  unfold classify
  split
  · next hsplit => simp [hsplit]
  · next hsplit =>
    split
    · next hreport => simp [hreport]
    · next hreport =>
      split
      · next text => exact ⟨nofun, fun h => absurd rfl (h.2.2 text)⟩
      · next hindent => exact ⟨fun _ => ⟨hsplit, hreport, hindent⟩, fun _ => rfl⟩

theorem isOther_iff : IsOther l ↔ Text.isUnbroken l = true ∧ classify l = .other := by
  rw [classify_eq_other_iff, splitFile?_eq_none_iff, report?_eq_none_iff]
  constructor
  · exact fun h => ⟨h.unbroken, h.inFile, h.inProject, h.indent⟩
  · rintro ⟨hunbroken, hfile, hproject, hindent⟩
    exact ⟨hunbroken, hfile, hproject, hindent⟩

theorem classify_of_isOther (hl : IsOther l) : classify l = .other :=
  (isOther_iff.mp hl).2

/-! ### What reading them adds -/

theorem step_firstLine (he : e.IsPrintable) (found : List Diagnostic) :
    step directory found e.firstLine = { e with more := [] }.diagnostic directory :: found := by
  rcases hp : e.place? with - | p
  · rw [step, classify_firstLine_of_noPlace he hp]
    simp [Entry.diagnostic]
  · rw [step, classify_firstLine_of_place he hp]
    simp [Entry.diagnostic, (Text.digits_numeral_toDigits _).2]

theorem foldl_step_indented {ts : List (List Char)}
    (hts : ∀ t ∈ ts, Text.strip t = t ∧ ¬ HoldsPlace t) (d : Diagnostic) (found : List Diagnostic) :
    (ts.map indented).foldl (step directory) (d :: found) = ts.foldl continued d :: found := by
  induction ts generalizing d with
  | nil => rfl
  | cons t ts ih =>
    obtain ⟨⟨hstrip, hplace⟩, hts⟩ := List.forall_mem_cons.mp hts
    have hstep : step directory (d :: found) (indented t) = d.continued t :: found := by
      rw [step, classify_indented hplace hstrip]
    rw [List.map_cons, List.foldl_cons, List.foldl_cons, hstep, ih hts]

/-- Continuing a message joins its texts by newlines. -/
theorem foldl_continued {d : Diagnostic} {message : List Char} (ts : List (List Char))
    (hd : d.message = String.ofList message) :
    ts.foldl continued d =
      { d with message := String.ofList (['\n'].intercalate (message :: ts)) } := by
  induction ts generalizing d message with
  | nil => rw [List.intercalate_singleton, ← hd]; rfl
  | cons t ts ih =>
    have hcontinued : (d.continued t).message = String.ofList (message ++ '\n' :: t) := by
      show d.message ++ "\n" ++ String.ofList t = _
      rw [hd, String.append_assoc, ← String.toList_inj]
      simp
    have hjoin : ['\n'].intercalate (message :: t :: ts) =
        ['\n'].intercalate ((message ++ '\n' :: t) :: ts) := by
      cases ts <;> simp [List.intercalate_cons_cons]
    rw [List.foldl_cons, ih hcontinued, hjoin]
    rfl

/-- The lines of an error add it to what has been found. -/
theorem foldl_step_lines (he : e.IsPrintable) (found : List Diagnostic) :
    e.lines.foldl (step directory) found = e.diagnostic directory :: found := by
  rw [Entry.lines, List.foldl_cons, step_firstLine he,
    foldl_step_indented fun t ht => (he.more t ht).2, foldl_continued e.more]
  · rfl
  · exact congrArg String.ofList (List.intercalate_singleton)

theorem step_of_isOther (hl : IsOther l) (found : List Diagnostic) :
    step directory found l = found := by
  rw [step, classify_of_isOther hl]

theorem foldl_step_of_prints (hes : ∀ e ∈ es, e.IsPrintable) (hls : Prints es ls)
    (found : List Diagnostic) :
    ls.foldl (step directory) found = (es.map (Entry.diagnostic directory)).reverse ++ found := by
  induction hls generalizing found with
  | nil => rfl
  | other hl _ ih => rw [List.foldl_cons, step_of_isOther hl, ih hes]
  | entry e _ ih =>
    obtain ⟨he, hes⟩ := List.forall_mem_cons.mp hes
    rw [List.foldl_append, foldl_step_lines he, ih hes, List.map_cons, List.reverse_cons,
      List.append_assoc]
    rfl

/-! ### Numbers with too many digits -/

theorem lineExcess?_firstLine_eq_none_iff (he : e.IsPrintable) :
    lineExcess? e.firstLine = none ↔ e.Fits := by
  have hdigits : ∀ ds : List Char, digitExcess? ds = none ↔ ds.length ≤ digitLimit := by
    intro ds
    rw [digitExcess?, ite_eq_right_iff]
    simp
  rcases hp : e.place? with - | p
  · rw [lineExcess?, classify_firstLine_of_noPlace he hp]
    simp [Entry.Fits, hp]
  · rw [lineExcess?, classify_firstLine_of_place he hp]
    simp [Entry.Fits, hp, Option.or_eq_none_iff, hdigits]

theorem lineExcess?_of_isOther (hl : IsOther l) : lineExcess? l = none := by
  rw [lineExcess?, classify_of_isOther hl]

/-- Only the places of errors can have too many digits. -/
theorem findSome?_lineExcess?_eq_none_iff (hes : ∀ e ∈ es, e.IsPrintable) (hls : Prints es ls) :
    ls.findSome? lineExcess? = none ↔ ∀ e ∈ es, e.Fits := by
  induction hls with
  | nil => simp
  | other hl _ ih =>
    rw [List.findSome?_cons, lineExcess?_of_isOther hl]
    exact ih hes
  | entry e _ ih =>
    obtain ⟨he, hes⟩ := List.forall_mem_cons.mp hes
    have hmore : (e.more.map indented).findSome? lineExcess? = none := by
      rw [List.findSome?_eq_none_iff, List.forall_mem_map]
      intro t ht
      obtain ⟨-, hstrip, hplace⟩ := he.more t ht
      rw [lineExcess?, classify_indented hplace hstrip]
    have hlines : e.lines.findSome? lineExcess? = none ↔ e.Fits := by
      rw [Entry.lines, ← lineExcess?_firstLine_eq_none_iff he, List.findSome?_cons, hmore]
      cases lineExcess? e.firstLine <;> simp
    rw [List.findSome?_append, Option.or_eq_none_iff, hlines, ih hes, List.forall_mem_cons]

theorem exists_of_lineExcess? {x : Excess} (h : lineExcess? l = some x) :
    ∃ n, digitLimit < n ∧ x = .digits n := by
  have hdigits : ∀ {ds : List Char} {x : Excess}, digitExcess? ds = some x →
      ∃ n, digitLimit < n ∧ x = .digits n := by
    intro ds x h
    rw [digitExcess?] at h
    split at h
    · next hlong => exact ⟨ds.length, hlong, (Option.some.inj h).symm⟩
    · cases h
  rw [lineExcess?] at h
  split at h
  · exact (Option.or_eq_some_iff.mp h).elim hdigits fun h => hdigits h.2
  · cases h

/-! ### Reading what was printed -/

theorem isUnbroken_firstLine (he : e.IsPrintable) : Text.isUnbroken e.firstLine = true := by
  rw [Entry.firstLine]
  split
  · next p hp =>
    exact Printed.isUnbroken_text (he.hasNumerals p) (he.file p hp).2.1 he.message.1
  · exact Printed.isUnbroken_reportText (p := ⟨[], [], [], e.number, e.message⟩) he.number
      he.message.1

theorem isUnbroken_of_prints (hes : ∀ e ∈ es, e.IsPrintable) (hls : Prints es ls) :
    ∀ l ∈ ls, Text.isUnbroken l = true := by
  induction hls with
  | nil => exact nofun
  | other hl _ ih => exact List.forall_mem_cons.mpr ⟨hl.unbroken, ih hes⟩
  | entry e _ ih =>
    obtain ⟨he, hes⟩ := List.forall_mem_cons.mp hes
    refine List.forall_mem_append.mpr ⟨List.forall_mem_cons.mpr ⟨isUnbroken_firstLine he, ?_⟩,
      ih hes⟩
    rw [List.forall_mem_map]
    exact fun t ht => (he.more t ht).1

/-- An empty line at the end makes no difference. -/
theorem read_of_lines {output : String} {ls : List (List Char)}
    (h : Text.lines output.toList = ls ∨ Text.lines output.toList ++ [[]] = ls) :
    read directory output = match ls.findSome? lineExcess? with
      | some e => .error e
      | none => .ok (ls.foldl (step directory) []).reverse := by
  have hexcess : lineExcess? [] = none := rfl
  rcases h with rfl | rfl
  · rfl
  · rw [List.findSome?_append, List.findSome?_singleton, hexcess, Option.or_none,
      List.foldl_append]
    rfl

theorem read_eq_of_prints (hes : ∀ e ∈ es, e.IsPrintable) (hls : Prints es ls) :
    read directory (String.ofList (['\n'].intercalate ls)) =
      match ls.findSome? lineExcess? with
      | some x => .error x
      | none => .ok (es.map (Entry.diagnostic directory)) := by
  have hlines := Text.lines_intercalate (isUnbroken_of_prints hes hls)
  rw [← String.toList_ofList (l := ['\n'].intercalate ls)] at hlines
  rw [read_of_lines hlines, foldl_step_of_prints hes hls, List.append_nil, List.reverse_reverse]

theorem exists_read_of_not_fits (hes : ∀ e ∈ es, e.IsPrintable) (hls : Prints es ls)
    (h : ¬ ∀ e ∈ es, e.Fits) (directory : Path) :
    ∃ n, digitLimit < n ∧
      read directory (String.ofList (['\n'].intercalate ls)) = .error (.digits n) := by
  rw [← findSome?_lineExcess?_eq_none_iff hes hls] at h
  obtain ⟨x, hx⟩ := Option.ne_none_iff_exists'.mp h
  obtain ⟨l, -, hl⟩ := List.exists_of_findSome?_eq_some hx
  obtain ⟨n, hn, rfl⟩ := exists_of_lineExcess? hl
  exact ⟨n, hn, by rw [read_eq_of_prints hes hls, hx]⟩

/-- **What a compiler prints is read back.**  Other lines make no difference, wherever they stand
between the errors.  Only numbers with too many digits cannot be read. -/
theorem read_of_prints (hes : ∀ e ∈ es, e.IsPrintable) (hls : Prints es ls) (directory : Path) :
    ((∀ e ∈ es, e.Fits) → read directory (String.ofList (['\n'].intercalate ls)) =
        .ok (es.map (Entry.diagnostic directory))) ∧
      ((¬ ∀ e ∈ es, e.Fits) → ∃ n, digitLimit < n ∧
        read directory (String.ofList (['\n'].intercalate ls)) = .error (.digits n)) := by
  refine ⟨fun hfits => ?_, fun h => exists_read_of_not_fits hes hls h directory⟩
  rw [read_eq_of_prints hes hls, (findSome?_lineExcess?_eq_none_iff hes hls).mpr hfits]

/-- An error in a file whose name and message look like places, and one in the project. -/
def twoErrors : List Entry :=
  [⟨some ⟨"a(1).ts".toList, 2, 4⟩, "2304".toList, "(1,2): error TS1: k".toList,
      [[], "more".toList]⟩,
    ⟨none, "5055".toList, "g".toList, []⟩]

/-- Their lines, with a line before, between and behind them. -/
def twoErrorsLines : List (List Char) :=
  ["tsc".toList, "a(1).ts(3,5): error TS2304: (1,2): error TS1: k".toList, "  ".toList,
    "  more".toList, [], "error TS5055: g".toList, []]

theorem isPrintable_twoErrors : ∀ e ∈ twoErrors, e.IsPrintable := by
  refine List.forall_mem_cons.mpr ⟨⟨?_, ⟨by decide, by decide⟩, by decide, by decide +kernel⟩,
    List.forall_mem_singleton.mpr ⟨nofun, ⟨by decide, by decide⟩, by decide, nofun⟩⟩
  rintro p ⟨rfl⟩
  decide +kernel

theorem prints_twoErrors : Prints twoErrors twoErrorsLines :=
  .other (isOther_iff.mpr (by decide +kernel)) <| .entry _ <|
    .other (isOther_iff.mpr (by decide +kernel)) <| .entry _ <|
      .other (isOther_iff.mpr (by decide +kernel)) .nil

theorem read_of_prints_twoErrors :
    (∀ e ∈ twoErrors, e.IsPrintable) ∧ Prints twoErrors twoErrorsLines ∧
      (∀ e ∈ twoErrors, e.Fits) ∧
      read (Path.ofString "/p") (String.ofList (['\n'].intercalate twoErrorsLines)) =
        .ok (twoErrors.map (Entry.diagnostic (Path.ofString "/p"))) := by
  have hfits : ∀ e ∈ twoErrors, e.Fits := by
    refine List.forall_mem_cons.mpr ⟨?_, List.forall_mem_singleton.mpr nofun⟩
    rintro p ⟨rfl⟩
    decide +kernel
  exact ⟨isPrintable_twoErrors, prints_twoErrors, hfits,
    (read_of_prints isPrintable_twoErrors prints_twoErrors _).1 hfits⟩

/-- An error on a line whose number has one digit too many. -/
def farError : Entry :=
  ⟨some ⟨['a'], 10 ^ digitLimit - 1, 0⟩, ['1'], ['m'], []⟩

theorem not_fits_farError : ¬ farError.Fits := by
  intro h
  have hline := (h _ rfl).1
  rw [Nat.length_toDigits_le_iff (by decide) (by decide)] at hline
  have hpos : 0 < 10 ^ digitLimit := Nat.pow_pos (by decide)
  exact absurd hline (by simp only [Nat.sub_add_cancel hpos, Nat.lt_irrefl, not_false_eq_true])

/-- Not everything that can be printed is read back. -/
theorem not_all_readBack : ¬ ∀ (directory : Path) (es : List Entry) (ls : List (List Char)),
    (∀ e ∈ es, e.IsPrintable) → Prints es ls →
      read directory (String.ofList (['\n'].intercalate ls)) =
        .ok (es.map (Entry.diagnostic directory)) := by
  intro hall
  have hes : ∀ e ∈ [farError], e.IsPrintable := by
    refine List.forall_mem_singleton.mpr ⟨?_, ⟨by decide, by decide⟩, by decide, nofun⟩
    rintro p ⟨rfl⟩
    exact ⟨List.cons_ne_nil _ _, by decide, by decide +kernel⟩
  have hls : Prints [farError] (farError.lines ++ []) := .entry _ .nil
  obtain ⟨n, -, herror⟩ := exists_read_of_not_fits hes hls
    (fun h => not_fits_farError (h _ List.mem_cons_self)) (Path.ofString "/p")
  cases (hall _ _ _ hes hls).symm.trans herror

end Diagnostic

end DeclLint
