/-
DeclLint/Proofs/Compiler/Boundary.lean

Where a line of output ends.  Source texts are cut at newlines only, and so are the
lines that a compiler counts; but its output is cut at every line boundary.  Reading it
is the same as reading the newline-separated lines (`readLines`) of the output in which
each boundary is written as a newline (`read_eq_readLines`).

Where newlines are the only boundaries this makes no difference.  Elsewhere it does: a
line is a text without boundaries (`isUnbroken_of_mem_lines`), all that is read of it
is part of it, and messages are joined by newlines only.  So no message that is read
holds another boundary (`newlinesOnly_message`), although compilers print messages that
do; those are cut short, and what follows is taken for lines of their own.
-/
import DeclLint.Proofs.Compiler.RoundTrip
import DeclLint.Proofs.Result
import DeclLint.Proofs.Text.LineEnding

namespace DeclLint

/-! ### Lines and newlines -/

namespace Text

variable {c : Char} {cs ds l : List Char}

/-- The only boundaries in the text are newlines. -/
def NewlinesOnly (cs : List Char) : Prop :=
  ∀ c ∈ cs, isLineBoundary c = true → c = '\n'

instance (cs : List Char) : Decidable (NewlinesOnly cs) :=
  List.decidableBAll (fun c => isLineBoundary c = true → c = '\n') cs

/-- Writes every line boundary as a newline. -/
def unifyBoundaries (cs : List Char) : List Char :=
  (unifyNewlines cs).map fun c => if isLineBoundary c then '\n' else c

theorem newlinePieces_newline (cs : List Char) :
    newlinePieces ('\n' :: cs) = [] :: newlinePieces cs := by
  rw [newlinePieces, pieces, if_pos rfl]
  rfl

theorem newlinePieces_cons (hc : isLineBoundary c = false) (cs : List Char) :
    newlinePieces (c :: cs) = (newlinePieces cs).modifyHead (c :: ·) := by
  refine if_neg ?_
  rintro rfl
  exact absurd hc (by decide)

theorem unifyBoundaries_cons (hc : isLineBoundary c = false) (cs : List Char) :
    unifyBoundaries (c :: cs) = c :: unifyBoundaries cs := by
  have hreturn : c ≠ '\r' := by
    rintro rfl
    exact absurd hc (by decide)
  rw [unifyBoundaries, unifyNewlines_cons_of_ne hreturn, List.map_cons, hc]
  rfl

/-- Any boundary becomes a newline; a carriage return and a newline become one together. -/
theorem unifyBoundaries_boundary (hc : isLineBoundary c = true)
    (hreturn : ∀ ds, c = '\r' → cs = '\n' :: ds → False) :
    unifyBoundaries (c :: cs) = '\n' :: unifyBoundaries cs := by
  have hnewline : isLineBoundary (if c = '\r' then '\n' else c) = true := by
    split
    · decide
    · exact hc
  rw [unifyBoundaries, unifyNewlines.eq_3 _ _ hreturn, List.map_cons, hnewline]
  rfl

/-- The lines of a text are the newline-separated lines of the text in which every boundary is
written as a newline, but for an empty one at the end. -/
theorem lines_unifyBoundaries (cs : List Char) :
    lines cs = newlinePieces (unifyBoundaries cs) ∨
      lines cs ++ [[]] = newlinePieces (unifyBoundaries cs) := by
  fun_induction lines cs with
  | case1 => exact .inr rfl
  | case2 cs ih => exact ih.imp (congrArg ([] :: ·)) (congrArg ([] :: ·))
  | case3 c cs hreturn hc ih =>
    rw [unifyBoundaries_boundary hc hreturn, newlinePieces_newline]
    exact ih.imp (congrArg ([] :: ·)) (congrArg ([] :: ·))
  | case4 c cs hreturn hc hnil ih =>
    rw [Bool.not_eq_true] at hc
    rw [unifyBoundaries_cons hc, newlinePieces_cons hc]
    rw [hnil] at ih
    rcases ih with ih | ih
    · exact absurd ih.symm (pieces_ne_nil '\n' _)
    · rw [← ih]
      exact .inl rfl
  | case5 c cs hreturn hc l ls hcons ih =>
    rw [Bool.not_eq_true] at hc
    rw [unifyBoundaries_cons hc, newlinePieces_cons hc]
    rw [hcons] at ih
    rcases ih with ih | ih
    · rw [← ih]
      exact .inl rfl
    · rw [← ih]
      exact .inr rfl

theorem NewlinesOnly.unifyBoundaries_eq (h : NewlinesOnly cs) : unifyBoundaries cs = cs := by
  induction cs with
  | nil => rfl
  | cons c cs ih =>
    obtain ⟨hc, hcs⟩ := List.forall_mem_cons.mp h
    cases hboundary : isLineBoundary c with
    | false => rw [unifyBoundaries_cons hboundary, ih hcs]
    | true =>
      obtain rfl := hc hboundary
      rw [unifyBoundaries_boundary hboundary (by rintro ds h -; cases h), ih hcs]

/-- A line holds no boundary. -/
theorem isUnbroken_of_mem_lines (h : l ∈ lines cs) : isUnbroken l = true := by
  fun_induction lines cs generalizing l with
  | case1 => cases h
  | case2 cs ih =>
    rcases List.mem_cons.mp h with rfl | h
    · rfl
    · exact ih h
  | case3 c cs _ _ ih =>
    rcases List.mem_cons.mp h with rfl | h
    · rfl
    · exact ih h
  | case4 c cs _ hc _ ih =>
    obtain rfl := List.mem_singleton.mp h
    exact isUnbroken_cons_iff.mpr ⟨by simpa using hc, rfl⟩
  | case5 c cs _ hc l' ls hcons ih =>
    rcases List.mem_cons.mp h with rfl | h
    · exact isUnbroken_cons_iff.mpr ⟨by simpa using hc, ih (hcons ▸ List.mem_cons_self)⟩
    · exact ih (hcons ▸ List.mem_cons_of_mem l' h)

theorem NewlinesOnly.append (hcs : NewlinesOnly cs) (hds : NewlinesOnly ds) :
    NewlinesOnly (cs ++ ds) :=
  List.forall_mem_append.mpr ⟨hcs, hds⟩

/-- What is part of a line holds no boundary. -/
theorem newlinesOnly_of_subset (hl : isUnbroken l = true) (h : cs ⊆ l) : NewlinesOnly cs := by
  intro c hc hboundary
  have hnone := List.all_eq_true.mp hl c (h hc)
  rw [hboundary] at hnone
  cases hnone

theorem strip_subset (cs : List Char) : strip cs ⊆ cs := by
  intro c hc
  rw [strip, stripRight, List.mem_reverse] at hc
  have hleft := (List.dropWhile_sublist _).subset hc
  exact (List.dropWhile_sublist _).subset (List.mem_reverse.mp hleft)

end Text

namespace Diagnostic

variable {directory : Path} {output : String} {cs l : List Char} {ls : List (List Char)}
  {d : Diagnostic} {ds found : List Diagnostic}

/-! ### Reading lines -/

/-- The diagnostics in lines of output, unless one of their numerals exceeds the limit. -/
def readLines (directory : Path) (ls : List (List Char)) : Except Excess (List Diagnostic) :=
  match ls.findSome? lineExcess? with
  | some e => .error e
  | none => .ok (ls.foldl (step directory) []).reverse

theorem read_eq_readLines (directory : Path) (output : String) :
    read directory output =
      readLines directory (Text.newlinePieces (Text.unifyBoundaries output.toList)) :=
  read_of_lines (Text.lines_unifyBoundaries output.toList)

theorem occursIn_eq_any (output : String) :
    occursIn output =
      (Text.newlinePieces (Text.unifyBoundaries output.toList)).any startsDiagnostic := by
  have hempty : startsDiagnostic [] = false := rfl
  rw [occursIn]
  rcases Text.lines_unifyBoundaries output.toList with h | h
  · rw [h]
  · rw [← h, List.any_append, List.any_cons, hempty, List.any_nil, Bool.or_false, Bool.or_false]

/-! ### Messages -/

theorem message_subset_of_report? {r : Report} (h : report? cs = some r) : r.message ⊆ cs := by
  obtain ⟨number, message, hnumber, rfl⟩ := report?_eq_some h
  obtain rfl := Option.some.inj ((report?_errorText hnumber message).symm.trans h)
  intro c hc
  simp [hc]

theorem message_subset_of_located? {place : PrintedPlace} {r : Report}
    (h : located? cs = some (place, r)) : r.message ⊆ cs := by
  obtain ⟨p, hp, hfile, rfl⟩ := located?_eq_some h
  have htext : p.text = p.placeText := by rw [Printed.text, hfile, List.nil_append]
  rw [htext, Printed.located?_placeText hp] at h
  obtain ⟨-, rfl⟩ := Prod.mk.inj (Option.some.inj h)
  intro c hc
  rw [Printed.text_eq]
  exact List.mem_append_right _ (List.mem_cons_of_mem _ (List.mem_append_right _ hc))

theorem message_subset_of_splitFile? {file : List Char} {place : PrintedPlace} {r : Report}
    (h : splitFile? cs = some (file, place, r)) : r.message ⊆ cs := by
  induction cs generalizing file with
  | nil => cases h
  | cons c cs ih =>
    rw [splitFile?] at h
    split at h
    · next hfound =>
      obtain ⟨-, rfl, rfl⟩ := by simpa using h
      exact List.subset_cons_of_subset c (message_subset_of_located? hfound)
    · obtain ⟨⟨file', place', r'⟩, hrest, h⟩ := Option.map_eq_some_iff.mp h
      obtain ⟨-, rfl, rfl⟩ := by simpa using h
      exact List.subset_cons_of_subset c (ih hrest)

/-- The text that a line of output adds to a message. -/
def Line.text : Line → List Char
  | .inFile _ _ report => report.message
  | .inProject report => report.message
  | .continuation text => text
  | .other => []

theorem text_classify_subset (l : List Char) : (classify l).text ⊆ l := by
  unfold classify
  split
  · next hsplit => exact message_subset_of_splitFile? hsplit
  · split
    · next hreport => exact message_subset_of_report? hreport
    · split
      · exact Text.strip_subset _
      · exact List.nil_subset l

/-- A line adds no boundary to the messages found so far, but for the newline in front of a
continuation. -/
theorem newlinesOnly_step (hl : Text.isUnbroken l = true)
    (h : ∀ d ∈ found, Text.NewlinesOnly d.message.toList) :
    ∀ d ∈ step directory found l, Text.NewlinesOnly d.message.toList := by
  have htext := Text.newlinesOnly_of_subset hl (text_classify_subset l)
  unfold step
  cases hline : classify l with
  | inFile file place report =>
    rw [hline] at htext
    exact List.forall_mem_cons.mpr ⟨by rwa [String.toList_ofList], h⟩
  | inProject report =>
    rw [hline] at htext
    exact List.forall_mem_cons.mpr ⟨by rwa [String.toList_ofList], h⟩
  | continuation text =>
    rw [hline] at htext
    cases found with
    | nil => exact h
    | cons d rest =>
      obtain ⟨hd, hrest⟩ := List.forall_mem_cons.mp h
      refine List.forall_mem_cons.mpr ⟨?_, hrest⟩
      have hmessage : (d.continued text).message.toList = d.message.toList ++ ['\n'] ++ text := by
        simp [continued]
      rw [hmessage]
      exact (hd.append (List.forall_mem_singleton.mpr fun _ => rfl)).append htext
  | other => exact h

theorem newlinesOnly_foldl_step (hls : ∀ l ∈ ls, Text.isUnbroken l = true)
    (h : ∀ d ∈ found, Text.NewlinesOnly d.message.toList) :
    ∀ d ∈ ls.foldl (step directory) found, Text.NewlinesOnly d.message.toList := by
  induction ls generalizing found with
  | nil => exact h
  | cons l ls ih =>
    obtain ⟨hl, hls⟩ := List.forall_mem_cons.mp hls
    exact ih hls (newlinesOnly_step hl h)

/-- Messages that are read hold no boundary but newlines. -/
theorem newlinesOnly_message (h : read directory output = .ok ds) :
    ∀ d ∈ ds, Text.NewlinesOnly d.message.toList := by
  have hparse : parse directory output = ds := by
    unfold read at h
    split at h
    · cases h
    · exact Except.ok.inj h
  intro d hd
  rw [← hparse, parse, List.mem_reverse] at hd
  exact newlinesOnly_foldl_step (fun l hl => Text.isUnbroken_of_mem_lines hl)
    (List.forall_mem_nil _) d hd

/-! ### Outputs with other boundaries -/

/-- **Output is cut at every line boundary.**  It is read as if each boundary were a newline; so
where newlines are the only ones, it is read by its newline-separated lines.  A message that is read
holds no other boundary: an error whose line, cut at newlines, has such a message is not read. -/
theorem read_cutsEverywhere (directory : Path) (output : String) :
    (read directory output =
        readLines directory (Text.newlinePieces (Text.unifyBoundaries output.toList)) ∧
      occursIn output =
        (Text.newlinePieces (Text.unifyBoundaries output.toList)).any startsDiagnostic) ∧
    (Text.NewlinesOnly output.toList →
      read directory output = readLines directory (Text.newlinePieces output.toList) ∧
      occursIn output = (Text.newlinePieces output.toList).any startsDiagnostic) ∧
    ∀ ds, read directory output = .ok ds → ∀ d ∈ ds, Text.NewlinesOnly d.message.toList := by
  refine ⟨⟨read_eq_readLines directory output, occursIn_eq_any output⟩, fun h => ?_,
    fun ds => newlinesOnly_message⟩
  rw [read_eq_readLines, occursIn_eq_any, h.unifyBoundaries_eq]
  exact ⟨rfl, rfl⟩

/-- An error whose message goes on in a second line. -/
def continuedOutput : String :=
  "a.ts(1,1): error TS2304: x\n  y"

/-- An error whose message holds a form feed. -/
def formFeedOutput : String :=
  "a.ts(1,1): error TS2304: x\x0cy"

theorem read_formFeedOutput : read (Path.ofString "/p") formFeedOutput =
    .ok [⟨some "/p/a.ts", 0, 0, "TS2304", "x"⟩] :=
  Except.toOption_eq_some_iff.mp (by decide +kernel)

/-- A newline and blanks continue a message, but a form feed cuts it. -/
theorem read_cutsEverywhere_formFeed :
    Text.NewlinesOnly continuedOutput.toList ∧
      readLines (Path.ofString "/p") ["a.ts(1,1): error TS2304: x".toList, "  y".toList] =
        read (Path.ofString "/p") continuedOutput ∧
      read (Path.ofString "/p") formFeedOutput = .ok [⟨some "/p/a.ts", 0, 0, "TS2304", "x"⟩] ∧
      Text.NewlinesOnly ['x'] := by
  have honly : Text.NewlinesOnly continuedOutput.toList := by
    decide +kernel
  have hpieces : Text.newlinePieces continuedOutput.toList =
      ["a.ts(1,1): error TS2304: x".toList, "  y".toList] := by
    decide +kernel
  obtain ⟨-, hcontinued, -⟩ := read_cutsEverywhere (Path.ofString "/p") continuedOutput
  obtain ⟨-, -, hmessages⟩ := read_cutsEverywhere (Path.ofString "/p") formFeedOutput
  exact ⟨honly, hpieces ▸ (hcontinued honly).1.symm, read_formFeedOutput,
    hmessages _ read_formFeedOutput _ List.mem_cons_self⟩

/-- Not every output is read by its newline-separated lines: a message may be cut short, and a
diagnostic may be found in the middle of a line. -/
theorem not_all_byNewlines :
    (¬ ∀ (directory : Path) (output : String), '\r' ∉ output.toList →
      read directory output = readLines directory (Text.newlinePieces output.toList)) ∧
    ¬ ∀ output : String, '\r' ∉ output.toList →
      occursIn output = (Text.newlinePieces output.toList).any startsDiagnostic := by
  constructor
  · intro hall
    have hlines : readLines (Path.ofString "/p") (Text.newlinePieces formFeedOutput.toList) =
        .ok [⟨some "/p/a.ts", 0, 0, "TS2304", "x\x0cy"⟩] :=
      Except.toOption_eq_some_iff.mp (by decide +kernel)
    have heq := hall (Path.ofString "/p") formFeedOutput (by decide +kernel)
    rw [read_formFeedOutput, hlines] at heq
    exact absurd (Except.ok.inj heq) (by decide)
  · intro hall
    exact absurd (hall "x\u2028error TS2: y" (by decide +kernel)) (by decide +kernel)

end Diagnostic

end DeclLint
