/-
DeclLint/Proofs/Rule/DeadReference.lean

Where the header of a file ends, and which reference directives are dead.

The header is scanned one step at a time (`Skip`): a blank, a line comment up to its
newline, or a block comment with its end.  The scanner stops where no step is left.  The
pattern of the leading blanks and comments, with its repetitions and alternatives, matches
up to the same place, since each of its rounds is a step (`first?_trivia_eq_some_iff`).

A dead directive is a directive line that starts at the end of the header or behind it.
These lines are reported, in their order and each at its first character
(`failures_are_dead`).  Looking for the pattern of a directive from the end of the header
on finds the same places, since a match stays on its line (`startsApart_reference`).
-/
import DeclLint.Proofs.Text.Pattern
import DeclLint.Rule.DeadReference
import Mathlib.Data.List.Sort

namespace DeclLint.DeadReference

open Text

/-- A step of the scanner over the header. -/
inductive Skip : List Char → List Char → Prop
  | blank {c : Char} {cs : List Char} (hc : isBlank c = true) : Skip (c :: cs) cs
  | line {l r : List Char} (hl : '\n' ∉ l) (hr : ∀ c, r.head? = some c → c = '\n') :
      Skip ("//".toList ++ (l ++ r)) r
  | block {cs : List Char} {n : Nat} (hn : find? "*/".toList cs = some n) :
      Skip ("/*".toList ++ cs) (cs.drop (n + 2))

variable {cs rest l r : List Char} {c : Char} {i n : Nat}

/-- Steps lead from a text to a rest at which no step is left. -/
def StopsAt (cs rest : List Char) : Prop :=
  Relation.ReflTransGen Skip cs rest ∧ ∀ r, ¬ Skip rest r

/-! ### The end of the header -/

/-- The pattern of a blank or a comment. -/
def trivia : Pattern :=
  .alt (.one isBlank)
    (.alt (.seq (.word "//".toList) (.many (.one (· != '\n'))))
      (.seq (.word "/*".toList) (.seq (.few (.one fun _ => true)) (.word "*/".toList))))

/-- The pattern of the header. -/
def leadingTrivia : Pattern :=
  .many trivia

theorem takes_trivia : trivia.Takes :=
  Pattern.takes_alt (Pattern.takes_one _)
    (Pattern.takes_alt (Pattern.takes_seq (Pattern.takes_word (by decide +kernel)) _)
      (Pattern.takes_seq (Pattern.takes_word (by decide +kernel)) _))

theorem isBlank_slash : isBlank '/' = false := by
  decide +kernel

/-- Only one of the alternatives can match. -/
theorem first?_trivia (cs : List Char) :
    trivia.first? cs =
      match cs with
      | '/' :: '/' :: cs => some (cs.dropWhile (· != '\n'))
      | '/' :: '*' :: cs => (find? "*/".toList cs).map fun n => cs.drop (n + 2)
      | c :: cs => if isBlank c then some cs else none
      | [] => none := by
  have hline : "//".toList = ['/', '/'] := rfl
  have hblock : "/*".toList = ['/', '*'] := rfl
  rw [trivia, Pattern.first?_alt, Pattern.first?_alt, Pattern.first?_seq_word,
    Pattern.first?_seq_word, hline, hblock]
  split
  · simp [Pattern.first?_one_cons, isBlank_slash, afterPrefix?, Pattern.first?_many_one]
  · simp [Pattern.first?_one_cons, isBlank_slash, afterPrefix?, Pattern.first?_seq_few_word]
  · next c cs hnotLine hnotBlock =>
    have hnone : ∀ d, (∀ r, c = '/' → cs = d :: r → False) →
        afterPrefix? ['/', d] (c :: cs) = none := by
      intro d hnot
      refine Option.eq_none_iff_forall_ne_some.mpr fun r hr => ?_
      obtain ⟨hc, hcs⟩ := List.cons_eq_cons.mp (afterPrefix?_eq_some_iff.mp hr)
      exact hnot r hc hcs
    rw [Pattern.first?_one_cons, hnone '/' hnotLine, hnone '*' hnotBlock]
    simp
  · rfl

/-- **A round of the pattern is a step of the scanner.** -/
theorem first?_trivia_eq_some_iff : trivia.first? cs = some r ↔ Skip cs r := by
  constructor
  · intro h
    rw [first?_trivia] at h
    split at h
    · next cs =>
      obtain rfl := Option.some.inj h
      have hl : '\n' ∉ cs.takeWhile (· != '\n') := fun hmem => by
        simpa using List.mem_takeWhile_imp hmem
      have hr : ∀ c, (cs.dropWhile (· != '\n')).head? = some c → c = '\n' := fun c hc => by
        have hstop := List.head?_dropWhile_not (· != '\n') cs
        rw [hc] at hstop
        simpa using hstop
      have hline := Skip.line hl hr
      rwa [List.takeWhile_append_dropWhile] at hline
    · obtain ⟨n, hn, rfl⟩ := Option.map_eq_some_iff.mp h
      exact .block hn
    · split at h
      · next hc =>
        obtain rfl := Option.some.inj h
        exact .blank hc
      · cases h
    · cases h
  · intro h
    rw [first?_trivia]
    cases h with
    | @blank c cs hc =>
      have hslash : c ≠ '/' := ne_of_apply_ne isBlank (by rw [hc, isBlank_slash]; decide)
      split
      · next heq => exact absurd (List.cons_eq_cons.mp heq).1 hslash
      · next heq => exact absurd (List.cons_eq_cons.mp heq).1 hslash
      · next _ _ heq =>
        obtain ⟨rfl, rfl⟩ := List.cons_eq_cons.mp heq
        exact if_pos hc
      · next heq => cases heq
    | @line l r hl hr =>
      have hline : (l ++ r).dropWhile (· != '\n') = r := by
        rw [List.dropWhile_append_of_pos fun c hc =>
          bne_iff_ne.mpr (ne_of_mem_of_not_mem hc hl)]
        cases r with
        | nil => rfl
        | cons c r => rw [hr c rfl]; rfl
      exact congrArg some hline
    | block hn =>
      exact Option.map_eq_some_iff.mpr ⟨_, hn, rfl⟩

/-- The scanner stops at one place only, and the pattern matches up to there. -/
theorem stopsAt_iff : StopsAt cs rest ↔ leadingTrivia.first? cs = some rest := by
  have hskip : (fun x y => trivia.first? x = some y) = Skip :=
    funext fun x => funext fun y => propext first?_trivia_eq_some_iff
  rw [leadingTrivia, Pattern.first?_many_eq_some_iff takes_trivia, hskip,
    Option.eq_none_iff_forall_ne_some]
  simp only [ne_eq, first?_trivia_eq_some_iff, StopsAt]

theorem afterComment?_eq (cs : List Char) :
    afterComment? cs = (find? "*/".toList cs).map fun n => cs.drop (n + 2) := by
  have hend : "*/".toList = ['*', '/'] := rfl
  fun_induction afterComment? cs with
  | case1 => rfl
  | case2 cs => rfl
  | case3 c cs hnot ih =>
    have hfind : find? "*/".toList (c :: cs) = (find? "*/".toList cs).map (· + 1) := by
      have hstart : "*/".toList.isPrefixOf (c :: cs) = false := by
        refine Bool.eq_false_iff.mpr fun h => ?_
        obtain ⟨r, hr⟩ := List.isPrefixOf_iff_prefix.mp h
        obtain ⟨hc, hcs⟩ := List.cons_eq_cons.mp hr
        exact hnot r hc.symm hcs.symm
      show (if _ then _ else _) = _
      rw [hstart]
      rfl
    rw [ih, hfind, Option.map_map]
    rfl

theorem first?_leadingTrivia_of_trivia (h : trivia.first? cs = some r) :
    leadingTrivia.first? cs = leadingTrivia.first? r := by
  rw [leadingTrivia, Pattern.first?_many takes_trivia, h]

theorem first?_leadingTrivia_of_stop (h : trivia.first? cs = none) :
    leadingTrivia.first? cs = some cs := by
  rw [leadingTrivia, Pattern.first?_many takes_trivia, h]

theorem first?_leadingTrivia (cs : List Char) :
    leadingTrivia.first? cs = some (afterHeader cs) := by
  fun_induction afterHeader cs with
  | case1 => exact first?_leadingTrivia_of_stop (first?_trivia [])
  | case2 cs ih => exact (first?_leadingTrivia_of_trivia (first?_trivia _)).trans ih
  | case3 cs rest hrest ih =>
    rw [afterComment?_eq] at hrest
    have htrivia := (first?_trivia ('/' :: '*' :: cs)).trans hrest
    exact (first?_leadingTrivia_of_trivia htrivia).trans ih
  | case4 cs hnone =>
    rw [afterComment?_eq] at hnone
    exact first?_leadingTrivia_of_stop ((first?_trivia ('/' :: '*' :: cs)).trans hnone)
  | case5 c cs _ _ hc ih =>
    exact (first?_leadingTrivia_of_trivia (first?_trivia_eq_some_iff.mpr (.blank hc))).trans ih
  | case6 c cs hnotLine hnotBlock hc =>
    refine first?_leadingTrivia_of_stop ((first?_trivia _).trans ?_)
    split <;> simp_all

theorem drop_headerEnd (cs : List Char) : cs.drop (headerEnd cs) = afterHeader cs :=
  (List.suffix_iff_eq_drop.mp (Pattern.suffix_of_first? (first?_leadingTrivia cs))).symm

/-! ### Directive lines -/

/-- What a reference directive begins with: blanks and tabs, three slashes, blanks, and a word. -/
def IsOpening (w : List Char) : Prop :=
  ∃ indent blanks, w = indent ++ ("///".toList ++ (blanks ++ "<reference".toList)) ∧
    (∀ c ∈ indent, c = ' ' ∨ c = '\t') ∧ ∀ c ∈ blanks, c = ' '

/-- The text starts with a reference directive, whose word ends where the rest starts. -/
def StartsReference (cs rest : List Char) : Prop :=
  ∃ w, IsOpening w ∧ cs = w ++ rest ∧ ∀ c, rest.head? = some c → isWord c = false

/-- No word goes on here. -/
def endsWord : List Char → Bool
  | [] => true
  | c :: _ => !isWord c

/-- The pattern of a directive, to be matched at the start of a line. -/
def reference : Pattern :=
  .seq (.many (.one fun c => c = ' ' || c = '\t'))
    (.seq (.word "///".toList)
      (.seq (.many (.one (· = ' '))) (.seq (.word "<reference".toList) (.ahead endsWord))))

theorem endsWord_iff : endsWord rest = true ↔ ∀ c, rest.head? = some c → isWord c = false := by
  cases rest <;> simp [endsWord]

theorem first?_reference (cs : List Char) :
    reference.first? cs =
      (afterPrefix? "///".toList (cs.dropWhile fun c => c = ' ' || c = '\t')).bind fun cs =>
        (afterPrefix? "<reference".toList (cs.dropWhile (· = ' '))).bind fun cs =>
          if endsWord cs then some cs else none := by
  have hline : ∀ b c cs, (c = ' ' ∨ c = '\t') →
      (Pattern.seq (.word "///".toList) b).first? (c :: cs) = none := by
    rintro b c cs (rfl | rfl) <;> simp [Pattern.first?_seq_word, afterPrefix?]
  have hword : ∀ b cs, (Pattern.seq (.word "<reference".toList) b).first? (' ' :: cs) = none := by
    intro b cs
    simp [Pattern.first?_seq_word, afterPrefix?]
  rw [reference, Pattern.first?_seq_many_one fun c cs hc => hline _ c cs (by simpa using hc),
    Pattern.first?_seq_word]
  refine congrArg (Option.bind _) (funext fun cs => ?_)
  rw [Pattern.first?_seq_many_one fun c cs hc => of_decide_eq_true hc ▸ hword _ cs,
    Pattern.first?_seq_word]
  exact congrArg (Option.bind _) (funext fun cs => Pattern.first?_ahead _ _)

theorem isDirective_eq (l : List Char) : isDirective l = (reference.first? l).isSome := by
  rw [first?_reference, isDirective]
  rcases afterPrefix? "///".toList _ with - | rest
  · rfl
  · rw [Option.bind_some]
    dsimp only
    rcases afterPrefix? "<reference".toList _ with - | - | ⟨c, cs⟩
    · rfl
    · rfl
    · cases hc : isWord c <;> simp [endsWord, hc]

theorem first?_reference_eq_some_iff :
    reference.first? cs = some rest ↔ StartsReference cs rest := by
  simp only [first?_reference, Option.bind_eq_some_iff, afterPrefix?_eq_some_iff]
  constructor
  · rintro ⟨cs', hindent, r, hblanks, hends⟩
    split at hends
    · next hend =>
      obtain rfl := Option.some.inj hends
      refine ⟨_, ⟨cs.takeWhile fun c => c = ' ' || c = '\t', cs'.takeWhile (· = ' '), rfl,
        fun c hc => by simpa using List.mem_takeWhile_imp hc,
        fun c hc => by simpa using List.mem_takeWhile_imp hc⟩, ?_, endsWord_iff.mp hend⟩
      simp only [List.append_assoc]
      rw [← hblanks, List.takeWhile_append_dropWhile, ← hindent, List.takeWhile_append_dropWhile]
    · cases hends
  · rintro ⟨_, ⟨indent, blanks, rfl, hindent, hblanks⟩, rfl, hrest⟩
    refine ⟨blanks ++ ("<reference".toList ++ rest), ?_, rest, ?_, if_pos (endsWord_iff.mpr hrest)⟩
    · simp only [List.append_assoc]
      rw [List.dropWhile_append_of_pos fun c hc => by simpa using hindent c hc]
      rfl
    · rw [List.dropWhile_append_of_pos fun c hc => by simpa using hblanks c hc]
      rfl

/-- An opening stays on its line. -/
theorem IsOpening.newline_notMem {w : List Char} (h : IsOpening w) : '\n' ∉ w := by
  obtain ⟨indent, blanks, rfl, hindent, hblanks⟩ := h
  simp only [List.mem_append, not_or]
  exact ⟨fun h => by simpa using hindent _ h, by decide +kernel,
    fun h => by simpa using hblanks _ h, by decide +kernel⟩

theorem startsApart_reference (cs : List Char) : reference.StartsApart cs := by
  refine Pattern.startsApart_of_notMem fun w r h => ?_
  obtain ⟨w', hw', heq, -⟩ := first?_reference_eq_some_iff.mp h
  exact List.append_cancel_right heq ▸ hw'.newline_notMem

/-- Whether a text starts with a directive is decided on its first line. -/
theorem isSome_first?_reference_append (hl : '\n' ∉ l) (ds : List Char) :
    (reference.first? (l ++ '\n' :: ds)).isSome = (reference.first? l).isSome := by
  rw [Bool.eq_iff_iff, Option.isSome_iff_exists, Option.isSome_iff_exists]
  simp only [first?_reference_eq_some_iff]
  constructor
  · rintro ⟨rest, w, hw, heq, hrest⟩
    rcases List.append_eq_append_iff.mp heq with ⟨excess, rfl, hexcess⟩ | ⟨rest', rfl, rfl⟩
    · cases excess with
      | nil => exact ⟨[], l, by simpa using hw, by simp, nofun⟩
      | cons c excess =>
        -- the opening would reach over the newline
        obtain ⟨rfl, -⟩ := List.cons_eq_cons.mp hexcess
        exact absurd (by simp) hw.newline_notMem
    · refine ⟨rest', w, hw, rfl, fun c hc => hrest c ?_⟩
      cases rest' with
      | nil => cases hc
      | cons d rest' => exact hc
  · rintro ⟨rest, w, hw, rfl, hrest⟩
    refine ⟨rest ++ '\n' :: ds, w, hw, List.append_assoc _ _ _, fun c hc => ?_⟩
    cases rest with
    | nil =>
      obtain rfl := Option.some.inj hc
      decide +kernel
    | cons d rest => exact hrest c hc

theorem isSome_first?_reference (h : (newlinePieces cs).head? = some l) :
    (reference.first? cs).isSome = isDirective l := by
  rw [isDirective_eq]
  rcases newlinePieces_cases cs with ⟨-, hcs⟩ | ⟨l', ds, hmem, rfl, hcs⟩
  · rw [hcs] at h
    obtain rfl := Option.some.inj h
    rfl
  · rw [hcs] at h
    obtain rfl := Option.some.inj h
    exact isSome_first?_reference_append hmem ds

/-! ### Dead directives -/

/-- The line is a directive, and it starts at the end of the header or behind it. -/
def IsDead (cs : List Char) (i : Nat) : Prop :=
  ∃ l rest, (newlinePieces cs)[i]? = some l ∧ StartsReference l rest ∧
    headerEnd cs ≤ lineStart (newlinePieces cs) i

/-- The lines that are dead directives. -/
def deadLines (cs : List Char) : List Nat :=
  (List.range (newlinePieces cs).length).filter fun i =>
    headerEnd cs ≤ lineStart (newlinePieces cs) i && isDirective ((newlinePieces cs).getD i [])

theorem isDirective_iff : isDirective l = true ↔ ∃ rest, StartsReference l rest := by
  rw [isDirective_eq, Option.isSome_iff_exists]
  simp only [first?_reference_eq_some_iff]

theorem mem_deadLines : i ∈ deadLines cs ↔ IsDead cs i := by
  simp only [deadLines, IsDead, List.mem_filter, List.mem_range, Bool.and_eq_true,
    decide_eq_true_eq, isDirective_iff, List.getD_eq_getElem?_getD]
  constructor
  · rintro ⟨hi, hheader, rest, hrest⟩
    rw [List.getElem?_eq_getElem hi] at hrest
    exact ⟨_, rest, List.getElem?_eq_getElem hi, hrest, hheader⟩
  · rintro ⟨l, rest, hl, hrest, hheader⟩
    rw [hl]
    exact ⟨(List.getElem?_eq_some_iff.mp hl).1, hheader, rest, hrest⟩

theorem pairwise_deadLines (cs : List Char) : (deadLines cs).Pairwise (· < ·) :=
  List.pairwise_lt_range.filter _

theorem withOffsets_eq_map (start : Nat) (ls : List (List Char)) :
    withOffsets start ls =
      (List.range ls.length).map fun i => (start + lineStart ls i, ls.getD i []) := by
  induction ls generalizing start with
  | nil => rfl
  | cons l ls ih =>
    rw [withOffsets, ih, List.length_cons, List.range_succ_eq_map, List.map_cons, List.map_map]
    simp [Function.comp_def, Nat.add_assoc]

theorem deadOffsets_eq_map (cs : List Char) :
    deadOffsets cs = (deadLines cs).map (lineStart (newlinePieces cs)) := by
  rw [deadOffsets, withOffsets_eq_map, List.filterMap_map, deadLines, ← List.filterMap_eq_map,
    List.filterMap_filter]
  simp only [Function.comp_def, Nat.zero_add]

/-- The pattern matches at the starts of the directive lines, and nowhere else on a line. -/
theorem isSome_matchEnd?_reference (hl : (newlinePieces cs)[i]? = some l) {k : Nat}
    (hk : k ≤ l.length) :
    (reference.matchEnd? cs (lineStart (newlinePieces cs) i + k)).isSome = true ↔
      k = 0 ∧ isDirective l = true := by
  rw [Pattern.isSome_matchEnd?, Bool.and_eq_true, startsLine_lineStart_add hl hk,
    isSome_first?_reference (head?_newlinePieces_drop hl hk)]
  constructor
  · rintro ⟨rfl, h⟩
    exact ⟨rfl, h⟩
  · rintro ⟨rfl, h⟩
    exact ⟨rfl, h⟩

/-- **Looking for directives from the end of the header on** finds the dead ones. -/
theorem deadOffsets_eq_matchesFrom (cs : List Char) :
    deadOffsets cs = reference.matchesFrom cs (headerEnd cs) := by
  rw [Pattern.matchesFrom_eq_filter (startsApart_reference cs), deadOffsets_eq_map]
  refine List.Pairwise.eq_of_mem_iff (r := (· < ·)) ?_ ((List.pairwise_lt_range' 1).filter _)
    fun n => ?_
  · refine List.pairwise_map.mpr ((pairwise_deadLines cs).imp_of_mem fun _ hj hij => ?_)
    obtain ⟨l, -, hl, -⟩ := mem_deadLines.mp hj
    exact lineStart_lt_lineStart hij (Nat.le_of_lt (List.getElem?_eq_some_iff.mp hl).1)
  · rw [List.mem_map, List.mem_filter, List.mem_range'_1]
    constructor
    · rintro ⟨i, hi, rfl⟩
      obtain ⟨l, rest, hl, hrest, hheader⟩ := mem_deadLines.mp hi
      have hle := lineStart_add_le hl (Nat.zero_le _)
      exact ⟨by omega, (isSome_matchEnd?_reference hl (Nat.zero_le _)).mpr
        ⟨rfl, isDirective_iff.mpr ⟨rest, hrest⟩⟩⟩
    · rintro ⟨hn, hmatch⟩
      have hle : n ≤ cs.length := by omega
      obtain ⟨i, l, k, hl, hk, rfl, -⟩ := exists_eq_lineStart hle
      obtain ⟨rfl, hdirective⟩ := (isSome_matchEnd?_reference hl hk).mp hmatch
      obtain ⟨rest, hrest⟩ := isDirective_iff.mp hdirective
      exact ⟨i, mem_deadLines.mpr ⟨l, rest, hl, hrest, hn.1⟩, rfl⟩

theorem IsOpening.exists_skip {w : List Char} (h : IsOpening w) (rest : List Char) :
    ∃ r, Skip (w ++ rest) r := by
  obtain ⟨indent, blanks, rfl, hindent, -⟩ := h
  cases indent with
  | nil => exact ⟨_, first?_trivia_eq_some_iff.mp (first?_trivia _)⟩
  | cons c indent =>
    refine ⟨_, .blank ?_⟩
    rcases hindent c List.mem_cons_self with rfl | rfl <;> decide +kernel

/-- The header does not end in front of a directive, which is a comment itself. -/
theorem headerEnd_lt_of_isDead (h : IsDead cs i) :
    headerEnd cs < lineStart (newlinePieces cs) i := by
  obtain ⟨l, rest, hl, hrest, hheader⟩ := h
  refine Nat.lt_of_le_of_ne hheader fun heq => ?_
  have hhead := head?_newlinePieces_drop hl (Nat.zero_le _)
  rw [Nat.add_zero, ← heq, drop_headerEnd] at hhead
  have hsome : (reference.first? (afterHeader cs)).isSome = true :=
    (isSome_first?_reference hhead).trans (isDirective_iff.mpr ⟨rest, hrest⟩)
  obtain ⟨rest', hfirst⟩ := Option.isSome_iff_exists.mp hsome
  obtain ⟨w, hw, hw', -⟩ := first?_reference_eq_some_iff.mp hfirst
  obtain ⟨r, hr⟩ := hw.exists_skip rest'
  exact (stopsAt_iff.mpr (first?_leadingTrivia cs)).2 r (hw' ▸ hr)

/-- The failure of a dead directive. -/
def failureAt (file : SourceFile) (i : Nat) : Failure :=
  ⟨file.name, name, "error", i, 0,
    "'/// <reference>' directive must be at top of file to take effect."⟩

theorem failures_eq_map (file : SourceFile) :
    failures file = (deadLines file.text.toList).map (failureAt file) := by
  rw [failures, deadOffsets_eq_map, List.map_map]
  refine List.map_congr_left fun i hi => ?_
  obtain ⟨l, -, hl, -⟩ := mem_deadLines.mp hi
  have hposition := position_lineStart hl (Nat.zero_le _)
  rw [Nat.add_zero] at hposition
  simp only [Function.comp_apply, Failure.at, hposition]
  rfl

/-- **Exactly the dead directives are reported**, in the order of their lines and each at its first
character.  The header ends where the scanner stops, which is where its pattern stops matching;
looking for directives from there on finds the places of the dead ones. -/
theorem failures_are_dead (file : SourceFile) :
    let cs := file.text.toList
    (headerEnd cs ≤ cs.length ∧ ∀ rest, StopsAt cs rest ↔ rest = cs.drop (headerEnd cs)) ∧
      leadingTrivia.first? cs = some (cs.drop (headerEnd cs)) ∧
      deadOffsets cs = reference.matchesFrom cs (headerEnd cs) ∧
      (∀ i, IsDead cs i → headerEnd cs < lineStart (newlinePieces cs) i) ∧
      ∃ is : List Nat, is.Pairwise (· < ·) ∧ (∀ i, i ∈ is ↔ IsDead cs i) ∧
        failures file = is.map (failureAt file) := by
  intro cs
  have hheader : leadingTrivia.first? cs = some (cs.drop (headerEnd cs)) := by
    rw [drop_headerEnd, first?_leadingTrivia]
  refine ⟨⟨Nat.sub_le _ _, fun rest => ?_⟩, hheader, deadOffsets_eq_matchesFrom cs,
    fun i => headerEnd_lt_of_isDead, deadLines cs, pairwise_deadLines cs,
    fun i => mem_deadLines, failures_eq_map file⟩
  rw [stopsAt_iff, hheader, Option.some.injEq, eq_comm]

end DeclLint.DeadReference
