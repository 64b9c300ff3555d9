/-
DeclLint/Proofs/Rule/Expectation.lean

Expected errors, line by line.  A comment that expects an error speaks of the next line
if it stands alone, else of its own, and nothing else about a text matters to it: the
expected lines are what the comments on its lines speak of (`mem_expectedLines_iff`).

Only newlines separate lines here.  So the expectations of two texts joined by a newline
are those of both, where the second ones move by the lines of the first
(`expectationAt?_append_newline_add`), and a character put into a line, as long as it is
no newline, changes no expectation on another line (`expectationAt?_insert`).

The lines come in ascending order, since a comment speaks of no line before that of an
earlier comment (`pairwise_expectedFrom`), though one line may be spoken of twice.
-/
import DeclLint.Proofs.Path.RoundTrip
import DeclLint.Rule.Expect

namespace DeclLint

/-! ### Characters put into a line -/

/-- A character that separates nothing leaves the pieces alone in which it does not stand. -/
theorem Text.getElem?_pieces_insert {α : Type} [DecidableEq α] {sep x : α} (hx : x ≠ sep)
    (xs ys : List α) {i : Nat} (hi : i ≠ xs.count sep) :
    (pieces sep (xs ++ x :: ys))[i]? = (pieces sep (xs ++ ys))[i]? := by
  induction xs generalizing i with
  | nil =>
    have hfirst : i ≠ 0 := by simpa using hi
    rw [List.nil_append, List.nil_append, pieces, if_neg hx, List.getElem?_modifyHead,
      if_neg hfirst]
  | cons c cs ih =>
    rw [List.cons_append, List.cons_append, pieces, pieces]
    by_cases hc : c = sep
    · rw [if_pos hc, if_pos hc]
      cases i with
      | zero => rfl
      | succ i =>
        have hi' : i ≠ cs.count sep := by
          rw [hc, List.count_cons_self] at hi
          omega
        exact ih hi'
    · rw [List.count_cons_of_ne hc] at hi
      rw [if_neg hc, if_neg hc, List.getElem?_modifyHead, List.getElem?_modifyHead, ih hi]

namespace Expect

variable {a b cs l : List Char} {ls : List (List Char)} {i j k n : Nat}

/-! ### What a line expects -/

/-- The comment on the line has nothing but blanks in front of it. -/
def StandsAlone (l : List Char) : Prop :=
  ∃ start, Text.firstSuffix? startsExpectation l = some start ∧
    Text.allBlank (l.take start) = true

/-- The comment on the line has something else in front of it. -/
def Trails (l : List Char) : Prop :=
  ∃ start, Text.firstSuffix? startsExpectation l = some start ∧
    Text.allBlank (l.take start) = false

theorem expectedLine?_eq_some_iff :
    expectedLine? i l = some n ↔ StandsAlone l ∧ i + 1 = n ∨ Trails l ∧ i = n := by
  unfold expectedLine? StandsAlone Trails
  cases Text.firstSuffix? startsExpectation l with
  | none => simp
  | some start =>
    cases hblank : Text.allBlank (l.take start) with
    | true => simp [hblank]
    | false => simp [hblank]

/-- A comment further down speaks of a line that is as much further down. -/
theorem expectedLine?_add (k i : Nat) (l : List Char) :
    expectedLine? (k + i) l = (expectedLine? i l).map (k + ·) := by
  unfold expectedLine?
  cases Text.firstSuffix? startsExpectation l with
  | none => rfl
  | some start =>
    cases hblank : Text.allBlank (l.take start) with
    | true => simp [hblank, Nat.add_assoc]
    | false => simp [hblank]

theorem mem_expectedFrom_iff :
    n ∈ expectedFrom k ls ↔ ∃ i l, ls[i]? = some l ∧ expectedLine? (k + i) l = some n := by
  induction ls generalizing k with
  | nil => simp [expectedFrom]
  | cons l ls ih =>
    have hcons : n ∈ expectedFrom k (l :: ls) ↔
        expectedLine? k l = some n ∨ n ∈ expectedFrom (k + 1) ls := by
      rw [expectedFrom]
      split
      · next m hm => rw [List.mem_cons, hm, Option.some.injEq, eq_comm]
      · next hnone => simp [hnone]
    rw [hcons, ih]
    constructor
    · rintro (h | ⟨i, l', hl', h⟩)
      · exact ⟨0, l, rfl, h⟩
      · refine ⟨i + 1, l', hl', ?_⟩
        rwa [Nat.add_assoc, Nat.add_comm 1 i] at h
    · rintro ⟨i, l', hl', h⟩
      cases i with
      | zero =>
        obtain rfl := Option.some.inj hl'
        exact .inl h
      | succ i =>
        refine .inr ⟨i, l', hl', ?_⟩
        rwa [Nat.add_assoc, Nat.add_comm 1 i]

/-! ### Expected lines ascend -/

theorem le_of_mem_expectedFrom (h : n ∈ expectedFrom k ls) : k ≤ n := by
  obtain ⟨i, l, -, h⟩ := mem_expectedFrom_iff.mp h
  rcases expectedLine?_eq_some_iff.mp h with ⟨-, rfl⟩ | ⟨-, rfl⟩ <;> omega

/-- A comment speaks of its line or the next one, so of no line before that of an earlier
comment. -/
theorem pairwise_expectedFrom (k : Nat) (ls : List (List Char)) :
    (expectedFrom k ls).Pairwise (· ≤ ·) := by
  induction ls generalizing k with
  | nil => exact .nil
  | cons l ls ih =>
    rw [expectedFrom]
    split
    · next m hm =>
      refine List.pairwise_cons.mpr ⟨fun n hn => ?_, ih (k + 1)⟩
      have hle := le_of_mem_expectedFrom hn
      rcases expectedLine?_eq_some_iff.mp hm with ⟨-, rfl⟩ | ⟨-, rfl⟩ <;> omega
    · exact ih (k + 1)

theorem pairwise_lt_eraseDups : {ls : List Nat} → ls.Pairwise (· ≤ ·) →
    ls.eraseDups.Pairwise (· < ·)
  | [], _ => .nil
  | l :: ls, h => by
    obtain ⟨hl, hls⟩ := List.pairwise_cons.mp h
    rw [List.eraseDups_cons]
    refine List.pairwise_cons.mpr ⟨fun n hn => ?_, pairwise_lt_eraseDups (hls.filter _)⟩
    obtain ⟨hmem, hne⟩ := List.mem_filter.mp (List.mem_eraseDups.mp hn)
    exact Nat.lt_of_le_of_ne (hl n hmem) fun heq => by simp [heq] at hne
termination_by ls => ls.length
decreasing_by exact Nat.lt_succ_of_le (List.length_filter_le _ _)

theorem pairwise_expectedLines (cs : List Char) : (expectedLines cs).Pairwise (· < ·) :=
  pairwise_lt_eraseDups (pairwise_expectedFrom 0 _)

/-! ### What the lines of a text expect -/

/-- The line that the comment on line `i` of a text speaks of, if there is a comment. -/
def expectationAt? (cs : List Char) (i : Nat) : Option Nat :=
  (Text.newlinePieces cs)[i]?.bind (expectedLine? i)

theorem mem_expectedLines_iff : n ∈ expectedLines cs ↔ ∃ i, expectationAt? cs i = some n := by
  simp only [expectedLines, List.mem_eraseDups, mem_expectedFrom_iff, Nat.zero_add,
    expectationAt?, Option.bind_eq_some_iff]

theorem expectationAt?_eq_some_iff :
    expectationAt? cs i = some n ↔ ∃ l, (Text.newlinePieces cs)[i]? = some l ∧
      (StandsAlone l ∧ i + 1 = n ∨ Trails l ∧ i = n) := by
  simp only [expectationAt?, Option.bind_eq_some_iff, expectedLine?_eq_some_iff]

theorem expectationAt?_of_length_le (h : (Text.newlinePieces cs).length ≤ i) :
    expectationAt? cs i = none := by
  rw [expectationAt?, List.getElem?_eq_none h]
  rfl

/-- Whatever is put into a line, as long as it is no newline, the other lines expect what they
did. -/
theorem expectationAt?_insert {c : Char} (hc : c ≠ '\n') (hi : i ≠ a.count '\n') :
    expectationAt? (a ++ c :: b) i = expectationAt? (a ++ b) i := by
  rw [expectationAt?, expectationAt?, Text.newlinePieces, Text.newlinePieces,
    Text.getElem?_pieces_insert hc a b hi]

/-! ### Texts joined by a newline -/

theorem expectationAt?_append_newline (h : i < (Text.newlinePieces a).length) (b : List Char) :
    expectationAt? (a ++ '\n' :: b) i = expectationAt? a i := by
  rw [expectationAt?, Text.newlinePieces, Text.pieces_append, ← Text.newlinePieces,
    List.getElem?_append_left h, expectationAt?]

/-- The lines of the second text expect what they did, moved by the lines of the first. -/
theorem expectationAt?_append_newline_add (a b : List Char) (j : Nat) :
    expectationAt? (a ++ '\n' :: b) ((Text.newlinePieces a).length + j) =
      (expectationAt? b j).map ((Text.newlinePieces a).length + ·) := by
  rw [expectationAt?, Text.newlinePieces, Text.pieces_append, ← Text.newlinePieces,
    ← Text.newlinePieces, List.getElem?_append_right (Nat.le_add_right _ j),
    Nat.add_sub_cancel_left, expectationAt?]
  cases (Text.newlinePieces b)[j]? with
  | none => rfl
  | some l => exact expectedLine?_add _ j l

/-- A comment that stands alone at the end of the first text may speak of a line of the second, but
it does so in the first text, too. -/
theorem mem_expectedLines_append_newline :
    n ∈ expectedLines (a ++ '\n' :: b) ↔
      n ∈ expectedLines a ∨ ∃ m ∈ expectedLines b, n = (Text.newlinePieces a).length + m := by
  simp only [mem_expectedLines_iff]
  constructor
  · rintro ⟨i, h⟩
    rcases Nat.lt_or_ge i (Text.newlinePieces a).length with hi | hi
    · exact .inl ⟨i, expectationAt?_append_newline hi b ▸ h⟩
    · obtain ⟨j, rfl⟩ := Nat.exists_eq_add_of_le hi
      rw [expectationAt?_append_newline_add] at h
      obtain ⟨m, hm, rfl⟩ := Option.map_eq_some_iff.mp h
      exact .inr ⟨m, ⟨j, hm⟩, rfl⟩
  · rintro (⟨i, h⟩ | ⟨m, ⟨j, hm⟩, rfl⟩)
    · have hi : i < (Text.newlinePieces a).length := Nat.lt_of_not_le fun hle => by
        rw [expectationAt?_of_length_le hle] at h
        cases h
      exact ⟨i, (expectationAt?_append_newline hi b).trans h⟩
    · refine ⟨(Text.newlinePieces a).length + j, ?_⟩
      rw [expectationAt?_append_newline_add, hm]
      rfl

/-! ### The end of a text -/

theorem le_length_of_mem_expectedLines (h : n ∈ expectedLines cs) :
    n ≤ (Text.newlinePieces cs).length := by
  obtain ⟨i, hi⟩ := mem_expectedLines_iff.mp h
  obtain ⟨l, hl, hn⟩ := expectationAt?_eq_some_iff.mp hi
  have hlt : i < (Text.newlinePieces cs).length := (List.getElem?_eq_some_iff.mp hl).1
  rcases hn with ⟨-, rfl⟩ | ⟨-, rfl⟩ <;> omega

/-- Only a comment that stands alone on the last line speaks of a line that is not there. -/
theorem length_mem_expectedLines_iff :
    (Text.newlinePieces cs).length ∈ expectedLines cs ↔
      ∃ l, (Text.newlinePieces cs).getLast? = some l ∧ StandsAlone l := by
  simp only [mem_expectedLines_iff, expectationAt?_eq_some_iff, List.getLast?_eq_getElem?]
  constructor
  · rintro ⟨i, l, hl, hn⟩
    have hlt : i < (Text.newlinePieces cs).length := (List.getElem?_eq_some_iff.mp hl).1
    rcases hn with ⟨halone, hn⟩ | ⟨-, hn⟩
    · rw [← hn, Nat.add_sub_cancel]
      exact ⟨l, hl, halone⟩
    · omega
  · rintro ⟨l, hl, halone⟩
    have hlt := (List.getElem?_eq_some_iff.mp hl).1
    exact ⟨_, l, hl, .inl ⟨halone, by omega⟩⟩

/-- **Expected errors belong to lines that newlines separate.**  Of two texts joined by a newline,
errors are expected on the lines of both, where those of the second come behind those of the first.
No line is expected behind the one that follows the text, and that one only by a comment that stands
alone on the last line.  A line expects what its own comment says, whatever other character is put
into another line. -/
theorem expectedLines_byLines (a b : List Char) :
    (∀ n, n ∈ expectedLines (a ++ '\n' :: b) ↔
      n ∈ expectedLines a ∨ ∃ m ∈ expectedLines b, n = (Text.newlinePieces a).length + m) ∧
    ((∀ n ∈ expectedLines a, n ≤ (Text.newlinePieces a).length) ∧
      ((Text.newlinePieces a).length ∈ expectedLines a ↔
        ∃ l, (Text.newlinePieces a).getLast? = some l ∧ StandsAlone l)) ∧
    (∀ n, n ∈ expectedLines a ↔ ∃ i, expectationAt? a i = some n) ∧
    ∀ c i, c ≠ '\n' → i ≠ a.count '\n' →
      expectationAt? (a ++ c :: b) i = expectationAt? (a ++ b) i :=
  ⟨fun _ => mem_expectedLines_append_newline,
    ⟨fun _ => le_length_of_mem_expectedLines, length_mem_expectedLines_iff⟩,
    fun _ => mem_expectedLines_iff, fun _ _ => expectationAt?_insert⟩

/-- A text whose last line is a comment that stands alone. -/
def commentAtEnd : List Char :=
  "f(a);\n// $ExpectError".toList

/-- A text that starts with a line on which an error is expected. -/
def errorAtStart : List Char :=
  "f(1); // $ExpectError".toList

/-- Where the two are joined, both comments speak of one line, also behind a form feed. -/
theorem expectedLines_byLines_joined :
    2 ∈ expectedLines commentAtEnd ∧ 2 ≤ (Text.newlinePieces commentAtEnd).length ∧
      2 ∈ expectedLines (commentAtEnd ++ '\n' :: errorAtStart) ∧
      ('\x0c' ≠ '\n' ∧ 2 ≠ ['f', '(', 'a', ')'].count '\n') ∧
      expectationAt? (['f', '(', 'a', ')'] ++ '\x0c' :: (";\n// $ExpectError\n".toList ++
        errorAtStart)) 2 = some 2 := by
  have hcomment : 2 ∈ expectedLines commentAtEnd := by decide +kernel
  obtain ⟨hjoined, ⟨hle, -⟩, -⟩ := expectedLines_byLines commentAtEnd errorAtStart
  obtain ⟨-, -, -, hinsert⟩ := expectedLines_byLines ['f', '(', 'a', ')']
    (";\n// $ExpectError\n".toList ++ errorAtStart)
  have hother : '\x0c' ≠ '\n' ∧ 2 ≠ ['f', '(', 'a', ')'].count '\n' := by decide
  refine ⟨hcomment, hle 2 hcomment, (hjoined 2).mpr (.inl hcomment), hother, ?_⟩
  rw [hinsert _ _ hother.1 hother.2]
  decide +kernel

end Expect

end DeclLint
