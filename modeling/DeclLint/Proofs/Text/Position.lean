/-
DeclLint/Proofs/Text/Position.lean

Positions and lines.  The position of an offset names a line of the text and a place
in it: line `i` starts behind the lines before it and their newlines (`lineStart`),
and the offset is that start and the character together (`position_lineStart`).
Every offset of a text comes about in this way (`exists_eq_lineStart`).

What carries this is that a text comes apart at its first newline
(`newlinePieces_cases`), and positions with it (`position_append_newline`).  So facts
about lines follow by `line_induction`.
-/
import DeclLint.Proofs.Path.RoundTrip
import DeclLint.Text.Line
import DeclLint.Text.Position
import Mathlib.Algebra.Ring.Nat
import Mathlib.Data.List.TakeWhile

namespace DeclLint.Text

variable {cs ds l word : List Char} {i k n : Nat}

/-! ### Lines -/

theorem newlinePieces_append_newline (hl : '\n' ∉ l) (ds : List Char) :
    newlinePieces (l ++ '\n' :: ds) = l :: newlinePieces ds := by
  rw [newlinePieces, pieces_append, pieces_of_notMem hl]
  rfl

/-- A text is one line, or a first line in front of a newline and further lines. -/
theorem newlinePieces_cases (cs : List Char) :
    ('\n' ∉ cs ∧ newlinePieces cs = [cs]) ∨
      ∃ l ds, '\n' ∉ l ∧ cs = l ++ '\n' :: ds ∧ newlinePieces cs = l :: newlinePieces ds := by
  by_cases hmem : '\n' ∈ cs
  · obtain ⟨l, ds, rfl, hl⟩ := List.eq_append_cons_of_mem hmem
    exact .inr ⟨l, ds, hl, rfl, newlinePieces_append_newline hl ds⟩
  · exact .inl ⟨hmem, pieces_of_notMem hmem⟩

/-- What holds of the first line of any text, and of a line behind a newline if it holds of it in
the rest, holds of every line. -/
@[elab_as_elim]
theorem line_induction {motive : ∀ cs i, (newlinePieces cs)[i]? = some l → Prop}
    (first : ∀ ds h, '\n' ∉ l → motive (l ++ ds) 0 h)
    (later : ∀ l' ds i h h', '\n' ∉ l' → motive ds i h → motive (l' ++ '\n' :: ds) (i + 1) h')
    {cs : List Char} {i : Nat} (hl : (newlinePieces cs)[i]? = some l) : motive cs i hl := by
  induction i generalizing cs with
  | zero =>
    rcases newlinePieces_cases cs with ⟨hmem, hcs⟩ | ⟨l', ds, hmem, rfl, hcs⟩
    · obtain rfl : cs = l := by simpa [hcs] using hl
      simpa using first [] (by simpa using hl) hmem
    · obtain rfl : l' = l := by simpa [hcs] using hl
      exact first _ hl hmem
  | succ i ih =>
    rcases newlinePieces_cases cs with ⟨-, hcs⟩ | ⟨l', ds, hmem, rfl, hcs⟩
    · rw [hcs] at hl
      cases hl
    · have hrest : (newlinePieces ds)[i]? = some l := by
        rw [← hl, hcs, List.getElem?_cons_succ]
      exact later l' ds i hrest hl hmem (ih hrest)

/-- The offset at which line `i` starts. -/
def lineStart (ls : List (List Char)) (i : Nat) : Nat :=
  ((ls.take i).map (·.length + 1)).sum

@[simp] theorem lineStart_zero (ls : List (List Char)) : lineStart ls 0 = 0 := rfl

@[simp] theorem lineStart_cons_succ (l : List Char) (ls : List (List Char)) (i : Nat) :
    lineStart (l :: ls) (i + 1) = l.length + 1 + lineStart ls i := by
  simp [lineStart]

/-- A word without newlines stands at the end of a line if it stands at the end of a text. -/
theorem isPrefix_line_of_isPrefix (hword : '\n' ∉ word) (h : word <+: cs) :
    ∃ l ls, newlinePieces cs = l :: ls ∧ word <+: l := by
  rcases newlinePieces_cases cs with ⟨-, hcs⟩ | ⟨l, ds, -, rfl, hcs⟩
  · exact ⟨cs, [], hcs, h⟩
  · refine ⟨l, newlinePieces ds, hcs, ?_⟩
    have hline : l ++ ['\n'] <+: l ++ '\n' :: ds :=
      List.prefix_append_right_inj l |>.mpr (List.prefix_append ['\n'] ds)
    -- a longer word would reach over the newline
    have hover : ¬ l ++ ['\n'] <+: word := fun hover =>
      hword (hover.subset (List.mem_append_right l (List.mem_singleton.mpr rfl)))
    rcases List.prefix_or_prefix_of_prefix h hline with hshort | hlong
    · rcases List.prefix_concat_iff.mp hshort with rfl | hl
      · exact absurd (List.prefix_refl _) hover
      · exact hl
    · exact absurd hlong hover

/-- The offset is at the start of a line. -/
def startsLine (cs : List Char) (n : Nat) : Bool :=
  n = 0 || cs[n - 1]? = some '\n'

theorem startsLine_append (hl : '\n' ∉ l) (hn : n ≤ l.length) (ds : List Char) :
    startsLine (l ++ ds) n = true ↔ n = 0 := by
  cases n with
  | zero => simp [startsLine]
  | succ n =>
    have hlast : (l ++ ds)[n]? ≠ some '\n' := by
      rw [List.getElem?_append_left hn]
      exact fun h => hl (List.mem_of_getElem? h)
    simp [startsLine, hlast]

theorem startsLine_append_newline (l ds : List Char) (n : Nat) :
    startsLine (l ++ '\n' :: ds) (l.length + 1 + n) = startsLine ds n := by
  cases n with
  | zero => simp [startsLine]
  | succ n =>
    have hlast : (l ++ '\n' :: ds)[l.length + 1 + n]? = ds[n]? := by
      rw [List.getElem?_append_right (by omega), Nat.add_assoc, Nat.add_sub_cancel_left,
        Nat.add_comm, List.getElem?_cons_succ]
    simp [startsLine, hlast]

/-- A line starts where one of the lines does. -/
theorem startsLine_lineStart_add (hl : (newlinePieces cs)[i]? = some l) (hk : k ≤ l.length) :
    startsLine cs (lineStart (newlinePieces cs) i + k) = true ↔ k = 0 := by
  induction hl using line_induction with
  | first ds _ hmem =>
    rw [lineStart_zero, Nat.zero_add]
    exact startsLine_append hmem hk ds
  | later l' ds i _ _ hmem ih =>
    rw [newlinePieces_append_newline hmem, lineStart_cons_succ, Nat.add_assoc,
      startsLine_append_newline, ih]

theorem lineStart_lt_lineStart {ls : List (List Char)} {j : Nat} (hij : i < j)
    (hj : j ≤ ls.length) : lineStart ls i < lineStart ls j := by
  induction ls generalizing i j with
  | nil => exact absurd hj (by simp; omega)
  | cons l ls ih =>
    obtain ⟨j, rfl⟩ := Nat.exists_eq_add_one_of_ne_zero (Nat.ne_zero_of_lt hij)
    rw [lineStart_cons_succ]
    cases i with
    | zero =>
      rw [lineStart_zero]
      omega
    | succ i =>
      have := ih (Nat.lt_of_succ_lt_succ hij) (Nat.le_of_succ_le_succ hj)
      rw [lineStart_cons_succ]
      omega

/-! ### Positions -/

theorem position_natCast (cs : List Char) (n : Nat) :
    position cs n = ⟨(cs.take n).count '\n', n - lastLineStart (cs.take n)⟩ := by
  have htake : cs.take (before cs.length n) = cs.take n := by
    rw [before, if_neg (by omega), Int.toNat_natCast, List.take_eq_take_iff]
    omega
  rw [position, htake]

theorem lastLineStart_of_notMem (h : '\n' ∉ cs) : lastLineStart cs = 0 := by
  have hall : cs.reverse.takeWhile (· != '\n') = cs.reverse := by
    refine List.takeWhile_eq_self_iff.mpr fun c hc => bne_iff_ne.mpr ?_
    rintro rfl
    exact h (List.mem_reverse.mp hc)
  rw [lastLineStart, hall, List.length_reverse, Nat.sub_self]

theorem lastLineStart_append_newline (cs ds : List Char) :
    lastLineStart (cs ++ '\n' :: ds) = cs.length + 1 + lastLineStart ds := by
  have hle := (ds.reverse.takeWhile_sublist (· != '\n')).length_le
  -- the last line is one of the rest, also where the rest has no newline
  have hlast : ((cs ++ '\n' :: ds).reverse.takeWhile (· != '\n')).length =
      (ds.reverse.takeWhile (· != '\n')).length := by
    rw [List.reverse_append, List.reverse_cons, List.append_assoc, List.takeWhile_append]
    split
    · next hall => simp [← hall]
    · rfl
  rw [lastLineStart, lastLineStart, hlast, List.length_append, List.length_cons]
  rw [List.length_reverse] at hle
  omega

/-- On the first line, the character is the offset. -/
theorem position_append (h : '\n' ∉ cs) (hn : n ≤ cs.length) (ds : List Char) :
    position (cs ++ ds) n = ⟨0, n⟩ := by
  have hmem : '\n' ∉ cs.take n := fun hc => h (List.mem_of_mem_take hc)
  rw [position_natCast, List.take_append_of_le_length hn, List.count_eq_zero_of_not_mem hmem,
    lastLineStart_of_notMem hmem]
  rfl

/-- Behind a newline, positions are those of the rest. -/
theorem position_append_newline (cs ds : List Char) (n : Nat) :
    position (cs ++ '\n' :: ds) ((cs.length + 1 + n : Nat) : Int) =
      ⟨cs.count '\n' + 1 + (position ds n).line, (position ds n).character⟩ := by
  have htake : (cs ++ '\n' :: ds).take (cs.length + 1 + n) = cs ++ '\n' :: ds.take n := by
    rw [Nat.add_assoc, Nat.add_comm 1 n, List.take_length_add_append, List.take_succ_cons]
  rw [position_natCast, position_natCast, htake, lastLineStart_append_newline, Position.mk.injEq,
    List.count_append, List.count_cons_self]
  refine ⟨?_, ?_⟩ <;> push_cast <;> omega

/-- **The position of a place on a line** is the line and the place. -/
theorem position_lineStart (hl : (newlinePieces cs)[i]? = some l) (hk : k ≤ l.length) :
    position cs ((lineStart (newlinePieces cs) i + k : Nat) : Int) = ⟨i, k⟩ := by
  induction hl using line_induction with
  | first ds _ hmem =>
    rw [lineStart_zero, Nat.zero_add]
    exact position_append hmem hk ds
  | later l' ds i _ _ hmem ih =>
    rw [newlinePieces_append_newline hmem, lineStart_cons_succ, Nat.add_assoc,
      position_append_newline, ih, List.count_eq_zero_of_not_mem hmem]
    simp [Nat.add_comm]

/-- Every offset is at a place on a line, and the text from there on starts with the rest of the
line. -/
theorem exists_eq_lineStart (hn : n ≤ cs.length) :
    ∃ i l k, (newlinePieces cs)[i]? = some l ∧ k ≤ l.length ∧
      n = lineStart (newlinePieces cs) i + k ∧
      (newlinePieces (cs.drop n)).head? = some (l.drop k) := by
  induction hlength : cs.length using Nat.strong_induction_on generalizing cs n with
  | _ length ih =>
    subst hlength
    rcases newlinePieces_cases cs with ⟨hmem, hcs⟩ | ⟨l, ds, hmem, rfl, hcs⟩
    · refine ⟨0, cs, n, by rw [hcs]; rfl, hn, by simp, ?_⟩
      rw [newlinePieces, pieces_of_notMem fun h => hmem (List.mem_of_mem_drop h)]
      rfl
    · by_cases hfirst : n ≤ l.length
      · refine ⟨0, l, n, by rw [hcs]; rfl, hfirst, by simp, ?_⟩
        rw [List.drop_append_of_le_length hfirst, newlinePieces, pieces_append,
          pieces_of_notMem fun h => hmem (List.mem_of_mem_drop h)]
        rfl
      -- behind the first line, the place is one of the rest
      · obtain ⟨m, rfl⟩ := Nat.exists_eq_add_of_lt (Nat.not_le.mp hfirst)
        simp only [List.length_append, List.length_cons] at hn ih
        have hm : m ≤ ds.length := by omega
        obtain ⟨i, l', k, hl', hk, rfl, hhead⟩ := ih ds.length (by omega) hm rfl
        refine ⟨i + 1, l', k, ?_, hk, ?_, ?_⟩
        · rw [hcs, List.getElem?_cons_succ, hl']
        · rw [hcs, lineStart_cons_succ]
          omega
        · rw [Nat.add_assoc, List.drop_length_add_append, List.drop_succ_cons, hhead]

/-- A place on a line is at one offset only. -/
theorem lineStart_add_inj {j m : Nat} {l' : List Char} (hl : (newlinePieces cs)[i]? = some l)
    (hk : k ≤ l.length) (hl' : (newlinePieces cs)[j]? = some l') (hm : m ≤ l'.length)
    (h : lineStart (newlinePieces cs) i + k = lineStart (newlinePieces cs) j + m) :
    i = j ∧ k = m := by
  have hposition := position_lineStart hl hk
  rw [h, position_lineStart hl' hm, Position.mk.injEq, Int.natCast_inj] at hposition
  exact ⟨hposition.1.symm, hposition.2.symm⟩

theorem lineStart_add_le (hl : (newlinePieces cs)[i]? = some l) (hk : k ≤ l.length) :
    lineStart (newlinePieces cs) i + k ≤ cs.length := by
  induction hl using line_induction with
  | first ds _ _ =>
    rw [lineStart_zero, List.length_append]
    omega
  | later l' ds i _ _ hmem ih =>
    rw [newlinePieces_append_newline hmem, lineStart_cons_succ, List.length_append,
      List.length_cons]
    omega

/-- From a place on a line on, the text starts with the rest of the line. -/
theorem head?_newlinePieces_drop (hl : (newlinePieces cs)[i]? = some l) (hk : k ≤ l.length) :
    (newlinePieces (cs.drop (lineStart (newlinePieces cs) i + k))).head? = some (l.drop k) := by
  obtain ⟨j, l', m, hl', hm, heq, hhead⟩ := exists_eq_lineStart (lineStart_add_le hl hk)
  obtain ⟨rfl, rfl⟩ := lineStart_add_inj hl hk hl' hm heq
  obtain rfl := Option.some.inj (hl.symm.trans hl')
  exact hhead

/-- A word without newlines is found again on the line that its position names. -/
theorem exists_line_of_isPrefix (hword : '\n' ∉ word) (hn : n ≤ cs.length)
    (h : word <+: cs.drop n) :
    ∃ i l k, position cs n = ⟨i, (k : Nat)⟩ ∧ (newlinePieces cs)[i]? = some l ∧
      word <+: l.drop k := by
  obtain ⟨i, l, k, hl, hk, rfl, hhead⟩ := exists_eq_lineStart hn
  obtain ⟨rest, ls, hrest, hstart⟩ := isPrefix_line_of_isPrefix hword h
  rw [hrest, List.head?_cons, Option.some.injEq] at hhead
  exact ⟨i, l, k, position_lineStart hl hk, hl, hhead ▸ hstart⟩

end DeclLint.Text
