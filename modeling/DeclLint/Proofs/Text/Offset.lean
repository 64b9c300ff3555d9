/-
DeclLint/Proofs/Text/Offset.lean

Offsets and positions are two names for one thing.  A position is a place in a text if
it names a line of it and a character of this line, or the end behind its last one
(`IsPlace`).  Each place is at one offset (`offsetOf`), and `position` goes the other
way: at an offset from the start of the text up to its end it gives the place that is
there, and there is no other (`position_eq_iff`).

So neither way loses anything, and both keep the order in which a text is read
(`precedes_iff`): a later line starts behind the end of every earlier one, since the
newline between them has an offset of its own (`add_lt_lineStart`).
-/
import DeclLint.Proofs.Text.Position
import DeclLint.Rule.Basic

namespace DeclLint.Text

variable {cs : List Char} {m n : Int} {p q : Position}

/-! ### Places -/

/-- The position names a line of the text, and a character of it or its end. -/
def IsPlace (cs : List Char) (p : Position) : Prop :=
  ∃ l, (newlinePieces cs)[p.line]? = some l ∧ 0 ≤ p.character ∧ p.character ≤ l.length

/-- The offset of a place: the lengths of the lines before it, each with its newline, and the
character. -/
def offsetOf (cs : List Char) (p : Position) : Int :=
  lineStart (newlinePieces cs) p.line + p.character

/-- The position that a failure is reported at. -/
def reportedAt (f : Failure) : Position :=
  ⟨f.line.toNat, f.character⟩

/-- The position is read before the other. -/
def Precedes (p q : Position) : Prop :=
  p.line < q.line ∨ p.line = q.line ∧ p.character < q.character

theorem IsPlace.exists_natCast (h : IsPlace cs p) : ∃ i l, ∃ k : Nat, p = ⟨i, k⟩ ∧
    (newlinePieces cs)[i]? = some l ∧ k ≤ l.length := by
  obtain ⟨i, character⟩ := p
  obtain ⟨l, hl, hpos, hle⟩ := h
  obtain ⟨k, rfl⟩ := Int.eq_ofNat_of_zero_le hpos
  exact ⟨i, l, k, rfl, hl, Int.ofNat_le.mp hle⟩

/-! ### Offsets of places -/

/-- At the offset of a place, the position is this place. -/
theorem position_offsetOf (h : IsPlace cs p) : position cs (offsetOf cs p) = p := by
  obtain ⟨i, l, k, rfl, hl, hk⟩ := h.exists_natCast
  have hoffset : offsetOf cs ⟨i, k⟩ = ((lineStart (newlinePieces cs) i + k : Nat) : Int) := by
    rw [offsetOf]
    push_cast
    rfl
  rw [hoffset, position_lineStart hl hk]

/-- The offset of a place lies in the text or at its end. -/
theorem offsetOf_mem (h : IsPlace cs p) : 0 ≤ offsetOf cs p ∧ offsetOf cs p ≤ cs.length := by
  obtain ⟨i, l, k, rfl, hl, hk⟩ := h.exists_natCast
  have hle := lineStart_add_le hl hk
  simp only [offsetOf]
  omega

theorem isPlace_position (h : 0 ≤ n ∧ n ≤ cs.length) :
    IsPlace cs (position cs n) ∧ offsetOf cs (position cs n) = n := by
  obtain ⟨n, rfl⟩ := Int.eq_ofNat_of_zero_le h.1
  obtain ⟨i, l, k, hl, hk, rfl, -⟩ := exists_eq_lineStart (Int.ofNat_le.mp h.2)
  rw [position_lineStart hl hk]
  refine ⟨⟨l, hl, ?_, ?_⟩, ?_⟩
  · exact Int.natCast_nonneg k
  · exact Int.ofNat_le.mpr hk
  · rw [offsetOf]
    push_cast
    rfl

/-- An offset of the text has this position exactly if the position is a place at this offset. -/
theorem position_eq_iff :
    (0 ≤ n ∧ n ≤ cs.length) ∧ position cs n = p ↔ IsPlace cs p ∧ offsetOf cs p = n := by
  constructor
  · rintro ⟨h, rfl⟩
    exact isPlace_position h
  · rintro ⟨h, rfl⟩
    exact ⟨offsetOf_mem h, position_offsetOf h⟩

/-! ### Order -/

/-- A line ends before any later one starts. -/
theorem add_lt_lineStart {ls : List (List Char)} {i j : Nat} {l : List Char}
    (hl : ls[i]? = some l) (hij : i < j) (hj : j ≤ ls.length) :
    lineStart ls i + l.length < lineStart ls j := by
  have hnext : lineStart ls (i + 1) = lineStart ls i + (l.length + 1) := by
    rw [lineStart, lineStart, List.take_add_one, hl]
    simp
  rcases Nat.lt_or_eq_of_le (Nat.add_one_le_of_lt hij) with hlt | rfl
  · have := lineStart_lt_lineStart hlt hj
    omega
  · omega

theorem offsetOf_lt_of_line_lt (hp : IsPlace cs p) (hq : IsPlace cs q) (h : p.line < q.line) :
    offsetOf cs p < offsetOf cs q := by
  obtain ⟨l, hl, -, hle⟩ := hp
  obtain ⟨l', hl', hpos, -⟩ := hq
  have hj : q.line < (newlinePieces cs).length := (List.getElem?_eq_some_iff.mp hl').1
  have hlt := add_lt_lineStart hl h (Nat.le_of_lt hj)
  rw [offsetOf, offsetOf]
  omega

/-- Places come in the order of their offsets. -/
theorem precedes_iff (hp : IsPlace cs p) (hq : IsPlace cs q) :
    Precedes p q ↔ offsetOf cs p < offsetOf cs q := by
  rcases Nat.lt_trichotomy p.line q.line with hlt | heq | hgt
  · exact iff_of_true (.inl hlt) (offsetOf_lt_of_line_lt hp hq hlt)
  · rw [Precedes, offsetOf, offsetOf, heq]
    omega
  · have hback := offsetOf_lt_of_line_lt hq hp hgt
    refine iff_of_false ?_ (by omega)
    rw [Precedes]
    omega

/-! ### The position of an offset -/

/-- **A position stands for its offset.**  The position of an offset of a text is a place of the
text at this offset, and the only one; positions come in the order of their offsets, so that no two
are the same; and the offset that a failure was made at is found again from the position that it is
reported at. -/
theorem position_onlyPlace (hn : 0 ≤ n ∧ n ≤ cs.length) :
    (∀ p, position cs n = p ↔ IsPlace cs p ∧ offsetOf cs p = n) ∧
    (∀ m : Int, 0 ≤ m ∧ m ≤ cs.length →
      (m < n ↔ Precedes (position cs m) (position cs n)) ∧
      (position cs m = position cs n → m = n)) ∧
    ∀ (file : SourceFile) (rule message : String) (offset : Nat),
      offset ≤ file.text.toList.length →
      offsetOf file.text.toList (reportedAt (Failure.at file rule offset message)) = offset := by
  refine ⟨fun p => ?_, fun m hm => ?_, fun file rule message offset h => ?_⟩
  · rw [← position_eq_iff, and_iff_right hn]
  · obtain ⟨hplace, hoffset⟩ := isPlace_position hn
    obtain ⟨hplace', hoffset'⟩ := isPlace_position hm
    refine ⟨?_, fun heq => ?_⟩
    · rw [precedes_iff hplace' hplace, hoffset, hoffset']
    · rw [← hoffset, ← hoffset', heq]
  · exact (isPlace_position ⟨Int.natCast_nonneg offset, Int.ofNat_le.mpr h⟩).2

/-- Behind an empty line, the offset at the end of a text is at the end of its last line. -/
theorem position_onlyPlace_end :
    (0 ≤ (4 : Int) ∧ (4 : Int) ≤ ['a', '\n', '\n', 'b'].length) ∧
      (0 ≤ (2 : Int) ∧ (2 : Int) ≤ ['a', '\n', '\n', 'b'].length) ∧
      position ['a', '\n', '\n', 'b'] 4 = ⟨2, 1⟩ ∧
      Precedes (position ['a', '\n', '\n', 'b'] 2) ⟨2, 1⟩ := by
  have hend : 0 ≤ (4 : Int) ∧ (4 : Int) ≤ ['a', '\n', '\n', 'b'].length := by decide
  have hmiddle : 0 ≤ (2 : Int) ∧ (2 : Int) ≤ ['a', '\n', '\n', 'b'].length := by decide
  obtain ⟨hplace, horder, -⟩ := position_onlyPlace hend
  have hposition : position ['a', '\n', '\n', 'b'] 4 = ⟨2, 1⟩ :=
    (hplace ⟨2, 1⟩).mpr ⟨⟨['b'], by decide, by decide, by decide⟩, by decide⟩
  exact ⟨hend, hmiddle, hposition, hposition ▸ (horder 2 hmiddle).1.mp (by decide)⟩

end DeclLint.Text
