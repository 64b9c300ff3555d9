/-
DeclLint/Proofs/Directive/First.lean

Which directive of a text is reported.  A directive is banned where its word stands,
a `tslint:disable` only where neither a colon nor a hyphen follows (`BannedAt`).
The scan reports the first banned `ts-ignore`; if there is none, the first banned
`tslint:disable`; and nothing if there is none of these either
(`scan_reports_first`).

The first banned `tslint:disable` can be looked for by going from one to the next: if
one is scoped, the search goes on behind its word (`disableFrom?`).  This passes over
nothing, since no `tslint:disable` starts inside another one (`not_isPrefix_inside`).
-/
import DeclLint.Directive
import DeclLint.Proofs.Directive
import DeclLint.Proofs.Text.Position
import Mathlib.Data.List.Infix
import Mathlib.Order.Bounds.Basic

namespace DeclLint

namespace Text

variable {p : List Char → Bool} {word cs : List Char} {n k : Nat}

/-! ### Searches that find something -/

theorem find?_eq_some_iff :
    find? word cs = some n ↔
      n ≤ cs.length ∧ word <+: cs.drop n ∧ ∀ m < n, ¬ word <+: cs.drop m := by
  simp only [find?, firstSuffix?_eq_some_iff, ← Bool.not_eq_true, List.isPrefixOf_iff_prefix]

/-- A search may start behind places where there is nothing to be found. -/
theorem firstSuffix?_eq_map_drop (hk : k ≤ cs.length) (h : ∀ m < k, p (cs.drop m) = false) :
    firstSuffix? p cs = (firstSuffix? p (cs.drop k)).map (k + ·) := by
  induction k generalizing cs with
  | zero => simp
  | succ k ih =>
    cases cs with
    | nil => cases hk
    | cons c cs =>
      have hhead : p (c :: cs) = false := h 0 (Nat.succ_pos k)
      have htail : firstSuffix? p cs = _ :=
        ih (Nat.le_of_succ_le_succ hk) fun m hm => h (m + 1) (Nat.succ_lt_succ hm)
      rw [firstSuffix?, hhead, htail, List.drop_succ_cons]
      simp [Function.comp_def, Nat.add_right_comm]

/-- What is found is the least place, where there is none behind the end. -/
theorem firstSuffix?_eq_some_iff_isLeast (hp : p [] = false) :
    firstSuffix? p cs = some n ↔ IsLeast {m | p (cs.drop m) = true} n := by
  rw [firstSuffix?_eq_some_iff]
  constructor
  · rintro ⟨-, hn, hbefore⟩
    refine ⟨hn, fun m hm => Nat.le_of_not_lt fun hlt => ?_⟩
    rw [Set.mem_ofPred_eq, hbefore m hlt] at hm
    cases hm
  · rintro ⟨hn, hleast⟩
    refine ⟨Nat.le_of_not_lt fun hlt => ?_, hn, fun m hm => ?_⟩
    · rw [Set.mem_ofPred_eq, List.drop_eq_nil_of_le (Nat.le_of_lt hlt), hp] at hn
      cases hn
    · exact Bool.eq_false_iff.mpr fun hpm => absurd (hleast hpm) (Nat.not_le.mpr hm)

theorem firstSuffix?_eq_none_iff_of_nil (hp : p [] = false) :
    firstSuffix? p cs = none ↔ ∀ n, p (cs.drop n) = false := by
  rw [firstSuffix?_eq_none_iff]
  refine ⟨fun h n => ?_, fun h n _ => h n⟩
  rcases Nat.le_total n cs.length with hn | hn
  · exact h n hn
  · rw [List.drop_eq_nil_of_le hn, hp]

end Text

namespace Directive

variable {d : Directive} {cs rest : List Char} {n m start : Nat} {o : Occurrence}

/-! ### Banned directives -/

/-- The word of a directive stands at an offset; behind a `tslint:disable` neither a colon nor a
hyphen follows. -/
def BannedAt (d : Directive) (cs : List Char) (n : Nat) : Prop :=
  ∃ rest, cs.drop n = d.word ++ rest ∧
    (d = .tslintDisable → ∀ c, rest.head? = some c → c ≠ ':' ∧ c ≠ '-')

theorem word_ne_nil (d : Directive) : d.word ≠ [] := by
  cases d <;> decide +kernel

theorem newline_notMem_word (d : Directive) : '\n' ∉ d.word := by
  cases d <;> decide +kernel

theorem BannedAt.isPrefix (h : d.BannedAt cs n) : d.word <+: cs.drop n := by
  obtain ⟨rest, hrest, -⟩ := h
  exact ⟨rest, hrest.symm⟩

theorem add_length_word_le (h : d.word <+: cs.drop n) : n + d.word.length ≤ cs.length := by
  have hpos := List.length_pos_iff.mpr d.word_ne_nil
  have hle := h.length_le
  rw [List.length_drop] at hle
  omega

/-- The text starts with the directive, banned. -/
def startsBanned : Directive → List Char → Bool
  | .tsIgnore => tsIgnore.word.isPrefixOf
  | .tslintDisable => startsBlanket

theorem startsBanned_nil (d : Directive) : d.startsBanned [] = false := by
  cases d <;> rfl

theorem isScope_eq_false_iff :
    isScope rest = false ↔ ∀ c, rest.head? = some c → c ≠ ':' ∧ c ≠ '-' := by
  cases rest <;> simp [isScope]

theorem startsBanned_iff : d.startsBanned (cs.drop n) = true ↔ d.BannedAt cs n := by
  cases d with
  | tsIgnore =>
    rw [startsBanned, List.isPrefixOf_iff_prefix]
    constructor
    · rintro ⟨rest, hrest⟩
      exact ⟨rest, hrest.symm, nofun⟩
    · exact BannedAt.isPrefix
  | tslintDisable =>
    rw [startsBanned, ← Bool.not_eq_false, startsBlanket_eq_false_iff, not_forall]
    simp only [Classical.not_imp, Bool.not_eq_true, isScope_eq_false_iff, BannedAt,
      forall_const]

/-- The first place at which a directive is banned. -/
def first? (d : Directive) (cs : List Char) : Option Occurrence :=
  (Text.firstSuffix? d.startsBanned cs).map (⟨·, d⟩)

theorem first?_eq_some_iff :
    d.first? cs = some o ↔ o.directive = d ∧ IsLeast {n | d.BannedAt cs n} o.offset := by
  simp only [first?, Option.map_eq_some_iff, ← startsBanned_iff,
    Text.firstSuffix?_eq_some_iff_isLeast d.startsBanned_nil]
  constructor
  · rintro ⟨n, hn, rfl⟩
    exact ⟨rfl, hn⟩
  · rintro ⟨rfl, hn⟩
    exact ⟨o.offset, hn, rfl⟩

theorem first?_eq_none_iff : d.first? cs = none ↔ ∀ n, ¬ d.BannedAt cs n := by
  simp only [first?, Option.map_eq_none_iff, ← startsBanned_iff, Bool.not_eq_true,
    Text.firstSuffix?_eq_none_iff_of_nil d.startsBanned_nil]

theorem scan_eq_or (cs : List Char) : scan cs = (tsIgnore.first? cs).or (tslintDisable.first? cs) :=
  rfl

/-! ### From one to the next -/

/-- No `tslint:disable` starts inside another one. -/
theorem not_isPrefix_inside (h : tslintDisable.word <+: cs) (hn : 0 < n)
    (hlt : n < tslintDisable.word.length) : ¬ tslintDisable.word <+: cs.drop n := by
  have hborder : ∀ n < tslintDisable.word.length, 0 < n →
      ¬ tslintDisable.word.drop n <+: tslintDisable.word := by
    decide +kernel
  intro hagain
  refine hborder n hlt hn (List.prefix_of_prefix_length_le (h.drop n) hagain ?_)
  rw [List.length_drop]
  exact Nat.sub_le _ _

/-- The first `tslint:disable` from an offset on that is not scoped: behind a scoped one the search
is taken up again. -/
def disableFrom? (cs : List Char) (start : Nat) : Option Nat :=
  match _h : Text.find? tslintDisable.word (cs.drop start) with
  | none => none
  | some n =>
    let stop := start + n + tslintDisable.word.length
    if isScope (cs.drop stop) then disableFrom? cs stop else some (start + n)
termination_by cs.length - start
decreasing_by
  have hstart := (Text.find?_eq_some_iff.mp _h).2.1
  rw [List.drop_drop] at hstart
  have hle := add_length_word_le hstart
  have hpos := List.length_pos_iff.mpr tslintDisable.word_ne_nil
  omega

theorem startsBlanket_eq_false_of_not_isPrefix (h : ¬ tslintDisable.word <+: cs) :
    startsBlanket cs = false :=
  startsBlanket_eq_false_iff.mpr fun rest hrest => absurd ⟨rest, hrest.symm⟩ h

/-- Behind a scoped `tslint:disable`, as before it, there is no banned one up to its end. -/
theorem firstSuffix?_eq_of_isScope (hfind : Text.find? tslintDisable.word cs = some n)
    (hscope : isScope (cs.drop (n + tslintDisable.word.length)) = true) :
    Text.firstSuffix? startsBlanket cs =
      (Text.firstSuffix? startsBlanket (cs.drop (n + tslintDisable.word.length))).map
        (n + tslintDisable.word.length + ·) := by
  obtain ⟨-, hstart, hbefore⟩ := Text.find?_eq_some_iff.mp hfind
  refine Text.firstSuffix?_eq_map_drop (add_length_word_le hstart) fun m hm => ?_
  rcases Nat.lt_trichotomy m n with hlt | rfl | hgt
  · exact startsBlanket_eq_false_of_not_isPrefix (hbefore m hlt)
  · refine startsBlanket_eq_false_iff.mpr fun rest hrest => ?_
    rwa [← List.drop_drop, hrest, List.drop_left] at hscope
  · refine startsBlanket_eq_false_of_not_isPrefix ?_
    have hinside := not_isPrefix_inside hstart (n := m - n) (by omega) (by omega)
    rwa [List.drop_drop, Nat.add_sub_cancel' (Nat.le_of_lt hgt)] at hinside

/-- **Going from one to the next passes over nothing.** -/
theorem disableFrom?_eq (cs : List Char) (start : Nat) :
    disableFrom? cs start =
      (Text.firstSuffix? startsBlanket (cs.drop start)).map (start + ·) := by
  fun_induction disableFrom? cs start with
  | case1 start hnone =>
    have hfalse : Text.firstSuffix? startsBlanket (cs.drop start) = none := by
      refine (Text.firstSuffix?_eq_none_iff_of_nil rfl).mpr fun n => ?_
      refine startsBlanket_eq_false_of_not_isPrefix fun ⟨rest, hrest⟩ => ?_
      refine Text.find?_eq_none_iff.mp hnone ((cs.drop start).take n) rest ?_
      rw [List.append_assoc, hrest, List.take_append_drop]
    rw [hfalse, Option.map_none]
  | case2 start n hfind stop hscope ih =>
    have hdrop : (cs.drop start).drop (n + tslintDisable.word.length) = cs.drop stop := by
      rw [List.drop_drop, ← Nat.add_assoc]
    rw [ih, firstSuffix?_eq_of_isScope hfind (hdrop ▸ hscope), hdrop, Option.map_map]
    refine congrArg (Option.map · _) (funext fun m => ?_)
    show start + n + _ + m = start + (n + _ + m)
    rw [Nat.add_assoc, Nat.add_assoc, Nat.add_assoc]
  | case3 start n hfind stop hscope =>
    obtain ⟨hle, ⟨rest, hrest⟩, hbefore⟩ := Text.find?_eq_some_iff.mp hfind
    have hfirst : Text.firstSuffix? startsBlanket (cs.drop start) = some n := by
      refine Text.firstSuffix?_eq_some_iff.mpr ⟨hle, ?_, fun m hm => ?_⟩
      · refine startsBanned_iff (d := .tslintDisable) |>.mpr ⟨rest, hrest.symm, fun _ => ?_⟩
        rw [← isScope_eq_false_iff, ← Bool.not_eq_true]
        rwa [← List.drop_drop, ← List.drop_drop, ← hrest, List.drop_left] at hscope
      · exact startsBlanket_eq_false_of_not_isPrefix (hbefore m hm)
    rw [hfirst, Option.map_some]

/-! ### What is reported -/

/-- The report of a text: the first place at which the directive is banned, and a `tslint:disable`
only if no `ts-ignore` stands anywhere.  The position of the place names a line of the text that
goes on with the word of the directive there. -/
structure IsReported (cs : List Char) (o : Occurrence) : Prop where
  first : IsLeast {n | o.directive.BannedAt cs n} o.offset
  noIgnore : o.directive = .tslintDisable → ∀ n, ¬ BannedAt .tsIgnore cs n
  onLine : ∃ i l k, Text.position cs o.offset = ⟨i, (k : Nat)⟩ ∧
    (Text.newlinePieces cs)[i]? = some l ∧ o.directive.word <+: l.drop k

theorem exists_line_of_bannedAt (h : d.BannedAt cs n) :
    ∃ i l k, Text.position cs n = ⟨i, (k : Nat)⟩ ∧
      (Text.newlinePieces cs)[i]? = some l ∧ d.word <+: l.drop k :=
  Text.exists_line_of_isPrefix d.newline_notMem_word
    (Nat.le_of_add_right_le (add_length_word_le h.isPrefix)) h.isPrefix

/-- **The first banned directive is reported**, a `ts-ignore` before any `tslint:disable`, and
nothing only where nothing is banned.  Going from one `tslint:disable` to the next finds the
same. -/
theorem scan_reports_first (cs : List Char) :
    (∀ o, scan cs = some o ↔ IsReported cs o) ∧
      (scan cs = none ↔ ∀ d n, ¬ BannedAt d cs n) ∧
      findDisable? cs = (disableFrom? cs 0).map (⟨·, .tslintDisable⟩) := by
  refine ⟨fun o => ?_, ?_, ?_⟩
  · obtain ⟨n, d⟩ := o
    rw [scan_eq_or, Option.or_eq_some_iff, first?_eq_some_iff, first?_eq_some_iff,
      first?_eq_none_iff]
    constructor
    · rintro (⟨rfl, hfirst⟩ | ⟨hnone, rfl, hfirst⟩)
      · exact ⟨hfirst, nofun, exists_line_of_bannedAt hfirst.1⟩
      · exact ⟨hfirst, fun _ => hnone, exists_line_of_bannedAt hfirst.1⟩
    · rintro ⟨hfirst, hnone, -⟩
      cases d with
      | tsIgnore => exact .inl ⟨rfl, hfirst⟩
      | tslintDisable => exact .inr ⟨hnone rfl, rfl, hfirst⟩
  · rw [scan_eq_or, Option.or_eq_none_iff, first?_eq_none_iff, first?_eq_none_iff]
    constructor
    · rintro ⟨hignore, hdisable⟩ d
      cases d with
      | tsIgnore => exact hignore
      | tslintDisable => exact hdisable
    · exact fun h => ⟨h .tsIgnore, h .tslintDisable⟩
  · rw [disableFrom?_eq, Option.map_map]
    simp [findDisable?, Function.comp_def]

-- a `tslint:disable` comes first, and so does a scoped one
example : scan "tslint:disable:a tslint:disable ts-ignore".toList = some ⟨32, .tsIgnore⟩ := by
  decide +kernel

end Directive

end DeclLint
