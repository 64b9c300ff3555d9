/-
DeclLint/Proofs/Text/Pattern.lean

Patterns, matched by trying.  A pattern is tried at the start of a text, and each way
in which it can match leaves a rest of the text: `rests` lists them in the order in
which they are tried.  Of two alternatives the left one comes first, `many` repeats as
often as it can before it gives way, and `few` as rarely as it can.  The match is the
first rest in this order (`first?`); trying the second part of a sequence on each rest
of the first part is what backtracking does.

The lemmas say where no backtracking is needed: behind the words of a text
(`first?_seq_word`), in a repetition that nothing follows (`first?_many`), and where
what follows a repetition starts with none of the characters that it takes
(`first?_seq_many_one`).  A lazy repetition of any character in front of
a word is a search (`first?_seq_few_word`).

Matches at the starts of lines are looked for one after the other (`matchesFrom`); where
no match starts inside another one, these are all (`matchesFrom_eq_filter`).
-/
import DeclLint.Proofs.Text.Position
import DeclLint.Text.Search
import Mathlib.Logic.Relation

namespace DeclLint.Text

/-- What may be left after steps that each take something, any number of them; further steps are
tried first or last. -/
def repeated (greedy : Bool) (step : List Char → List (List Char)) (cs : List Char) :
    List (List Char) :=
  let more := ((step cs).filter fun r => r.length < cs.length).attach.flatMap fun r =>
    repeated greedy step r.1
  if greedy then more ++ [cs] else cs :: more
termination_by cs.length
decreasing_by exact of_decide_eq_true (List.mem_filter.mp r.2).2

/-- Patterns. -/
inductive Pattern where
  /-- One character. -/
  | one (p : Char → Bool)
  /-- Nothing, in front of a text with a property. -/
  | ahead (p : List Char → Bool)
  /-- One pattern behind the other. -/
  | seq (a b : Pattern)
  /-- The first pattern, or else the second one. -/
  | alt (a b : Pattern)
  /-- A pattern as often as possible. -/
  | many (a : Pattern)
  /-- A pattern as rarely as possible. -/
  | few (a : Pattern)

namespace Pattern

variable {a b : Pattern} {p : Char → Bool} {w cs r : List Char} {c : Char}

/-- What a pattern may leave of a text, in the order in which it is tried. -/
def rests : Pattern → List Char → List (List Char)
  | .one _, [] => []
  | .one p, c :: cs => if p c then [cs] else []
  | .ahead p, cs => if p cs then [cs] else []
  | .seq a b, cs => (a.rests cs).flatMap b.rests
  | .alt a b, cs => a.rests cs ++ b.rests cs
  | .many a, cs => repeated true a.rests cs
  | .few a, cs => repeated false a.rests cs

/-- What a pattern leaves of a text, if it matches. -/
def first? (a : Pattern) (cs : List Char) : Option (List Char) :=
  (a.rests cs).head?

/-- The pattern of a fixed word. -/
def word : List Char → Pattern
  | [] => .ahead fun _ => true
  | c :: w => .seq (.one (· = c)) (word w)

/-- The pattern takes something whenever it matches. -/
def Takes (a : Pattern) : Prop :=
  ∀ cs, ∀ r ∈ a.rests cs, r.length < cs.length

/-! ### Sequences and alternatives -/

theorem first?_alt (a b : Pattern) (cs : List Char) :
    (alt a b).first? cs = (a.first? cs).or (b.first? cs) := by
  rw [first?, rests, List.head?_append]
  rfl

theorem first?_seq (a b : Pattern) (cs : List Char) :
    (seq a b).first? cs = (a.rests cs).findSome? b.first? := by
  rw [first?, rests, List.head?_flatMap]
  rfl

theorem rests_word (w cs : List Char) : (word w).rests cs = (afterPrefix? w cs).toList := by
  fun_induction afterPrefix? w cs with
  | case1 cs => rfl
  | case2 c w => rfl
  | case3 c w cs ih => simp [word, rests, ih]
  | case4 c w d cs hne => simp [word, rests, Ne.symm hne]

theorem first?_ahead (p : List Char → Bool) (cs : List Char) :
    (ahead p).first? cs = if p cs then some cs else none := by
  rw [first?, rests]
  split <;> rfl

theorem first?_word (w cs : List Char) : (word w).first? cs = afterPrefix? w cs := by
  rw [first?, rests_word]
  cases afterPrefix? w cs <;> rfl

/-- Behind a word the rest is matched. -/
theorem first?_seq_word (w : List Char) (a : Pattern) (cs : List Char) :
    (seq (word w) a).first? cs = (afterPrefix? w cs).bind a.first? := by
  rw [first?_seq, rests_word]
  cases afterPrefix? w cs <;> simp

/-! ### Repetitions -/

theorem repeated_eq {step : List Char → List (List Char)} (greedy : Bool)
    (h : ∀ r ∈ step cs, r.length < cs.length) :
    repeated greedy step cs =
      if greedy then (step cs).flatMap (repeated greedy step) ++ [cs]
      else cs :: (step cs).flatMap (repeated greedy step) := by
  have hfilter : (step cs).filter (fun r => r.length < cs.length) = step cs :=
    List.filter_eq_self.mpr fun r hr => decide_eq_true (h r hr)
  have hattach : ∀ rs : List (List Char),
      rs.attach.flatMap (fun r => repeated greedy step r.1) =
        rs.flatMap (repeated greedy step) := by
    intro rs
    rw [← List.flatMap_map Subtype.val, List.attach_map_subtype_val]
  rw [repeated, hattach, hfilter]

theorem rests_one_cons (p : Char → Bool) (c : Char) (cs : List Char) :
    (one p).rests (c :: cs) = if p c then [cs] else [] :=
  rfl

theorem first?_one_cons (p : Char → Bool) (c : Char) (cs : List Char) :
    (one p).first? (c :: cs) = if p c then some cs else none := by
  rw [first?, rests_one_cons]
  split <;> rfl

theorem eq_cons_of_mem_rests_one (h : r ∈ (one p).rests cs) : ∃ c, cs = c :: r := by
  cases cs with
  | nil => cases h
  | cons c cs =>
    rw [rests_one_cons] at h
    split at h
    · exact ⟨c, congrArg _ (List.mem_singleton.mp h).symm⟩
    · cases h

theorem takes_one (p : Char → Bool) : (one p).Takes := by
  intro cs r hr
  obtain ⟨c, rfl⟩ := eq_cons_of_mem_rests_one hr
  exact Nat.lt_succ_self _

theorem mem_repeated {greedy : Bool} {step : List Char → List (List Char)} :
    r ∈ repeated greedy step cs ↔
      r = cs ∨ ∃ r' ∈ step cs, r'.length < cs.length ∧ r ∈ repeated greedy step r' := by
  rw [repeated]
  cases greedy <;> simp <;> grind

theorem suffix_of_mem_repeated {greedy : Bool} {step : List Char → List (List Char)}
    (hstep : ∀ cs, ∀ r ∈ step cs, r <:+ cs) (h : r ∈ repeated greedy step cs) : r <:+ cs := by
  induction hlength : cs.length using Nat.strongRecOn generalizing cs with
  | ind length ih =>
    subst hlength
    rcases mem_repeated.mp h with rfl | ⟨r', hr', hlt, hr⟩
    · exact List.suffix_refl _
    · exact (ih r'.length hlt hr rfl).trans (hstep cs r' hr')

/-- A match leaves an end of the text. -/
theorem suffix_of_mem_rests (h : r ∈ a.rests cs) : r <:+ cs := by
  induction a generalizing cs r with
  | one p =>
    obtain ⟨c, rfl⟩ := eq_cons_of_mem_rests_one h
    exact List.suffix_cons c r
  | ahead p =>
    rw [rests] at h
    split at h
    · obtain rfl := List.mem_singleton.mp h
      exact List.suffix_refl _
    · cases h
  | seq a b iha ihb =>
    obtain ⟨r', hr', hr⟩ := List.mem_flatMap.mp h
    exact (ihb hr).trans (iha hr')
  | alt a b iha ihb => exact (List.mem_append.mp h).elim iha ihb
  | many a iha => exact suffix_of_mem_repeated (fun _ _ => iha) h
  | few a iha => exact suffix_of_mem_repeated (fun _ _ => iha) h

theorem suffix_of_first? (h : a.first? cs = some r) : r <:+ cs :=
  suffix_of_mem_rests (List.mem_of_head? h)

theorem takes_seq (ha : a.Takes) (b : Pattern) : (seq a b).Takes := by
  intro cs r h
  obtain ⟨r', hr', hr⟩ := List.mem_flatMap.mp h
  exact Nat.lt_of_le_of_lt (suffix_of_mem_rests hr).length_le (ha cs r' hr')

theorem takes_alt (ha : a.Takes) (hb : b.Takes) : (alt a b).Takes :=
  fun cs r h => (List.mem_append.mp h).elim (ha cs r) (hb cs r)

theorem takes_word (hw : w ≠ []) : (word w).Takes := by
  cases w with
  | nil => exact absurd rfl hw
  | cons c w => exact takes_seq (takes_one _) (word w)

theorem rests_many (ha : a.Takes) (cs : List Char) :
    (many a).rests cs = (a.rests cs).flatMap (many a).rests ++ [cs] :=
  repeated_eq true (ha cs)

theorem rests_few (ha : a.Takes) (cs : List Char) :
    (few a).rests cs = cs :: (a.rests cs).flatMap (few a).rests :=
  repeated_eq false (ha cs)

theorem isSome_first?_many (ha : a.Takes) (cs : List Char) :
    ((many a).first? cs).isSome = true := by
  rw [first?, rests_many ha, List.head?_append]
  simp

/-- A repetition that nothing follows goes on with what its pattern leaves. -/
theorem first?_many (ha : a.Takes) (cs : List Char) :
    (many a).first? cs =
      match a.first? cs with
      | some r => (many a).first? r
      | none => some cs := by
  rw [first?, rests_many ha, List.head?_append, List.head?_flatMap, first?]
  rcases a.rests cs with - | ⟨r, rs⟩
  · rfl
  · obtain ⟨r', hr'⟩ := Option.isSome_iff_exists.mp (isSome_first?_many ha r)
    simp only [List.findSome?_cons, List.head?_cons]
    rw [first?] at hr'
    rw [hr', first?, hr']
    rfl

/-- It stops at the first rest, going on in this way, at which its pattern does not match. -/
theorem first?_many_eq_some_iff (ha : a.Takes) :
    (many a).first? cs = some r ↔
      Relation.ReflTransGen (fun x y => a.first? x = some y) cs r ∧ a.first? r = none := by
  constructor
  · intro h
    induction hlength : cs.length using Nat.strongRecOn generalizing cs with
    | ind length ih =>
      subst hlength
      rw [first?_many ha] at h
      split at h
      · next r' hr' =>
        have hlt : r'.length < cs.length := ha cs r' (List.mem_of_head? hr')
        obtain ⟨hsteps, hstop⟩ := ih r'.length hlt h rfl
        exact ⟨.head hr' hsteps, hstop⟩
      · next hnone =>
        obtain rfl := Option.some.inj h
        exact ⟨.refl, hnone⟩
  · rintro ⟨hsteps, hstop⟩
    induction hsteps using Relation.ReflTransGen.head_induction_on with
    | refl => rw [first?_many ha, hstop]
    | head hstep _ ih =>
      rw [first?_many ha, hstep]
      exact ih

/-- As many characters as possible are all up to the first one that is not taken. -/
theorem first?_many_one (p : Char → Bool) (cs : List Char) :
    (many (one p)).first? cs = some (cs.dropWhile p) := by
  induction cs with
  | nil => rw [first?_many (takes_one p)]; rfl
  | cons c cs ih =>
    rw [first?_many (takes_one p), first?, rests_one_cons, List.dropWhile_cons]
    by_cases hc : p c = true
    · rw [if_pos hc, if_pos hc]
      exact ih
    · rw [if_neg hc, if_neg hc]
      rfl

/-- Characters are not given back to what cannot start with them. -/
theorem first?_seq_many_one (hb : ∀ c cs, p c = true → b.first? (c :: cs) = none)
    (cs : List Char) : (seq (many (one p)) b).first? cs = b.first? (cs.dropWhile p) := by
  rw [first?_seq]
  induction cs with
  | nil =>
    rw [rests_many (takes_one p)]
    simp [rests]
  | cons c cs ih =>
    rw [rests_many (takes_one p), rests_one_cons, List.dropWhile_cons, List.findSome?_append]
    split
    · next hc => simp [ih, hb c cs hc]
    · simp

/-- As few characters as possible are those before the first place at which the rest matches. -/
theorem first?_seq_few_one (b : Pattern) (cs : List Char) :
    (seq (few (one fun _ => true)) b).first? cs =
      (b.first? cs).or (cs.tail?.bind (seq (few (one fun _ => true)) b).first?) := by
  rw [first?_seq, rests_few (takes_one _)]
  cases cs with
  | nil => simp [rests]
  | cons c cs =>
    rw [rests_one_cons, if_pos rfl, List.flatMap_singleton, List.findSome?_cons, List.tail?_cons,
      Option.bind_some, first?_seq]
    cases b.first? (c :: cs) <;> rfl

/-- A lazy repetition of any character in front of a word finds the word. -/
theorem first?_seq_few_word (w cs : List Char) :
    (seq (few (one fun _ => true)) (word w)).first? cs =
      (find? w cs).map fun n => cs.drop (n + w.length) := by
  have hhere : ∀ cs : List Char, afterPrefix? w cs =
      if w.isPrefixOf cs then some (cs.drop w.length) else none := by
    intro cs
    split
    · next hstart =>
      obtain ⟨r, rfl⟩ := List.isPrefixOf_iff_prefix.mp hstart
      rw [afterPrefix?_eq_some_iff.mpr rfl, List.drop_left]
    · next hstart =>
      refine Option.eq_none_iff_forall_ne_some.mpr fun r hr => hstart ?_
      exact List.isPrefixOf_iff_prefix.mpr ⟨r, (afterPrefix?_eq_some_iff.mp hr).symm⟩
  induction cs with
  | nil =>
    rw [first?_seq_few_one, first?_word, hhere, find?, firstSuffix?]
    split <;> simp
  | cons c cs ih =>
    rw [first?_seq_few_one, first?_word, hhere, find?, firstSuffix?]
    split
    · simp
    · rw [Option.none_or, List.tail?_cons, Option.bind_some, ih, Option.map_map, find?]
      simp [Function.comp_def, Nat.add_right_comm]

/-! ### Matches at the starts of lines -/

/-- The pattern matches at an offset, which is at the start of a line; the offset behind the
match. -/
def matchEnd? (a : Pattern) (cs : List Char) (n : Nat) : Option Nat :=
  if startsLine cs n then (a.first? (cs.drop n)).map (cs.length - ·.length) else none

theorem isSome_matchEnd? (a : Pattern) (cs : List Char) (n : Nat) :
    (a.matchEnd? cs n).isSome = (startsLine cs n && (a.first? (cs.drop n)).isSome) := by
  rw [matchEnd?]
  cases startsLine cs n <;> simp

/-- The offsets of the matches at the starts of lines, from an offset on.  Behind a match the
search goes on. -/
def matchesFrom (a : Pattern) (cs : List Char) (start : Nat) : List Nat :=
  if start ≤ cs.length then
    match a.matchEnd? cs start with
    | some stop => start :: a.matchesFrom cs (max stop (start + 1))
    | none => a.matchesFrom cs (start + 1)
  else []
termination_by cs.length + 1 - start

/-- No match starts inside another one. -/
def StartsApart (a : Pattern) (cs : List Char) : Prop :=
  ∀ n stop, a.matchEnd? cs n = some stop → ∀ m, n < m → m < stop → a.matchEnd? cs m = none

/-- A match that stays on its line holds no start of a line. -/
theorem startsApart_of_notMem (ha : ∀ w r, a.first? (w ++ r) = some r → '\n' ∉ w) :
    a.StartsApart cs := by
  intro n stop hstop m hnm hm
  rw [matchEnd?] at hstop ⊢
  split at hstop
  · obtain ⟨r, hr, rfl⟩ := Option.map_eq_some_iff.mp hstop
    obtain ⟨w, hw⟩ := suffix_of_first? hr
    have hlength := congrArg List.length hw
    rw [List.length_append, List.length_drop] at hlength
    have hlast : w[m - 1 - n]? = cs[m - 1]? := by
      calc w[m - 1 - n]? = (w ++ r)[m - 1 - n]? :=
            (List.getElem?_append_left (by omega)).symm
        _ = cs[n + (m - 1 - n)]? := by rw [hw, List.getElem?_drop]
        _ = cs[m - 1]? := by rw [Nat.add_sub_cancel' (by omega)]
    have hinside : startsLine cs m = false := by
      have hne : w[m - 1 - n]? ≠ some '\n' := fun h => ha w r (hw ▸ hr) (List.mem_of_getElem? h)
      rw [hlast] at hne
      rw [startsLine, decide_eq_false (by omega), decide_eq_false hne, Bool.or_false]
    rw [hinside]
    rfl
  · cases hstop

/-- **A search that goes on behind its matches** finds all of them, where they start apart. -/
theorem matchesFrom_eq_filter (ha : a.StartsApart cs) (start : Nat) :
    a.matchesFrom cs start =
      (List.range' start (cs.length + 1 - start)).filter fun n => (a.matchEnd? cs n).isSome := by
  fun_induction matchesFrom a cs start with
  | case1 start hle stop hstop ih =>
    have hend : stop ≤ cs.length := by
      rw [matchEnd?] at hstop
      split at hstop
      · obtain ⟨r, -, rfl⟩ := Option.map_eq_some_iff.mp hstop
        exact Nat.sub_le _ _
      · cases hstop
    generalize hnext : max stop (start + 1) = next at ih ⊢
    have hinside : (List.range' (start + 1) (next - (start + 1))).filter
        (fun n => (a.matchEnd? cs n).isSome) = [] := by
      refine List.filter_eq_nil_iff.mpr fun m hm => ?_
      obtain ⟨hstart, hlt⟩ := List.mem_range'_1.mp hm
      rw [ha start stop hstop m (by omega) (by omega)]
      exact Bool.false_ne_true
    have hlen : cs.length + 1 - start =
        1 + (next - (start + 1)) + (cs.length + 1 - next) := by omega
    have hbehind : start + (1 + (next - (start + 1))) = next := by omega
    rw [ih, hlen, ← List.range'_append_1, List.filter_append, hbehind, ← List.range'_append_1,
      List.filter_append, hinside]
    simp [hstop]
  | case2 start hle hnone ih =>
    have hlen : cs.length + 1 - start = cs.length + 1 - (start + 1) + 1 := by omega
    rw [ih, hlen, List.range'_succ, List.filter_cons, hnone]
    rfl
  | case3 start hgt =>
    rw [Nat.sub_eq_zero_of_le (Nat.lt_of_not_le hgt)]
    rfl

end Pattern

end DeclLint.Text
