/-
DeclLint/Proofs/Path/Spelling.lean

How patterns are spelled.  A pattern is read with either kind of slash as a
separator; what stands between separators names a segment, unless it is idle.
At a slash the segments of a pattern come apart (`namedIn_append_slash`), so what is
written behind a slash is appended (`globOf_append_slash`), and slashes at the end
name nothing (`globOf_append_slashes`).  The exceptions are patterns that start at a
root and the empty one, which a slash gives a root: a rooted pattern matches no
relative path (`not_globMatches_of_isRooted`).

A relative pattern without backslashes names the same segments as a path
(`exists_text_of_globOf`).
-/
import DeclLint.Proofs.Path.Glob
import DeclLint.Proofs.Path.RoundTrip

namespace DeclLint

namespace Text

variable {α : Type} [DecidableEq α] {sep : α}

theorem mem_of_mem_piece {xs piece : List α} {x : α} (h : piece ∈ pieces sep xs)
    (hx : x ∈ piece) : x ∈ xs := by
  induction xs generalizing piece with
  | nil =>
    obtain rfl := List.mem_singleton.mp h
    exact hx
  | cons y ys ih =>
    rw [pieces] at h
    split at h
    · rcases List.mem_cons.mp h with rfl | h
      · cases hx
      · exact List.mem_cons_of_mem y (ih h hx)
    · obtain ⟨p, ps, hps⟩ := List.exists_cons_of_ne_nil (pieces_ne_nil sep ys)
      rw [hps, List.modifyHead_cons] at h
      rcases List.mem_cons.mp h with rfl | h
      · rcases List.mem_cons.mp hx with rfl | hx
        · exact List.mem_cons_self
        · exact List.mem_cons_of_mem y (ih (hps ▸ List.mem_cons_self) hx)
      · exact List.mem_cons_of_mem y (ih (hps ▸ List.mem_cons_of_mem p h) hx)

theorem pieces_map {β : Type} [DecidableEq β] {f : α → β} (hf : Function.Injective f)
    (xs : List α) : pieces (f sep) (xs.map f) = (pieces sep xs).map (List.map f) := by
  induction xs with
  | nil => rfl
  | cons x xs ih =>
    rw [List.map_cons, pieces, pieces, ih]
    by_cases hx : x = sep
    · rw [if_pos hx, if_pos (congrArg f hx)]
      rfl
    · rw [if_neg hx, if_neg (fun h => hx (hf h))]
      obtain ⟨p, ps, hps⟩ := List.exists_cons_of_ne_nil (pieces_ne_nil sep xs)
      rw [hps]
      rfl

end Text

namespace Path

/-! ### Reading a pattern -/

/-- The text of a pattern with forward slashes only. -/
def slashed (pattern : LooseText) : LooseText :=
  pattern.map fun p => if p = .char '\\' then .char '/' else p

/-- The texts that name segments in a text with forward slashes. -/
def namedIn (t : LooseText) : List LooseText :=
  (Text.pieces (.char '/') t).filter fun ps => ps ≠ [] && ps ≠ [.char '.']

/-- The segment of a pattern that a text names. -/
def segmentNamed (t : LooseText) : GlobSegment LooseText :=
  if t = LooseText.ofString "**" then .deep else .one t

/-- The text starts with a slash. -/
def IsRooted (t : LooseText) : Prop :=
  t.head? = some (.char '/')

instance (t : LooseText) : Decidable (IsRooted t) :=
  inferInstanceAs (Decidable (_ = _))

@[simp] theorem slashed_append (s t : LooseText) : slashed (s ++ t) = slashed s ++ slashed t :=
  List.map_append

/-- A pattern is read as its root, if it has one, and the segments that it names. -/
theorem globOf_eq (pattern : LooseText) : globOf pattern =
    ((if rootText (rootOf (((slashed pattern).takeWhile (· = .char '/')).map fun _ => '/')) = ""
      then []
      else [LooseText.ofString
        (rootText (rootOf (((slashed pattern).takeWhile (· = .char '/')).map fun _ => '/')))]) ++
      namedIn (slashed pattern)).map segmentNamed := by
  unfold globOf
  dsimp only
  rw [← slashed]
  split <;> rfl

theorem globOf_of_not_isRooted {pattern : LooseText} (h : ¬ IsRooted (slashed pattern)) :
    globOf pattern = (namedIn (slashed pattern)).map segmentNamed := by
  have hslashes : (slashed pattern).takeWhile (· = .char '/') = [] := by
    unfold IsRooted at h
    rcases hslashed : slashed pattern with - | ⟨p, ps⟩
    · rfl
    · rw [hslashed] at h
      exact List.takeWhile_cons_of_neg (by simpa using h)
  rw [globOf_eq, hslashes]
  rfl

theorem rootOf_cons_slash (cs : List Char) :
    rootOf ('/' :: cs) = .single ∨ rootOf ('/' :: cs) = .double := by
  unfold rootOf
  split
  · exact Or.inl rfl
  · exact Or.inr rfl
  · exact Or.inl rfl
  · next h => exact absurd rfl (h cs)

/-- A rooted pattern starts with its root, which is no name. -/
theorem globOf_of_isRooted {pattern : LooseText} (h : IsRooted (slashed pattern)) :
    ∃ root : String, (root = "/" ∨ root = "//") ∧ globOf pattern =
      .one (LooseText.ofString root) :: (namedIn (slashed pattern)).map segmentNamed := by
  obtain ⟨ps, hps⟩ : ∃ ps, slashed pattern = .char '/' :: ps := List.head?_eq_some_iff.mp h
  obtain ⟨cs, hcs⟩ :
      ∃ cs, ((slashed pattern).takeWhile (· = .char '/')).map (fun _ => '/') = '/' :: cs := by
    rw [hps, List.takeWhile_cons_of_pos (by simp)]
    exact ⟨_, rfl⟩
  rw [globOf_eq, hcs]
  rcases rootOf_cons_slash cs with hroot | hroot
  · exact ⟨"/", Or.inl rfl, by rw [hroot]; rfl⟩
  · exact ⟨"//", Or.inr rfl, by rw [hroot]; rfl⟩

/-- A rooted pattern matches no path of names. -/
theorem not_globMatches_of_isRooted {root : String} (hroot : root = "/" ∨ root = "//")
    (ps : List (GlobSegment LooseText)) {segments : List String}
    (h : ∀ s ∈ segments, '/' ∉ s.toList) :
    globMatches segmentMatches (.one (LooseText.ofString root) :: ps) segments = false := by
  rw [← Bool.not_eq_true, globMatches_cons]
  rintro ⟨piece, rest, rfl, htakes, -⟩
  cases htakes with
  | @one _ s hs =>
    have hplain : ∀ c ∈ root.toList, ¬ IsWildcard c := by
      rcases hroot with rfl | rfl <;> simp [IsWildcard]
    obtain rfl := (segmentMatches_plain hplain s).mp hs
    apply h root (by simp)
    rcases hroot with rfl | rfl <;> simp

/-! ### Slashes in a pattern -/

/-- At a slash, the segments that a text names come apart. -/
theorem namedIn_append_slash (s t : LooseText) :
    namedIn (s ++ .char '/' :: t) = namedIn s ++ namedIn t := by
  rw [namedIn, Text.pieces_append, List.filter_append]
  rfl

theorem namedIn_replicate_slash (n : Nat) : namedIn (List.replicate n (.char '/')) = [] := by
  induction n with
  | zero => rfl
  | succ n ih =>
    rw [List.replicate_succ]
    exact (namedIn_append_slash [] _).trans ih

/-- What is written behind a slash is appended to a relative pattern. -/
theorem globOf_append_slash {s t : LooseText} (hne : s ≠ []) (h : ¬ IsRooted (slashed s)) :
    globOf (s ++ .char '/' :: t) = globOf s ++ (namedIn (slashed t)).map segmentNamed := by
  have hslash : slashed (s ++ .char '/' :: t) = slashed s ++ .char '/' :: slashed t := by
    rw [slashed_append]
    rfl
  have hrooted : ¬ IsRooted (slashed (s ++ .char '/' :: t)) := by
    obtain ⟨p, ps, rfl⟩ := List.exists_cons_of_ne_nil hne
    exact h
  rw [globOf_of_not_isRooted hrooted, globOf_of_not_isRooted h, hslash, namedIn_append_slash,
    List.map_append]

/-- Slashes at the end of a relative pattern name nothing. -/
theorem globOf_append_slashes {t : LooseText} (hne : t ≠ []) (h : ¬ IsRooted (slashed t))
    (n : Nat) : globOf (t ++ List.replicate n (.char '/')) = globOf t := by
  cases n with
  | zero => rw [List.replicate_zero, List.append_nil]
  | succ n =>
    have hslashed : slashed (List.replicate n (.char '/')) = List.replicate n (.char '/') := by
      simp [slashed]
    rw [List.replicate_succ, globOf_append_slash hne h, hslashed, namedIn_replicate_slash,
      List.map_nil, List.append_nil]

/-! ### Patterns and paths -/

theorem eq_of_segmentNamed {t u : LooseText} (h : segmentNamed t = .one u) : t = u := by
  unfold segmentNamed at h
  split at h
  · cases h
  · exact GlobSegment.one.inj h

theorem namedIn_eq_of_map {ts : List LooseText} {names : List String}
    (h : ts.map segmentNamed = names.map fun s => .one (LooseText.ofString s)) :
    ts = names.map LooseText.ofString := by
  induction ts generalizing names with
  | nil =>
    rcases names with - | ⟨name, names⟩
    · rfl
    · simp at h
  | cons t ts ih =>
    rcases names with - | ⟨name, names⟩
    · simp at h
    · obtain ⟨ht, hts⟩ := List.cons.inj h
      rw [eq_of_segmentNamed ht, ih hts, List.map_cons]

theorem exists_eq_ofString {t : LooseText} (h : ∀ p ∈ t, ∃ c, p = .char c) :
    ∃ s, t = LooseText.ofString s := by
  induction t with
  | nil => exact ⟨"", rfl⟩
  | cons p t ih =>
    obtain ⟨⟨c, rfl⟩, ht⟩ := List.forall_mem_cons.mp h
    obtain ⟨s, rfl⟩ := ih ht
    exact ⟨String.ofList (c :: s.toList), by simp [LooseText.ofString]⟩

/-- A pattern whose segments are strings is one. -/
theorem exists_eq_ofString_of_namedIn {pattern : LooseText} {names : List String}
    (h : namedIn (slashed pattern) = names.map LooseText.ofString) :
    ∃ s, pattern = LooseText.ofString s := by
  apply exists_eq_ofString
  intro p hp
  -- a code point of the pattern is a slash, or stands in one of the pieces
  have hslashed : (if p = .char '\\' then .char '/' else p) ∈ slashed pattern :=
    List.mem_map_of_mem hp
  have hchar : ∃ c, (if p = .char '\\' then Text.CodePoint.char '/' else p) = .char c := by
    obtain hslash | ⟨piece, hpiece, hmem⟩ := Text.mem_of_mem_pieces (.char '/') hslashed
    · exact ⟨'/', hslash⟩
    · by_cases hidle : piece = [] ∨ piece = [.char '.']
      · rcases hidle with rfl | rfl
        · cases hmem
        · exact ⟨'.', List.mem_singleton.mp hmem⟩
      · have hnamed : piece ∈ namedIn (slashed pattern) :=
          List.mem_filter.mpr ⟨hpiece, by simpa using hidle⟩
        rw [h] at hnamed
        obtain ⟨name, -, rfl⟩ := List.mem_map.mp hnamed
        obtain ⟨c, -, hc⟩ := List.mem_map.mp hmem
        exact ⟨c, hc.symm⟩
  split at hchar
  · next hback => exact ⟨'\\', hback⟩
  · exact hchar

theorem slashed_of_notMem {t : LooseText} (h : .char '\\' ∉ t) : slashed t = t := by
  have hid : ∀ p ∈ t, (if p = .char '\\' then .char '/' else p) = id p := by
    intro p hp
    apply if_neg
    rintro rfl
    exact h hp
  rw [slashed, List.map_congr_left hid, List.map_id]

theorem isIdle_ofList (cs : List Char) :
    isIdle (String.ofList cs) = (decide (cs = []) || decide (cs = ['.'])) := by
  have hempty : String.ofList cs = "" ↔ cs = [] := by
    rw [← String.toList_inj, String.toList_ofList]
    rfl
  have hdot : String.ofList cs = "." ↔ cs = ['.'] := by
    rw [← String.toList_inj, String.toList_ofList]
    rfl
  simp [isIdle, hempty, hdot]

/-- A text with forward slashes names the same segments as a pattern and as a path. -/
theorem namedIn_ofString (s : String) :
    namedIn (LooseText.ofString s) = (segmentsOf s.toList).map LooseText.ofString := by
  have hinj : Function.Injective Text.CodePoint.char := fun _ _ h => Text.CodePoint.char.inj h
  have hidle : ∀ cs : List Char,
      (decide (cs.map Text.CodePoint.char ≠ []) &&
        decide (cs.map Text.CodePoint.char ≠ [Text.CodePoint.char '.'])) =
      !isIdle (String.ofList cs) := by
    intro cs
    have hdot : cs.map Text.CodePoint.char = [.char '.'] ↔ cs = ['.'] :=
      (List.map_injective_iff.mpr hinj).eq_iff (b := ['.'])
    simp [isIdle_ofList, hdot]
  rw [namedIn, LooseText.ofString, Text.pieces_map hinj, segmentsOf, List.filter_map,
    List.filter_map, List.map_map]
  simp only [Function.comp_def, hidle, LooseText.ofString, String.toList_ofList]

/-- A pattern that is read as names is relative. -/
theorem not_isRooted_of_globOf {pattern : LooseText} {names : List String} (hne : names ≠ [])
    (hnames : ∀ s ∈ names, IsSegment s)
    (h : globOf pattern = names.map fun s => .one (LooseText.ofString s)) :
    ¬ IsRooted (slashed pattern) := by
  intro hrooted
  obtain ⟨root, hroot, hglob⟩ := globOf_of_isRooted hrooted
  obtain ⟨name, rest, rfl⟩ := List.exists_cons_of_ne_nil hne
  rw [hglob, List.map_cons] at h
  obtain rfl : root = name :=
    LooseText.ofString_injective (GlobSegment.one.inj (List.cons.inj h).1)
  apply (hnames root List.mem_cons_self).2
  rcases hroot with rfl | rfl <;> simp

/-- A relative text with forward slashes is the text of a path of the names in it. -/
theorem ofString_of_namedIn {text : String} {names : List String}
    (hrelative : ¬ IsRooted (LooseText.ofString text))
    (h : namedIn (LooseText.ofString text) = names.map LooseText.ofString) :
    ofString text = ⟨.relative, names⟩ := by
  have hsegments : segmentsOf text.toList = names := by
    rw [namedIn_ofString] at h
    exact List.map_injective_iff.mpr (fun _ _ => LooseText.ofString_injective) h
  have hhead : text.toList.head? ≠ some '/' := by
    intro hslash
    apply hrelative
    rw [IsRooted, LooseText.ofString, List.head?_map, hslash]
    rfl
  have hroot : rootOf text.toList = .relative := rootOf_append .relative hhead
  rw [ofString, hroot, hsegments]

/-- A pattern that is read as names is relative, and a text; without backslashes, it is the text of
the path of these names. -/
theorem exists_text_of_globOf {pattern : LooseText} {names : List String} (hne : names ≠ [])
    (hnames : ∀ s ∈ names, IsSegment s)
    (h : globOf pattern = names.map fun s => .one (LooseText.ofString s)) :
    pattern ≠ [] ∧ ¬ IsRooted (slashed pattern) ∧ ∃ text, pattern = LooseText.ofString text ∧
      ('\\' ∉ text.toList → ofString text = ⟨.relative, names⟩) := by
  have hrelative := not_isRooted_of_globOf hne hnames h
  have hnamed : namedIn (slashed pattern) = names.map LooseText.ofString := by
    rw [globOf_of_not_isRooted hrelative] at h
    exact namedIn_eq_of_map h
  refine ⟨?_, hrelative, ?_⟩
  · rintro rfl
    exact hne (List.map_eq_nil_iff.mp hnamed.symm)
  · obtain ⟨text, rfl⟩ := exists_eq_ofString_of_namedIn hnamed
    refine ⟨text, rfl, fun hback => ?_⟩
    have hslashed : slashed (LooseText.ofString text) = LooseText.ofString text := by
      apply slashed_of_notMem
      simpa [LooseText.ofString] using hback
    rw [hslashed] at hrelative hnamed
    exact ofString_of_namedIn hrelative hnamed

end Path

end DeclLint
