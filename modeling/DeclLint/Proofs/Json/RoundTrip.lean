/-
DeclLint/Proofs/Json/RoundTrip.lean

A value that was written is read back, on whatever depth of a larger text it stands
(`Exact.readsAt`, by induction on the value).  The reader sees the marks between values
behind blanks, so that the layout does not matter to it; what it needs to know of a value
is that its text starts with none of the marks that close an array or an object
(`Starts`), and that what follows a value does not go on like a number (`IsBehind`).

`Exact` says which values these are.  Left out are numbers that are no integers, surrogates
that stand alone, and objects that name a key twice: a reader keeps only one of its values.
What is written is ASCII (`Exact.isAscii`).
-/
import DeclLint.Proofs.Json.Scalar
import DeclLint.Proofs.Table

namespace DeclLint.Json

variable {limit : Option Nat} {depth : Nat} {r s t : List Char} {v : Json}

/-! ### Values -/

/-- A value that starts with none of the marks of the others is a name or a number. -/
theorem value_of_scalar (hs : ∀ c ∈ s.head?, c ≠ '"' ∧ c ≠ '{' ∧ c ≠ '[') :
    value limit depth s =
      match name? s with
      | some (v, r) => .ok (v, r)
      | none => number limit s := by
  rw [value.eq_def]
  split
  · exact absurd rfl (hs _ rfl).1
  · exact absurd rfl (hs _ rfl).2.1
  · exact absurd rfl (hs _ rfl).2.2
  · rfl

theorem ne_of_isDigit {c x : Char} (h : isDigit c = true) (hx : isDigit x = false) : x ≠ c := by
  rintro rfl
  rw [h] at hx
  cases hx

theorem name?_eq_none (h : ∀ e ∈ names, Text.afterPrefix? e.1 s = none) : name? s = none := by
  refine List.findSome?_eq_none_iff.mpr fun e he => ?_
  split
  · next heq =>
    rw [h e he] at heq
    cases heq
  · rfl

/-- An integer starts with a digit, or with a minus before a digit. -/
theorem exists_intText (n : Int) :
    ∃ c cs, isDigit c = true ∧ (intText n = '-' :: c :: cs ∨ intText n = c :: cs) := by
  obtain ⟨hdigits, -, c, cs, hcs, -⟩ := digits_toDigits n.natAbs
  rw [hcs] at hdigits
  refine ⟨c, cs, hdigits c List.mem_cons_self, ?_⟩
  rw [intText, hcs]
  split
  · exact .inl rfl
  · exact .inr rfl

/-- No integer starts like a name, a string, an array or an object. -/
theorem name?_intText (n : Int) (r : List Char) :
    name? (intText n ++ r) = none ∧
      ∀ c ∈ (intText n ++ r).head?, c ≠ '"' ∧ c ≠ '{' ∧ c ≠ '[' := by
  obtain ⟨c, cs, hc, htext | htext⟩ := exists_intText n
  · rw [htext]
    refine ⟨name?_eq_none ?_, by simp⟩
    have hI : 'I' ≠ c := ne_of_isDigit hc rfl
    simp [names, Text.afterPrefix?, hI]
  · rw [htext]
    refine ⟨name?_eq_none ?_, ?_⟩
    · have hn : 'n' ≠ c := ne_of_isDigit hc rfl
      have ht : 't' ≠ c := ne_of_isDigit hc rfl
      have hf : 'f' ≠ c := ne_of_isDigit hc rfl
      have hN : 'N' ≠ c := ne_of_isDigit hc rfl
      have hI : 'I' ≠ c := ne_of_isDigit hc rfl
      have hminus : '-' ≠ c := ne_of_isDigit hc rfl
      simp [names, Text.afterPrefix?, hn, ht, hf, hN, hI, hminus]
    · rintro x ⟨⟩
      exact ⟨(ne_of_isDigit hc rfl).symm, (ne_of_isDigit hc rfl).symm, (ne_of_isDigit hc rfl).symm⟩

theorem reads_value_int (depth : Nat) {n : Int} (h : IsWithin limit n) (hr : IsBehind r) :
    Reads (value limit depth (intText n ++ r)) (.int n) r := by
  obtain ⟨hname, hhead⟩ := name?_intText n r
  obtain ⟨hlt, hnumber⟩ := reads_number h hr
  exact ⟨hlt, by rw [value_of_scalar hhead, hname, hnumber]⟩

theorem reads_value_null (limit : Option Nat) (depth : Nat) (r : List Char) :
    Reads (value limit depth (scalarText .null ++ r)) .null r := by
  refine ⟨by simp [scalarText]; omega, ?_⟩
  rw [value_of_scalar (by simp [scalarText])]
  rfl

theorem reads_value_bool (limit : Option Nat) (depth : Nat) (b : Bool) (r : List Char) :
    Reads (value limit depth (scalarText (.bool b) ++ r)) (.bool b) r := by
  cases b with
  | true =>
    refine ⟨by simp [scalarText]; omega, ?_⟩
    rw [value_of_scalar (by simp [scalarText])]
    rfl
  | false =>
    refine ⟨by simp [scalarText]; omega, ?_⟩
    rw [value_of_scalar (by simp [scalarText])]
    rfl

theorem reads_value_str (depth : Nat) (t : String) (r : List Char) :
    Reads (value limit depth (stringText (LooseText.ofString t) ++ r))
      (.str (LooseText.ofString t)) r := by
  rw [stringText, List.append_assoc, List.append_assoc, List.singleton_append,
    List.singleton_append]
  generalize hbody : (LooseText.ofString t).flatMap escapePoint ++ '"' :: r = s
  obtain ⟨hlt, hread⟩ := hbody ▸ reads_stringBody (s.length + 1) t r
  refine ⟨Nat.lt_succ_of_lt hlt, ?_⟩
  rw [value.eq_def]
  simp [hread, Rest.ofShorter]

/-! ### Blanks and marks -/

/-- The text starts with something else than a blank, or the end of an array or an object. -/
def Starts (s : List Char) : Prop :=
  ∃ c t, s = c :: t ∧ isSpace c = false ∧ c ≠ ']' ∧ c ≠ '}'

theorem Starts.append (h : Starts s) (t : List Char) : Starts (s ++ t) := by
  obtain ⟨c, s, rfl, hc⟩ := h
  exact ⟨c, s ++ t, rfl, hc⟩

theorem skipSpace_of_starts (h : Starts s) : skipSpace s = s := by
  obtain ⟨c, s, rfl, hc, -⟩ := h
  exact List.dropWhile_cons_of_neg (by rw [hc]; exact Bool.false_ne_true)

theorem skipSpace_cons {c : Char} (hc : isSpace c = false) (s : List Char) :
    skipSpace (c :: s) = c :: s :=
  List.dropWhile_cons_of_neg (by rw [hc]; exact Bool.false_ne_true)

theorem skipSpace_newLine (level : Nat) (s : List Char) :
    skipSpace (newLine level ++ s) = skipSpace s := by
  refine List.dropWhile_append_of_pos fun c hc => ?_
  rcases List.mem_cons.mp hc with rfl | hc
  · rfl
  · obtain rfl := List.eq_of_mem_replicate hc
    rfl

theorem next?_eq_some {c : Char} (h : skipSpace s = c :: r) :
    ∃ hlt, next? c s = some ⟨r, hlt⟩ := by
  refine ⟨length_lt_of_skipSpace h, ?_⟩
  unfold next?
  split
  · next heq =>
    rw [h] at heq
    obtain ⟨rfl, rfl⟩ := List.cons.inj heq
    rw [if_pos rfl]
  · next heq =>
    rw [h] at heq
    cases heq

theorem next?_eq_none {c x : Char} (h : skipSpace s = x :: r) (hx : x ≠ c) :
    next? c s = none := by
  unfold next?
  split
  · next heq =>
    rw [h] at heq
    obtain ⟨rfl, rfl⟩ := List.cons.inj heq
    rw [if_neg hx]
  · rfl

/-! ### Arrays and objects -/

theorem reads_elements_last (hv : Reads (value limit depth s) v t) (ht : skipSpace t = ']' :: r) :
    Reads (elements limit depth s) [v] r := by
  obtain ⟨hlt, hv⟩ := hv
  obtain ⟨hlt', hnext⟩ := next?_eq_some ht
  refine ⟨Nat.lt_trans hlt' hlt, ?_⟩
  rw [elements, hv]
  dsimp only
  rw [hnext]
  rfl

theorem reads_elements_cons {u : List Char} {vs : List Json}
    (hv : Reads (value limit depth s) v t) (ht : skipSpace t = ',' :: u)
    (hvs : Reads (elements limit depth (skipSpace u)) vs r) :
    Reads (elements limit depth s) (v :: vs) r := by
  obtain ⟨hlt, hv⟩ := hv
  obtain ⟨hlt', hnext⟩ := next?_eq_some ht
  obtain ⟨hlt'', hvs⟩ := hvs
  have := length_skipSpace_le u
  refine ⟨by omega, ?_⟩
  rw [elements, hv]
  dsimp only
  rw [next?_eq_none ht (by decide), hnext]
  dsimp only
  rw [hvs]
  rfl

theorem reads_value_emptyArr (r : List Char) :
    Reads (value limit (depth + 1) ('[' :: ']' :: r)) (.arr []) r := by
  obtain ⟨hlt, hnext⟩ := next?_eq_some (skipSpace_cons (c := ']') rfl r)
  refine ⟨Nat.lt_succ_of_lt hlt, ?_⟩
  rw [value, if_neg (Nat.succ_ne_zero depth), hnext]
  rfl

theorem reads_value_arr {vs : List Json} (hs : Starts (skipSpace s))
    (h : Reads (elements limit depth (skipSpace s)) vs r) :
    Reads (value limit (depth + 1) ('[' :: s)) (.arr vs) r := by
  obtain ⟨hlt, h⟩ := h
  obtain ⟨c, u, hskip, -, hc, -⟩ := hs
  have := length_skipSpace_le s
  refine ⟨by simp; omega, ?_⟩
  rw [value, if_neg (Nat.succ_ne_zero depth), next?_eq_none hskip hc]
  dsimp only
  rw [Nat.add_sub_cancel, h]
  rfl

/-- A key and its value, and the end of the object. -/
theorem reads_members_last {k u w : List Char} {key : LooseText}
    (hkey : Reads (stringBody (k.length + 1) k) key t) (ht : skipSpace t = ':' :: u)
    (hv : Reads (value limit depth (skipSpace u)) v w) (hw : skipSpace w = '}' :: r) :
    Reads (members limit depth ('"' :: k)) [(key, v)] r := by
  obtain ⟨hlt₁, hkey⟩ := hkey
  obtain ⟨hlt₂, hcolon⟩ := next?_eq_some ht
  obtain ⟨hlt₃, hv⟩ := hv
  obtain ⟨hlt₄, hbrace⟩ := next?_eq_some hw
  have := length_skipSpace_le u
  refine ⟨by simp; omega, ?_⟩
  rw [members, hkey]
  dsimp only
  rw [hcolon]
  dsimp only
  rw [hv]
  dsimp only
  rw [hbrace]
  rfl

theorem reads_members_cons {k u w x : List Char} {key : LooseText}
    {fields : List (LooseText × Json)}
    (hkey : Reads (stringBody (k.length + 1) k) key t) (ht : skipSpace t = ':' :: u)
    (hv : Reads (value limit depth (skipSpace u)) v w) (hw : skipSpace w = ',' :: x)
    (hfields : Reads (members limit depth (skipSpace x)) fields r) :
    Reads (members limit depth ('"' :: k)) ((key, v) :: fields) r := by
  obtain ⟨hlt₁, hkey⟩ := hkey
  obtain ⟨hlt₂, hcolon⟩ := next?_eq_some ht
  obtain ⟨hlt₃, hv⟩ := hv
  obtain ⟨hlt₄, hcomma⟩ := next?_eq_some hw
  obtain ⟨hlt₅, hfields⟩ := hfields
  have := length_skipSpace_le u
  have := length_skipSpace_le x
  refine ⟨by simp; omega, ?_⟩
  rw [members, hkey]
  dsimp only
  rw [hcolon]
  dsimp only
  rw [hv]
  dsimp only
  rw [next?_eq_none hw (by decide), hcomma]
  dsimp only
  rw [hfields]
  rfl

theorem reads_value_emptyObj (r : List Char) :
    Reads (value limit (depth + 1) ('{' :: '}' :: r)) (.obj []) r := by
  obtain ⟨hlt, hnext⟩ := next?_eq_some (skipSpace_cons (c := '}') rfl r)
  refine ⟨Nat.lt_succ_of_lt hlt, ?_⟩
  rw [value, if_neg (Nat.succ_ne_zero depth), hnext]
  rfl

theorem reads_value_obj {fields : List (LooseText × Json)} (hs : Starts (skipSpace s))
    (hkeys : (Table.keys fields).Nodup)
    (h : Reads (members limit depth (skipSpace s)) fields r) :
    Reads (value limit (depth + 1) ('{' :: s)) (.obj fields) r := by
  obtain ⟨hlt, h⟩ := h
  obtain ⟨c, u, hskip, -, -, hc⟩ := hs
  have := length_skipSpace_le s
  refine ⟨by simp; omega, ?_⟩
  rw [value, if_neg (Nat.succ_ne_zero depth), next?_eq_none hskip hc]
  dsimp only
  rw [Nat.add_sub_cancel, h]
  dsimp only
  rw [Table.ofPairs_of_nodup hkeys]
  rfl

/-! ### Whole values -/

/-- A value without numbers that are no integers: its integers have not too many digits, no
surrogate stands alone in it, its objects name no key twice, and there are no more than so many
arrays and objects inside each other. -/
inductive Exact (limit : Option Nat) : Nat → Json → Prop
  | null (depth : Nat) : Exact limit depth .null
  | bool (depth : Nat) (b : Bool) : Exact limit depth (.bool b)
  | int (depth : Nat) {n : Int} (h : IsWithin limit n) : Exact limit depth (.int n)
  | str (depth : Nat) (t : String) : Exact limit depth (.str (LooseText.ofString t))
  | arr {depth : Nat} {items : List Json} (h : ∀ v ∈ items, Exact limit depth v) :
    Exact limit (depth + 1) (.arr items)
  | obj {depth : Nat} {fields : List (LooseText × Json)} (hkeys : (Table.keys fields).Nodup)
    (htexts : ∀ k ∈ Table.keys fields, ∃ t, k = LooseText.ofString t)
    (h : ∀ e ∈ fields, Exact limit depth e.2) : Exact limit (depth + 1) (.obj fields)

theorem starts_intText (n : Int) : Starts (intText n) := by
  obtain ⟨c, cs, hc, htext | htext⟩ := exists_intText n
  · exact ⟨'-', c :: cs, htext, rfl, by decide, by decide⟩
  · refine ⟨c, cs, htext, ?_, (ne_of_isDigit hc rfl).symm, (ne_of_isDigit hc rfl).symm⟩
    have hblank : c ≠ ' ' := (ne_of_isDigit hc rfl).symm
    have htab : c ≠ '\t' := (ne_of_isDigit hc rfl).symm
    have hnewline : c ≠ '\n' := (ne_of_isDigit hc rfl).symm
    have hreturn : c ≠ '\r' := (ne_of_isDigit hc rfl).symm
    simp [isSpace, hblank, htab, hnewline, hreturn]

theorem Exact.starts (h : Exact limit depth v) (level : Nat) : Starts (indentedText level v) := by
  cases h with
  | null => exact ⟨'n', _, rfl, rfl, by decide, by decide⟩
  | bool depth b =>
    cases b with
    | true => exact ⟨'t', _, rfl, rfl, by decide, by decide⟩
    | false => exact ⟨'f', _, rfl, rfl, by decide, by decide⟩
  | int => exact starts_intText _
  | str => exact ⟨'"', _, rfl, rfl, by decide, by decide⟩
  | @arr depth items =>
    cases items with
    | nil => exact ⟨'[', _, rfl, rfl, by decide, by decide⟩
    | cons => exact ⟨'[', _, rfl, rfl, by decide, by decide⟩
  | @obj depth fields =>
    cases fields with
    | nil => exact ⟨'{', _, rfl, rfl, by decide, by decide⟩
    | cons => exact ⟨'{', _, rfl, rfl, by decide, by decide⟩

theorem isBehind_newLine (level : Nat) (s : List Char) : IsBehind (newLine level ++ s) := by
  rintro c ⟨⟩
  exact .inr rfl

theorem isBehind_comma (s : List Char) : IsBehind (',' :: s) := by
  rintro c ⟨⟩
  exact .inl rfl

/-- What the reader makes of a value on a line of its own. -/
def ReadsAt (limit : Option Nat) (depth level : Nat) (v : Json) : Prop :=
  ∀ r, IsBehind r → Reads (value limit depth (indentedText level v ++ r)) v r

theorem skipSpace_line (h : Exact limit depth v) (level : Nat) (s : List Char) :
    skipSpace (newLine level ++ indentedText level v ++ s) = indentedText level v ++ s := by
  rw [List.append_assoc, skipSpace_newLine, skipSpace_of_starts ((h.starts level).append s)]

theorem reads_elements {level : Nat} {vs : List Json} (hexact : ∀ v ∈ vs, Exact limit depth v)
    (hread : ∀ v ∈ vs, ReadsAt limit depth level v) (hvs : vs ≠ []) (outer : Nat)
    (r : List Char) :
    Reads (elements limit depth
      (skipSpace (indentedItems level vs ++ (newLine outer ++ ']' :: r)))) vs r := by
  induction vs with
  | nil => exact absurd rfl hvs
  | cons v vs ih =>
    obtain ⟨hv, hexact⟩ := List.forall_mem_cons.mp hexact
    obtain ⟨hreadv, hread⟩ := List.forall_mem_cons.mp hread
    cases vs with
    | nil =>
      rw [indentedItems, skipSpace_line hv]
      refine reads_elements_last (hreadv _ (isBehind_newLine outer _)) ?_
      rw [skipSpace_newLine, skipSpace_cons rfl]
    | cons w vs =>
      rw [indentedItems, List.append_assoc, List.append_assoc, skipSpace_line hv]
      · exact reads_elements_cons (hreadv _ (isBehind_comma _)) (skipSpace_cons rfl _)
          (ih hexact hread (List.cons_ne_nil w vs))
      · exact List.cons_ne_nil w vs

theorem stringText_append (k : LooseText) (s : List Char) :
    stringText k ++ s = '"' :: (k.flatMap escapePoint ++ '"' :: s) := by
  rw [stringText, List.append_assoc, List.append_assoc]
  rfl

theorem skipSpace_blank (h : Exact limit depth v) (level : Nat) (s : List Char) :
    skipSpace (' ' :: (indentedText level v ++ s)) = indentedText level v ++ s := by
  have hblank : skipSpace (' ' :: (indentedText level v ++ s)) =
      skipSpace (indentedText level v ++ s) := List.dropWhile_cons_of_pos rfl
  rw [hblank, skipSpace_of_starts ((h.starts level).append s)]

theorem ReadsAt.behindColon {level : Nat} (hread : ReadsAt limit depth level v)
    (hv : Exact limit depth v) (hr : IsBehind r) :
    Reads (value limit depth (skipSpace (' ' :: (indentedText level v ++ r)))) v r := by
  rw [skipSpace_blank hv]
  exact hread r hr

theorem skipSpace_member (level : Nat) (k : LooseText) (s : List Char) :
    skipSpace (newLine level ++ stringText k ++ s) =
      '"' :: (k.flatMap escapePoint ++ '"' :: s) := by
  rw [List.append_assoc, skipSpace_newLine, stringText_append, skipSpace_cons rfl]

theorem reads_members {level : Nat} {fields : List (LooseText × Json)}
    (htexts : ∀ e ∈ fields, ∃ t, e.1 = LooseText.ofString t)
    (hexact : ∀ e ∈ fields, Exact limit depth e.2)
    (hread : ∀ e ∈ fields, ReadsAt limit depth level e.2) (hfields : fields ≠ []) (outer : Nat)
    (r : List Char) :
    Reads (members limit depth
      (skipSpace (indentedFields level fields ++ (newLine outer ++ '}' :: r)))) fields r := by
  induction fields with
  | nil => exact absurd rfl hfields
  | cons e fields ih =>
    obtain ⟨k, v⟩ := e
    obtain ⟨⟨key, rfl⟩, hmore⟩ := List.forall_mem_cons.mp htexts
    obtain ⟨hv, hexact⟩ := List.forall_mem_cons.mp hexact
    obtain ⟨hreadv, hread⟩ := List.forall_mem_cons.mp hread
    cases fields with
    | nil =>
      rw [indentedFields, List.append_assoc, List.append_assoc, skipSpace_member]
      refine reads_members_last (reads_stringBody _ key _) (skipSpace_cons rfl _)
        (hreadv.behindColon hv (isBehind_newLine outer _)) ?_
      rw [skipSpace_newLine, skipSpace_cons rfl]
    | cons d fields =>
      have hne : d :: fields ≠ [] := List.cons_ne_nil d fields
      rw [indentedFields, List.append_assoc, List.append_assoc, List.append_assoc,
        List.append_assoc, skipSpace_member]
      · exact reads_members_cons (reads_stringBody _ key _) (skipSpace_cons rfl _)
          (hreadv.behindColon hv (isBehind_comma _)) (skipSpace_cons rfl _)
          (ih hmore hexact hread hne)
      · exact hne

theorem starts_items {vs : List Json} (h : ∀ v ∈ vs, Exact limit depth v) (hvs : vs ≠ [])
    (level : Nat) (s : List Char) : Starts (skipSpace (indentedItems level vs ++ s)) := by
  obtain ⟨v, vs, rfl⟩ := List.exists_cons_of_ne_nil hvs
  have hv := h v List.mem_cons_self
  cases vs with
  | nil =>
    rw [indentedItems, skipSpace_line hv]
    exact (hv.starts level).append s
  | cons w vs =>
    rw [indentedItems, List.append_assoc, List.append_assoc, skipSpace_line hv]
    · exact (hv.starts level).append _
    · exact List.cons_ne_nil w vs

theorem starts_fields {fields : List (LooseText × Json)} (hfields : fields ≠ []) (level : Nat)
    (s : List Char) : Starts (skipSpace (indentedFields level fields ++ s)) := by
  obtain ⟨e, fields, rfl⟩ := List.exists_cons_of_ne_nil hfields
  have hquote : ∀ u, Starts ('"' :: u) := fun u => ⟨'"', u, rfl, rfl, by decide, by decide⟩
  cases fields with
  | nil =>
    rw [indentedFields, List.append_assoc, List.append_assoc, skipSpace_member]
    exact hquote _
  | cons d fields =>
    rw [indentedFields, List.append_assoc, List.append_assoc, List.append_assoc,
      List.append_assoc, skipSpace_member]
    · exact hquote _
    · exact List.cons_ne_nil d fields

/-- **A value that was written is read back.** -/
theorem Exact.readsAt (h : Exact limit depth v) (level : Nat) : ReadsAt limit depth level v := by
  induction h generalizing level with
  | null depth => exact fun r _ => reads_value_null limit depth r
  | bool depth b => exact fun r _ => reads_value_bool limit depth b r
  | int depth hn => exact fun r hr => reads_value_int depth hn hr
  | str depth t => exact fun r _ => reads_value_str depth t r
  | @arr depth items hexact ih =>
    intro r _
    cases items with
    | nil => exact reads_value_emptyArr r
    | cons v items =>
      have hne : v :: items ≠ [] := List.cons_ne_nil v items
      have hread := reads_elements hexact (fun w hw => ih w hw (level + 1)) hne level r
      have htext : indentedText level (.arr (v :: items)) ++ r =
          '[' :: (indentedItems (level + 1) (v :: items) ++ (newLine level ++ ']' :: r)) := by
        rw [indentedText, List.append_assoc, List.append_assoc, List.append_assoc]
        · rfl
        · exact hne
      rw [htext]
      exact reads_value_arr (starts_items hexact hne (level + 1) _) hread
  | @obj depth fields hkeys htexts hexact ih =>
    intro r _
    cases fields with
    | nil => exact reads_value_emptyObj r
    | cons e fields =>
      have hne : e :: fields ≠ [] := List.cons_ne_nil e fields
      have htexts : ∀ e' ∈ e :: fields, ∃ t, e'.1 = LooseText.ofString t := fun e' he' =>
        htexts _ (List.mem_map_of_mem he')
      have hread := reads_members htexts hexact (fun e' he' => ih e' he' (level + 1)) hne level r
      have htext : indentedText level (.obj (e :: fields)) ++ r =
          '{' :: (indentedFields (level + 1) (e :: fields) ++ (newLine level ++ '}' :: r)) := by
        rw [indentedText, List.append_assoc, List.append_assoc, List.append_assoc]
        · rfl
        · exact hne
      rw [htext]
      exact reads_value_obj (starts_fields hne (level + 1) _) hkeys hread

/-! ### Whole texts -/

/-- The text holds nothing but ASCII characters. -/
def IsAscii (s : List Char) : Prop :=
  ∀ c ∈ s, c.toNat < 0x80

/-- The text holds nothing but ASCII characters, and no carriage return. -/
def IsPrinted (s : List Char) : Prop :=
  ∀ c ∈ s, c.toNat < 0x80 ∧ c ≠ '\r'

theorem IsPrinted.append (hs : IsPrinted s) (ht : IsPrinted t) : IsPrinted (s ++ t) :=
  List.forall_mem_append.mpr ⟨hs, ht⟩

theorem isPrinted_hex (width n : Nat) : IsPrinted (Text.hex width n) := by
  induction width generalizing n with
  | zero => exact List.forall_mem_nil _
  | succ width ih =>
    have hdigit : ∀ d < 16, (Text.hexDigit d).toNat < 0x80 ∧ Text.hexDigit d ≠ '\r' := by
      decide +kernel
    exact (ih (n / 16)).append (List.forall_mem_singleton.mpr (hdigit _ (Nat.mod_lt n (by decide))))

theorem isPrinted_unitEscape (n : Nat) : IsPrinted (unitEscape n) := by
  refine IsPrinted.append ?_ (isPrinted_hex 4 n)
  simp [IsPrinted]

theorem isPrinted_escapeChar (c : Char) : IsPrinted (escapeChar c) := by
  have hc := escapedAs_escapeChar c
  generalize escapeChar c = w at hc
  cases hc with
  | letter hx hascii =>
    have hreturn : escaped? '\r' = none := rfl
    refine List.forall_mem_cons.mpr ⟨by decide, List.forall_mem_singleton.mpr ⟨hascii, ?_⟩⟩
    rintro rfl
    rw [hreturn] at hx
    cases hx
  | plain _ _ hrange =>
    refine List.forall_mem_singleton.mpr ⟨by omega, ?_⟩
    rintro rfl
    exact absurd hrange.1 (by decide)
  | unit => exact isPrinted_unitEscape _
  | pair => exact (isPrinted_unitEscape _).append (isPrinted_unitEscape _)

theorem isPrinted_stringText (t : LooseText) : IsPrinted (stringText t) := by
  refine IsPrinted.append (IsPrinted.append ?_ ?_) ?_
  · simp [IsPrinted]
  · intro c hc
    obtain ⟨p, -, hp⟩ := List.mem_flatMap.mp hc
    cases p with
    | char d => exact isPrinted_escapeChar d c hp
    | surrogate i => exact isPrinted_unitEscape _ c hp
  · simp [IsPrinted]

theorem isPrinted_intText (n : Int) : IsPrinted (intText n) := by
  have hdigits : IsPrinted (Nat.toDigits 10 n.natAbs) := by
    intro c hc
    have hdigit := (digits_toDigits n.natAbs).1 c hc
    rw [isDigit, Bool.and_eq_true, decide_eq_true_iff, decide_eq_true_iff] at hdigit
    have hle : c.toNat ≤ '9'.toNat := hdigit.2
    refine ⟨Nat.lt_of_le_of_lt hle (by decide), ?_⟩
    rintro rfl
    exact absurd hdigit.1 (by decide)
  rw [intText]
  split
  · exact List.forall_mem_cons.mpr ⟨by decide, hdigits⟩
  · exact hdigits

theorem isPrinted_newLine (level : Nat) : IsPrinted (newLine level) := by
  refine List.forall_mem_cons.mpr ⟨by decide, fun c hc => ?_⟩
  obtain rfl := List.eq_of_mem_replicate hc
  decide

theorem isPrinted_items {level : Nat} {vs : List Json}
    (h : ∀ v ∈ vs, IsPrinted (indentedText level v)) : IsPrinted (indentedItems level vs) := by
  induction vs with
  | nil => exact List.forall_mem_nil _
  | cons v vs ih =>
    obtain ⟨hv, hvs⟩ := List.forall_mem_cons.mp h
    have hline := (isPrinted_newLine level).append hv
    cases vs with
    | nil => exact hline
    | cons w vs =>
      rw [indentedItems]
      · exact (hline.append (by simp [IsPrinted])).append (ih hvs)
      · exact List.cons_ne_nil w vs

theorem isPrinted_fields {level : Nat} {fields : List (LooseText × Json)}
    (h : ∀ e ∈ fields, IsPrinted (indentedText level e.2)) :
    IsPrinted (indentedFields level fields) := by
  induction fields with
  | nil => exact List.forall_mem_nil _
  | cons e fields ih =>
    obtain ⟨k, v⟩ := e
    obtain ⟨hv, hfields⟩ := List.forall_mem_cons.mp h
    have hline := (((isPrinted_newLine level).append (isPrinted_stringText k)).append
      (t := [':', ' ']) (by simp [IsPrinted])).append hv
    cases fields with
    | nil => exact hline
    | cons d fields =>
      rw [indentedFields]
      · exact (hline.append (by simp [IsPrinted])).append (ih hfields)
      · exact List.cons_ne_nil d fields

theorem Exact.isPrinted (h : Exact limit depth v) (level : Nat) :
    IsPrinted (indentedText level v) := by
  induction h generalizing level with
  | null => simp [IsPrinted, indentedText, scalarText]
  | bool depth b => cases b <;> simp [IsPrinted, indentedText, scalarText]
  | int depth h => exact isPrinted_intText _
  | str depth t => exact isPrinted_stringText _
  | @arr depth items _ ih =>
    cases items with
    | nil => simp [IsPrinted, indentedText]
    | cons v items =>
      rw [indentedText]
      · have hitems := isPrinted_items fun w hw => ih w hw (level + 1)
        exact ((IsPrinted.append (by simp [IsPrinted]) hitems).append (isPrinted_newLine level)).append
          (by simp [IsPrinted])
      · exact List.cons_ne_nil v items
  | @obj depth fields _ _ _ ih =>
    cases fields with
    | nil => simp [IsPrinted, indentedText]
    | cons e fields =>
      rw [indentedText]
      · have hfields := isPrinted_fields fun d hd => ih d hd (level + 1)
        exact ((IsPrinted.append (by simp [IsPrinted]) hfields).append (isPrinted_newLine level)).append
          (by simp [IsPrinted])
      · exact List.cons_ne_nil e fields

/-- **What is written is ASCII.** -/
theorem Exact.isAscii (h : Exact limit depth v) (level : Nat) : IsAscii (indentedText level v) :=
  fun c hc => (h.isPrinted level c hc).1

/-- **A text that was written is read as what it was written for.** -/
theorem Exact.readWithin (h : Exact limit depth v) :
    readWithin limit depth (indentedText 0 v) = .ok v := by
  have hmark : (indentedText 0 v).head? ≠ some '\uFEFF' := by
    intro hhead
    have := h.isAscii 0 '\uFEFF' (List.mem_of_mem_head? hhead)
    exact absurd this (by decide)
  have hreads : Reads (value limit depth (skipSpace (indentedText 0 v))) v [] := by
    have hall := h.readsAt 0 [] (by rintro c ⟨⟩)
    rwa [List.append_nil, ← skipSpace_of_starts (h.starts 0)] at hall
  obtain ⟨hlt, hread⟩ := hreads
  rw [Json.readWithin, document, if_neg hmark, hread]
  rfl

end DeclLint.Json
