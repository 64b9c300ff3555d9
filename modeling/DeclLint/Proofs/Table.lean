/-
DeclLint/Proofs/Table.lean

Tables that hold no key twice.  Entering pairs keeps it that way, and a key of
such a table stands in one place of it.  Merging one into another is told apart
by values and keys: of two values for a key the later one counts (`get?_merge`),
and the keys stand in the order of their first occurrences (`keys_merge`).
-/
import DeclLint.Files.Tree
import Mathlib.Data.List.Induction
import Mathlib.Data.List.Nodup

namespace List

variable {κ : Type} [BEq κ] [LawfulBEq κ]

/-! ### First occurrences -/

theorem eraseDups_concat (ks : List κ) (k : κ) :
    (ks ++ [k]).eraseDups = if k ∈ ks then ks.eraseDups else ks.eraseDups ++ [k] := by
  rw [eraseDups_append]
  by_cases h : k ∈ ks
  · simp [h, removeAll]
  · simp [h, removeAll, eraseDups_cons]

theorem eraseDups_append_eraseDups (ks ls : List κ) :
    (ks ++ ls.eraseDups).eraseDups = (ks ++ ls).eraseDups := by
  induction ls using reverseRecOn with
  | nil => rfl
  | append_singleton ls l ih =>
    rw [eraseDups_concat, ← append_assoc, eraseDups_concat]
    by_cases hl : l ∈ ls
    · rw [if_pos hl, if_pos (mem_append_right ks hl), ih]
    · rw [if_neg hl, ← append_assoc, eraseDups_concat, ih]
      simp only [mem_append, mem_eraseDups]

theorem eraseDups_eraseDups_append (ks ls : List κ) :
    (ks.eraseDups ++ ls).eraseDups = (ks ++ ls).eraseDups := by
  induction ls using reverseRecOn with
  | nil => simpa using eraseDups_append_eraseDups [] ks
  | append_singleton ls l ih =>
    rw [← append_assoc, ← append_assoc, eraseDups_concat, eraseDups_concat, ih]
    simp only [mem_append, mem_eraseDups]

theorem nodup_eraseDups (ks : List κ) : ks.eraseDups.Nodup := by
  induction ks using reverseRecOn with
  | nil => simp
  | append_singleton ks k ih =>
    rw [eraseDups_concat]
    split
    · exact ih
    · next hk =>
      refine nodup_append.mpr ⟨ih, by simp, ?_⟩
      intro l hl m hm
      obtain rfl := mem_singleton.mp hm
      rintro rfl
      exact hk (mem_eraseDups.mp hl)

theorem eraseDups_of_nodup {ks : List κ} (h : ks.Nodup) : ks.eraseDups = ks := by
  induction ks with
  | nil => rfl
  | cons k ks ih =>
    obtain ⟨hk, hks⟩ := nodup_cons.mp h
    have hfilter : ks.filter (fun l => !l == k) = ks :=
      filter_eq_self.mpr fun l hl => by simpa using fun e : l = k => hk (e ▸ hl)
    rw [eraseDups_cons, hfilter, ih hks]

end List

namespace DeclLint.Table

variable {κ α : Type} [DecidableEq κ]

theorem get?_eq_none_iff {t : Table κ α} {k : κ} : t.get? k = none ↔ k ∉ t.keys := by
  induction t with
  | nil => simp
  | cons e t ih =>
    obtain ⟨l, v⟩ := e
    by_cases h : l = k
    · simp [h]
    · rw [get?_cons, if_neg h, ih, keys_cons, List.mem_cons]
      simp [Ne.symm h]

theorem exists_get?_of_mem {t : Table κ α} {k : κ} (h : k ∈ t.keys) : ∃ v, t.get? k = some v :=
  Option.ne_none_iff_exists'.mp fun hnone => get?_eq_none_iff.mp hnone h

theorem mem_of_get? {t : Table κ α} {k : κ} {v : α} (h : t.get? k = some v) : (k, v) ∈ t := by
  induction t with
  | nil => cases h
  | cons e t ih =>
    obtain ⟨l, u⟩ := e
    rw [get?_cons] at h
    split at h
    · next hl => exact hl ▸ Option.some.inj h ▸ List.mem_cons_self
    · exact List.mem_cons_of_mem _ (ih h)

theorem get?_eq_some_iff_mem {t : Table κ α} {k : κ} {v : α} (hn : t.keys.Nodup) :
    t.get? k = some v ↔ (k, v) ∈ t := by
  constructor
  · exact mem_of_get?
  · intro hmem
    obtain ⟨u, hu⟩ := exists_get?_of_mem (List.mem_map_of_mem (f := (·.1)) hmem)
    have heq := List.inj_on_of_nodup_map hn (mem_of_get? hu) hmem rfl
    rw [hu, (Prod.mk.inj heq).2]

theorem nodup_keys_merge {t : Table κ α} (h : t.keys.Nodup) (u : Table κ α) :
    (t.merge u).keys.Nodup := by
  induction u generalizing t with
  | nil => exact h
  | cons e u ih => exact ih (nodup_keys_put h e.1 e.2)

/-- A key of a table that holds no key twice stands in one place of it. -/
theorem exists_append_of_get? {t : Table κ α} {k : κ} {v : α} (hn : t.keys.Nodup)
    (h : t.get? k = some v) :
    ∃ before after : Table κ α, t = before ++ (k, v) :: after ∧
      k ∉ before.keys ∧ k ∉ after.keys := by
  induction t with
  | nil => cases h
  | cons e t ih =>
    obtain ⟨l, u⟩ := e
    obtain ⟨hl, hn⟩ := List.nodup_cons.mp hn
    by_cases hlk : l = k
    · subst hlk
      obtain rfl : u = v := by simpa using h
      exact ⟨[], t, rfl, List.not_mem_nil, hl⟩
    · obtain ⟨before, after, rfl, hb, ha⟩ := ih hn (by simpa [hlk] using h)
      refine ⟨(l, u) :: before, after, rfl, ?_, ha⟩
      rw [keys_cons, List.mem_cons]
      exact not_or.mpr ⟨Ne.symm hlk, hb⟩

/-! ### Merging -/

theorem mem_put {t : Table κ α} {k : κ} {v : α} {e : κ × α} (h : e ∈ t.put k v) :
    e = (k, v) ∨ e ∈ t := by
  induction t with
  | nil => exact Or.inl (List.mem_singleton.mp h)
  | cons d t ih =>
    obtain ⟨l, u⟩ := d
    rw [put] at h
    split at h
    · rcases List.mem_cons.mp h with rfl | h
      · exact Or.inl rfl
      · exact Or.inr (List.mem_cons_of_mem _ h)
    · rcases List.mem_cons.mp h with rfl | h
      · exact Or.inr List.mem_cons_self
      · exact (ih h).imp_right (List.mem_cons_of_mem _)

theorem mem_merge {t u : Table κ α} {e : κ × α} (h : e ∈ t.merge u) : e ∈ t ∨ e ∈ u := by
  induction u generalizing t with
  | nil => exact Or.inl h
  | cons d u ih =>
    rcases ih h with h | h
    · rcases mem_put h with rfl | h
      · exact Or.inr List.mem_cons_self
      · exact Or.inl h
    · exact Or.inr (List.mem_cons_of_mem _ h)

theorem merge_concat (t u : Table κ α) (e : κ × α) :
    t.merge (u ++ [e]) = (t.merge u).put e.1 e.2 := by
  rw [merge, merge, List.foldl_append, List.foldl_cons, List.foldl_nil]

/-- What is entered later counts. -/
theorem get?_merge (t : Table κ α) {u : Table κ α} (hu : u.keys.Nodup) (k : κ) :
    (t.merge u).get? k = (u.get? k).or (t.get? k) := by
  induction u generalizing t with
  | nil => rfl
  | cons e u ih =>
    obtain ⟨l, v⟩ := e
    obtain ⟨hl, hu⟩ := List.nodup_cons.mp hu
    show ((t.put l v).merge u).get? k = _
    rw [ih (t.put l v) hu, get?_cons]
    by_cases hlk : l = k
    -- the key does not come again
    · subst hlk
      rw [get?_eq_none_iff.mpr hl, get?_put_self, if_pos rfl]
      rfl
    · rw [get?_put_of_ne (Ne.symm hlk), if_neg hlk]

/-- What was entered first comes first. -/
theorem keys_merge [BEq κ] [LawfulBEq κ] {t : Table κ α} (ht : t.keys.Nodup) (u : Table κ α) :
    (t.merge u).keys = (t.keys ++ u.keys).eraseDups := by
  induction u using List.reverseRecOn with
  | nil =>
    show t.keys = (t.keys ++ []).eraseDups
    rw [List.append_nil, List.eraseDups_of_nodup ht]
  | append_singleton u e ih =>
    have hkeys : keys (u ++ [e]) = keys u ++ [e.1] := List.map_append
    rw [merge_concat, keys_put, ih, hkeys, ← List.append_assoc, List.eraseDups_concat]
    simp only [List.mem_eraseDups]

theorem put_of_notMem {t : Table κ α} {k : κ} (hk : k ∉ t.keys) (v : α) :
    t.put k v = t ++ [(k, v)] := by
  induction t with
  | nil => rfl
  | cons e t ih =>
    obtain ⟨l, u⟩ := e
    rw [keys_cons, List.mem_cons] at hk
    obtain ⟨hl, hk⟩ := not_or.mp hk
    rw [put, if_neg (Ne.symm hl), ih hk]
    rfl

/-- Pairs without a repeated key are a table as they stand. -/
theorem ofPairs_of_nodup {u : Table κ α} (h : u.keys.Nodup) : ofPairs u = u := by
  induction u using List.reverseRecOn with
  | nil => rfl
  | append_singleton u e ih =>
    have hkeys : keys (u ++ [e]) = keys u ++ [e.1] := List.map_append
    rw [hkeys, List.nodup_append] at h
    obtain ⟨hu, -, hnew⟩ := h
    have hnotMem : e.1 ∉ keys u := fun hmem => hnew _ hmem _ (List.mem_singleton_self e.1) rfl
    rw [ofPairs, merge_concat, ← ofPairs, ih hu, put_of_notMem hnotMem]

/-! ### Changing values -/

section

variable {β : Type} {f : κ → α → β}

/-- Changes each value, which may depend on its key. -/
def mapValues (f : κ → α → β) (t : Table κ α) : Table κ β :=
  t.map fun e => (e.1, f e.1 e.2)

omit [DecidableEq κ] in
theorem mapValues_cons (e : κ × α) (t : Table κ α) :
    mapValues f (e :: t) = (e.1, f e.1 e.2) :: mapValues f t := rfl

theorem get?_mapValues (t : Table κ α) (k : κ) : (t.mapValues f).get? k = (t.get? k).map (f k) := by
  induction t with
  | nil => rfl
  | cons e t ih =>
    obtain ⟨l, v⟩ := e
    rw [mapValues_cons, get?_cons, get?_cons, ih]
    split
    · next h => rw [h]; rfl
    · rfl

theorem mapValues_put (t : Table κ α) (k : κ) (v : α) :
    (t.put k v).mapValues f = (t.mapValues f).put k (f k v) := by
  induction t with
  | nil => rfl
  | cons e t ih =>
    obtain ⟨l, u⟩ := e
    rw [put, mapValues_cons, put]
    split
    · rfl
    · rw [mapValues_cons, ih]

theorem mapValues_merge (t u : Table κ α) :
    (t.merge u).mapValues f = (t.mapValues f).merge (u.mapValues f) := by
  induction u generalizing t with
  | nil => rfl
  | cons e u ih =>
    show ((t.put e.1 e.2).merge u).mapValues f = _
    rw [ih, mapValues_put]
    rfl

end

end DeclLint.Table
