/-
DeclLint/Files/Tree.lean

File trees.  A tree is a table from places, given by the names from the root
down, to files and directories.  No place occurs twice, and whatever lies
below a place lies in a directory; every operation keeps both.  There are no
links, so a place has one name.  The entries of a directory are listed in the
order in which they were made.
-/
import DeclLint.Table
import DeclLint.Text.Search

namespace DeclLint

/-- What is found at a place: a file with its bytes, or a directory. -/
inductive Node where
  | file (bytes : List UInt8)
  | dir
deriving DecidableEq, Repr

/-- A place in a tree: the names from the root down. -/
abbrev Place := List String

/-- A file tree. -/
structure FileTree where
  entries : Table Place Node
  nodup : entries.keys.Nodup
  closed : ∀ p n, p ++ [n] ∈ entries.keys → p = [] ∨ entries.get? p = some .dir

namespace Table

variable {κ α : Type} [DecidableEq κ]

theorem nodup_keys_put {t : Table κ α} (h : t.keys.Nodup) (k : κ) (v : α) :
    (t.put k v).keys.Nodup := by
  rw [keys_put]
  split
  · exact h
  · next hk =>
    rw [List.nodup_append]
    refine ⟨h, by simp, ?_⟩
    intro a ha b hb
    obtain rfl : b = k := by simpa using hb
    exact fun e => hk (e ▸ ha)

theorem mem_keys_put {t : Table κ α} {k l : κ} {v : α} :
    l ∈ (t.put k v).keys ↔ l ∈ t.keys ∨ l = k := by
  rw [keys_put]
  split
  · next hk =>
    constructor
    · exact Or.inl
    · rintro (h | rfl)
      · exact h
      · exact hk
  · simp

theorem get?_filter {p : κ → Bool} {t : Table κ α} {k : κ} (h : p k = true) :
    Table.get? (t.filter fun e => p e.1) k = t.get? k := by
  induction t with
  | nil => rfl
  | cons e t ih =>
    obtain ⟨l, v⟩ := e
    by_cases hl : l = k
    · subst hl
      simp [h]
    · by_cases hp : p l = true
      · simpa [List.filter_cons, hp, hl] using ih
      · simpa [List.filter_cons, hp, hl] using ih

omit [DecidableEq κ] in
theorem mem_keys_filter {p : κ → Bool} {t : Table κ α} {k : κ} :
    k ∈ Table.keys (t.filter fun e => p e.1) ↔ k ∈ t.keys ∧ p k = true := by
  simp only [keys, List.mem_map, List.mem_filter]
  constructor
  · rintro ⟨e, ⟨he, hp⟩, rfl⟩
    exact ⟨⟨e, he, rfl⟩, hp⟩
  · rintro ⟨⟨e, he, rfl⟩, hp⟩
    exact ⟨e, ⟨he, hp⟩, rfl⟩

end Table

namespace FileTree

/-- The tree that holds nothing but the root. -/
def empty : FileTree :=
  ⟨[], by simp, by simp⟩

instance : Inhabited FileTree := ⟨empty⟩

/-- What is found at a place; the root is a directory. -/
def node? (t : FileTree) (p : Place) : Option Node :=
  if p = [] then some .dir else t.entries.get? p

/-- A file or directory may be put at a place whose parent is a directory, as long as it does not
take the place of a directory with a file. -/
def CanHold (t : FileTree) (p : Place) (n : Node) : Prop :=
  p ≠ [] ∧ t.node? p.dropLast = some .dir ∧ (t.node? p = some .dir → n = .dir)

instance (t : FileTree) (p : Place) (n : Node) : Decidable (t.CanHold p n) :=
  inferInstanceAs (Decidable (_ ∧ _ ∧ _))

/-- Puts a file or directory at a place, if the place can hold it. -/
def put (t : FileTree) (p : Place) (n : Node) : FileTree :=
  if h : t.CanHold p n then
    { entries := t.entries.put p n
      nodup := Table.nodup_keys_put t.nodup p n
      closed := by
        intro q m hq
        by_cases hq₀ : q = []
        · exact Or.inl hq₀
        refine Or.inr ?_
        have hold : t.entries.get? q = some .dir := by
          rcases Table.mem_keys_put.1 hq with hq | hq
          · exact (t.closed q m hq).resolve_left hq₀
          · have := h.2.1
            rw [← hq, List.dropLast_concat, node?, if_neg hq₀] at this
            exact this
        by_cases hqp : q = p
        · subst hqp
          have := h.2.2 (by rw [node?, if_neg hq₀]; exact hold)
          simp [this]
        · rw [Table.get?_put_of_ne hqp]
          exact hold }
  else t

/-- Makes the directory at a place and those above it, where nothing is yet. -/
def makeDirs (t : FileTree) (p : Place) : FileTree :=
  (List.range p.length).foldl (fun t i =>
    if (t.node? (p.take (i + 1))).isNone then t.put (p.take (i + 1)) .dir else t) t

/-- Writes a file and makes the directories above it. -/
def writeFile (t : FileTree) (p : Place) (bytes : List UInt8) : FileTree :=
  (t.makeDirs p.dropLast).put p (.file bytes)

/-- Removes what is found at a place and everything below it. -/
def remove (t : FileTree) (p : Place) : FileTree :=
  { entries := t.entries.filter fun e => !p.isPrefixOf e.1
    nodup := by
      have : (Table.keys (t.entries.filter fun e => !p.isPrefixOf e.1)).Sublist t.entries.keys :=
        List.filter_sublist.map _
      exact this.nodup t.nodup
    closed := by
      intro q m hq
      obtain ⟨hq, hp⟩ := (Table.mem_keys_filter (p := fun k => !p.isPrefixOf k)).1 hq
      have hpq : (!p.isPrefixOf q) = true := by
        simp only [Bool.not_eq_true', List.isPrefixOf_iff_prefix, ← Bool.not_eq_true] at hp ⊢
        exact fun hpq => hp (hpq.trans (List.prefix_append q [m]))
      rcases t.closed q m hq with h | h
      · exact Or.inl h
      · exact Or.inr ((Table.get?_filter (p := fun k => !p.isPrefixOf k) hpq).trans h) }

/-- The names of the entries of a directory, in the order in which they were made. -/
def children (t : FileTree) (p : Place) : List String :=
  t.entries.keys.filterMap fun q =>
    match Text.afterPrefix? p q with
    | some [n] => some n
    | _ => none

/-- Everything below a place: the names from there down, and what is found. -/
def below (t : FileTree) (p : Place) : List (Place × Node) :=
  t.entries.filterMap fun e =>
    match Text.afterPrefix? p e.1 with
    | some (n :: ns) => some (n :: ns, e.2)
    | _ => none

end FileTree

end DeclLint
