/-
DeclLint/Table.lean

Tables that keep the order in which their keys were first entered.  Entering
a key again replaces its value and leaves its place: this is how repeated
keys of a JSON object, rules that override inherited ones, blocks of a report and
the entries of a file tree behave.
-/

namespace DeclLint

/-- Pairs of keys and values in the order of entry. -/
abbrev Table (κ α : Type) := List (κ × α)

namespace Table

variable {κ α : Type} [DecidableEq κ]

/-- Enters a value: in the place of the key if it is there, at the end otherwise. -/
def put : Table κ α → κ → α → Table κ α
  | [], k, v => [(k, v)]
  | (k', v') :: t, k, v => if k' = k then (k, v) :: t else (k', v') :: put t k v

/-- Enters every pair of `u`, from left to right. -/
def merge (t u : Table κ α) : Table κ α :=
  u.foldl (fun acc e => put acc e.1 e.2) t

/-- The table that results from entering pairs from left to right. -/
def ofPairs (u : List (κ × α)) : Table κ α :=
  merge [] u

/-- The keys in order. -/
def keys (t : Table κ α) : List κ :=
  t.map (·.1)

/-- The value of a key. -/
def get? : Table κ α → κ → Option α
  | [], _ => none
  | (l, v) :: t, k => if l = k then some v else get? t k

@[simp] theorem get?_nil (k : κ) : Table.get? ([] : Table κ α) k = none := rfl

@[simp] theorem get?_cons (l : κ) (v : α) (t : Table κ α) (k : κ) :
    Table.get? ((l, v) :: t) k = if l = k then some v else t.get? k := rfl

@[simp] theorem get?_put_self (t : Table κ α) (k : κ) (v : α) : (t.put k v).get? k = some v := by
  induction t with
  | nil => simp [put]
  | cons e t ih =>
    obtain ⟨l, u⟩ := e
    by_cases h : l = k
    · simp [put, h]
    · simpa [put, h] using ih

theorem get?_put_of_ne {t : Table κ α} {k l : κ} (h : l ≠ k) (v : α) :
    (t.put k v).get? l = t.get? l := by
  induction t with
  | nil => simp [put, h.symm]
  | cons e t ih =>
    obtain ⟨m, u⟩ := e
    by_cases hm : m = k
    · simp [put, hm, h.symm]
    · simp [put, hm, ih]

omit [DecidableEq κ] in
@[simp] theorem keys_nil : Table.keys ([] : Table κ α) = [] := rfl

omit [DecidableEq κ] in
@[simp] theorem keys_cons (e : κ × α) (t : Table κ α) :
    Table.keys (e :: t) = e.1 :: Table.keys t := rfl

/-- Entering a key keeps the order of the keys and adds only new ones, at the end. -/
theorem keys_put (t : Table κ α) (k : κ) (v : α) :
    (t.put k v).keys = if k ∈ t.keys then t.keys else t.keys ++ [k] := by
  induction t with
  | nil => simp [put]
  | cons e t ih =>
    obtain ⟨k₀, v₀⟩ := e
    by_cases hk : k₀ = k
    · subst hk
      simp [put]
    · have hk₀ : k ≠ k₀ := fun e => hk e.symm
      simp only [put, if_neg hk, keys_cons, ih, List.mem_cons, hk₀, false_or]
      split <;> simp

end Table

end DeclLint
