/-
DeclLint/Proofs/Json/Keys.lean

The keys of objects that are read.  A repeated key keeps its first place, so no
object that is read from a text names a key twice (`nodup_keys_of_value`).  The
values inside an object are read in the same way, which is how this reaches the
objects inside a document (`nodup_keys_of_field?`).
-/
import DeclLint.Json.Reader
import DeclLint.Proofs.Result
import DeclLint.Proofs.Table

namespace DeclLint.Json

variable {limit : Option Nat} {depth : Nat} {s : List Char} {v : Json}
  {fields : List (LooseText × Json)}

/-- The value is no object. -/
def IsNoObject (v : Json) : Prop :=
  ∀ fields, v ≠ .obj fields

theorem isNoObject_of_name? {r : Rest s} (h : name? s = some (v, r)) : v.IsNoObject := by
  obtain ⟨e, he, h⟩ := List.exists_of_findSome?_eq_some h
  have hv : v = e.2 := by
    split at h
    · split at h
      · exact (Prod.mk.inj (Option.some.inj h)).1.symm
      · cases h
    · cases h
  have hnames : ∀ e ∈ names, e.2.IsNoObject := by
    simp [names, IsNoObject]
  exact hv ▸ hnames e he

theorem isNoObject_of_unsigned {negative : Bool} {r : List Char}
    (h : unsigned negative s = some (v, r)) : v.IsNoObject := by
  unfold unsigned at h
  split at h
  · cases h
  · dsimp only at h
    split at h
    · obtain ⟨rfl, -⟩ := Prod.mk.inj (Option.some.inj h)
      exact fun _ => nofun
    · obtain ⟨rfl, -⟩ := Prod.mk.inj (Option.some.inj h)
      exact fun _ => nofun

theorem unsigned_of_unsignedRest {negative : Bool} {p : Json × Rest s}
    (h : unsignedRest negative s = some p) : unsigned negative s = some (p.1, p.2.1) := by
  unfold unsignedRest at h
  split at h
  · next hu =>
    obtain rfl := Option.some.inj h
    exact hu
  · cases h

theorem isNoObject_of_signed {p : Json × Rest s} (h : signed s = some p) : p.1.IsNoObject := by
  unfold signed at h
  split at h
  · obtain ⟨q, hq, rfl⟩ := Option.map_eq_some_iff.mp h
    have hu := unsigned_of_unsignedRest hq
    exact isNoObject_of_unsigned hu
  · exact isNoObject_of_unsigned (unsigned_of_unsignedRest h)

theorem isNoObject_of_number {r : Rest s} (h : number limit s = .ok (v, r)) : v.IsNoObject := by
  unfold number at h
  split at h
  -- an integer, if it is within the limit on digits
  · next n _ _ =>
    dsimp only at h
    have hv : v = .int n := by
      generalize (if s.head? = some '-' then 1 else 0) = sign at h
      split at h
      · cases h
      · exact (Prod.mk.inj (Except.ok.inj h)).1.symm
    exact hv ▸ fun _ => nofun
  · next hp =>
    obtain rfl := Except.ok.inj h
    exact isNoObject_of_signed hp
  · cases h

/-- What an object is read from: nothing between its braces, or its members. -/
theorem exists_members_of_value {r : Rest s} (h : value limit depth s = .ok (.obj fields, r)) :
    fields = [] ∨ ∃ t pairs r, members limit (depth - 1) t = .ok (pairs, r) ∧
      fields = Table.ofPairs pairs := by
  unfold value at h
  split at h
  · split at h
    · cases h
    · cases h
  · split at h
    · cases h
    · split at h
      · obtain ⟨hv, -⟩ := Prod.mk.inj (Except.ok.inj h)
        exact Or.inl (Json.obj.inj hv).symm
      · dsimp only at h
        split at h
        · cases h
        · next pairs t hpairs =>
          obtain ⟨hv, -⟩ := Prod.mk.inj (Except.ok.inj h)
          exact Or.inr ⟨_, pairs, t, hpairs, (Json.obj.inj hv).symm⟩
  · split at h
    · cases h
    · split at h
      · cases h
      · dsimp only at h
        split at h
        · cases h
        · cases h
  · split at h
    · next hname =>
      obtain ⟨rfl, -⟩ := Prod.mk.inj (Except.ok.inj h)
      exact absurd rfl (isNoObject_of_name? hname fields)
    · exact absurd rfl (isNoObject_of_number h fields)

/-- **No object that is read names a key twice.** -/
theorem nodup_keys_of_value {r : Rest s} (h : value limit depth s = .ok (.obj fields, r)) :
    (Table.keys fields).Nodup := by
  rcases exists_members_of_value h with rfl | ⟨t, pairs, r, -, rfl⟩
  · exact List.nodup_nil
  · exact Table.nodup_keys_merge (t := []) List.nodup_nil pairs

/-- The value of a member is read as any other. -/
theorem exists_value_of_mem_members {r : Rest s} (h : members limit depth s = .ok (fields, r))
    {e : LooseText × Json} (he : e ∈ fields) : ∃ t r, value limit depth t = .ok (e.2, r) := by
  -- what is left for the members after the first one is shorter
  induction hn : s.length using Nat.strongRecOn generalizing s fields with
  | _ n ih =>
    unfold members at h
    split at h
    · split at h
      · cases h
      · next key r₁ _ =>
        split at h
        · cases h
        · next r₂ _ =>
          split at h
          · cases h
          · next v r₃ hv =>
            dsimp only at h
            split at h
            · obtain ⟨rfl, -⟩ := Prod.mk.inj (Except.ok.inj h)
              obtain rfl := List.mem_singleton.mp he
              exact ⟨_, r₃, hv⟩
            · split at h
              · cases h
              · next r₄ _ =>
                split at h
                · cases h
                · next more t hmore =>
                  obtain ⟨rfl, -⟩ := Prod.mk.inj (Except.ok.inj h)
                  rcases List.mem_cons.mp he with rfl | he
                  · exact ⟨_, r₃, hv⟩
                  · have hlt : (skipSpace r₄.1).length < n := by
                      have := length_skipSpace_le r₂.1
                      have := length_skipSpace_le r₄.1
                      have := r₁.2
                      have := r₂.2
                      have := r₃.2
                      have := r₄.2
                      simp only [List.length_cons] at hn
                      omega
                    exact ih _ hlt hmore he rfl
    · cases h

theorem exists_value_of_readWithin {document : Json} (h : readWithin limit depth s = .ok document) :
    ∃ t r, value limit depth t = .ok (document, r) := by
  have h := Except.mapError_eq_ok_iff.mp h
  unfold Json.document at h
  split at h
  · cases h
  · split at h
    · cases h
    · next v r hv =>
      dsimp only at h
      split at h
      · obtain rfl := Except.ok.inj h
        exact ⟨_, r, hv⟩
      · cases h

/-- The objects inside a document name no key twice either. -/
theorem nodup_keys_of_field? {document : Json} {key : String}
    (h : readWithin limit depth s = .ok document)
    (hfield : document.field? key = some (.obj fields)) : (Table.keys fields).Nodup := by
  obtain ⟨t, r, hdocument⟩ := exists_value_of_readWithin h
  unfold field? at hfield
  split at hfield
  · next all =>
    have hmem := Table.mem_of_get? hfield
    rcases exists_members_of_value hdocument with rfl | ⟨t, pairs, r, hpairs, rfl⟩
    · cases hmem
    · rcases Table.mem_merge hmem with hmem | hmem
      · cases hmem
      · obtain ⟨t, r, hvalue⟩ := exists_value_of_mem_members hpairs hmem
        exact nodup_keys_of_value hvalue
  · cases hfield

end DeclLint.Json
