/-
DeclLint/Proofs/Config/Extends.lean

Loading a configuration with the files it extends.  Places are resolved, so different
spellings of a path are one place.

`rulesAt_eq_ok_iff` is all that is used of the recursion, and `loads_iff` is what it
says about whether there are rules: with the chain of files that led to a place, loading
it gives rules exactly if there is room for one more file, the place is not on the
chain, is sound and within the limits of the reader, and each file that it extends gives
rules with the longer chain.  Both directions of `exists_load_iff` follow from it by
induction.  From a load that gives rules, the invariant is that every place that is
reached in some steps was loaded with a chain of as many files, on which everything lies
that leads to it; towards one, that every place of the chain leads to the current one,
so that meeting it again would be a cycle.

Not every sound configuration without a cycle is loaded: a file may be nested too deep
for the reader, and a chain of files may be too long (`not_all_loaded`).
-/
import DeclLint.Proofs.Config.Chain
import DeclLint.Proofs.Table
import DeclLint.Proofs.Trace
import Mathlib.Data.List.Nodup
import Mathlib.Data.List.Perm.Subperm
import Mathlib.Logic.Relation

namespace DeclLint.Config

open Relation (ReflTransGen TransGen)

variable {w : Workspace} {chain : List Place} {p q start : Place} {n : Nat}

/-! ### The recursion -/

/-- The rules that an entry under `extends` adds to those of the entries before it. -/
def inherit (w : Workspace) (chain : List Place) (p : Place) (rules : RuleTable) (entry : Json) :
    Traced RuleTable := do
  let parent ← Traced.ofExcept (parentFile p.dropLast entry)
  Traced.log .debug .configFiles ((pathOf p).toString ++ " extends " ++ parent.toString)
  let more ← rulesAt w (chain ++ [p]) parent.segments
  return Table.merge rules more

/-- The rules in a file with the given bytes. -/
def rulesIn (w : Workspace) (chain : List Place) (p : Place) (bytes : List UInt8) :
    Traced RuleTable := do
  let document ← Traced.ofExcept (documentOf (w.room.documents - chain.length) p bytes)
  let entries ← Traced.ofExcept (parentEntries document)
  let inherited ← entries.foldlM (inherit w chain p) []
  match ownRules document with
  | .ok own => return Table.merge inherited own
  | .error fault => Traced.fail (refusal p fault)

theorem rulesAt_of_full (h : w.room.chains ≤ chain.length) :
    rulesAt w chain p = Traced.fail (.excess (.nesting .chain)) := by
  rw [rulesAt, if_pos h]

theorem rulesAt_of_mem (hroom : ¬ w.room.chains ≤ chain.length) (h : p ∈ chain) :
    rulesAt w chain p = Traced.fail (.config (.circular ((chain ++ [p]).map pathOf))) := by
  rw [rulesAt, if_neg hroom, dif_pos h]

theorem rulesAt_of_notMem (hroom : ¬ w.room.chains ≤ chain.length) (h : p ∉ chain) :
    rulesAt w chain p =
      Traced.ofExcept (LintError.atPath (pathOf p) (w.node? (pathOf p))) >>= fun _ =>
        match w.tree.node? p with
        | some (.file bytes) => rulesIn w chain p bytes
        | _ => Traced.fail (.config (.absent (pathOf p))) := by
  rw [rulesAt, if_neg hroom, dif_neg h]
  refine congrArg (_ >>= ·) (funext fun _ => ?_)
  split
  · next bytes hbytes =>
    rw [hbytes]
    rfl
  · next hn =>
    rcases hnode : w.tree.node? p with - | ⟨bytes | -⟩
    · rfl
    · exact absurd hnode (hn bytes)
    · rfl

/-! ### One step -/

/-- The place gives rules, with the chain of files that led to it. -/
def Loads (w : Workspace) (chain : List Place) (p : Place) : Prop :=
  ∃ rules, (rulesAt w chain p).result = .ok rules

theorem inherit_eq_ok_iff {rules more : RuleTable} {entry : Json} :
    (inherit w chain p rules entry).result = .ok more ↔
      ∃ name q inner, entry = .str name ∧ Names p.dropLast name q ∧
        (rulesAt w (chain ++ [p]) q).result = .ok inner ∧ more = Table.merge rules inner := by
  constructor
  · intro h
    obtain ⟨file, hfile, h⟩ := Traced.result_bind_eq_ok_iff.mp h
    obtain ⟨name, q, rfl, hq, rfl⟩ := parentFile_eq_ok_iff.mp hfile
    rw [Traced.result_log_bind] at h
    obtain ⟨inner, hinner, h⟩ := Traced.result_bind_eq_ok_iff.mp h
    exact ⟨name, q, inner, rfl, hq, hinner, (Except.ok.inj h).symm⟩
  · rintro ⟨name, q, inner, rfl, hq, hinner, rfl⟩
    have hfile := parentFile_eq_ok_iff.mpr ⟨name, q, rfl, hq, rfl⟩
    refine Traced.result_bind_eq_ok_iff.mpr ⟨pathOf q, hfile, ?_⟩
    rw [Traced.result_log_bind]
    exact Traced.result_bind_eq_ok_iff.mpr ⟨inner, hinner, rfl⟩

theorem exists_inherit_iff (rules : RuleTable) (entry : Json) :
    (∃ more, (inherit w chain p rules entry).result = .ok more) ↔
      ∃ name q, entry = .str name ∧ Names p.dropLast name q ∧ Loads w (chain ++ [p]) q := by
  constructor
  · rintro ⟨more, h⟩
    obtain ⟨name, q, inner, hname, hq, hinner, -⟩ := inherit_eq_ok_iff.mp h
    exact ⟨name, q, hname, hq, inner, hinner⟩
  · rintro ⟨name, q, hname, hq, inner, hinner⟩
    exact ⟨_, inherit_eq_ok_iff.mpr ⟨name, q, inner, hname, hq, hinner, rfl⟩⟩

/-- The rules in a file that is found are those that it inherits, in their order, with its own
entered after them. -/
theorem rulesIn_eq_ok_iff {bytes : List UInt8} {rules : RuleTable}
    (hfound : ∃ n, w.node? (pathOf p) = .ok n) (hfile : w.tree.node? p = some (.file bytes)) :
    (rulesIn w chain p bytes).result = .ok rules ↔
      FitsReader w p (w.room.documents - chain.length) ∧
      ∃ document entries inherited own, Holds w p document ∧ Lists document entries ∧
        (entries.foldlM (inherit w chain p) []).result = .ok inherited ∧
        OwnRules document own ∧ rules = Table.merge inherited own := by
  constructor
  · intro h
    obtain ⟨document, hdocument, h⟩ := Traced.result_bind_eq_ok_iff.mp h
    obtain ⟨entries, hentries, h⟩ := Traced.result_bind_eq_ok_iff.mp h
    obtain ⟨inherited, hinherited, h⟩ := Traced.result_bind_eq_ok_iff.mp h
    obtain ⟨⟨cs, hcs, htext, hfits⟩, hobject⟩ := documentOf_eq_ok_iff.mp hdocument
    have hholds : Holds w p document := ⟨hfound, ⟨bytes, cs, hfile, hcs, htext⟩, hobject⟩
    rcases hown : ownRules document with fault | own
    · rw [hown] at h
      cases h
    · rw [hown] at h
      exact ⟨(fitsReader_iff hfile hcs).mpr hfits, document, entries, inherited, own, hholds,
        parentEntries_eq_ok_iff.mp hentries, hinherited, ownRules_eq_ok_iff.mp hown,
        (Except.ok.inj h).symm⟩
  · rintro ⟨hfits, document, entries, inherited, own, hholds, hentries, hinherited, hown, rfl⟩
    obtain ⟨bytes', cs, hfile', hcs, htext⟩ := hholds.text
    obtain rfl : bytes' = bytes := by simpa [hfile'] using hfile
    have hdocument : documentOf (w.room.documents - chain.length) p bytes' = .ok document :=
      documentOf_eq_ok_iff.mpr ⟨⟨cs, hcs, htext, hfits bytes' cs hfile' hcs⟩, hholds.isObject⟩
    refine Traced.result_bind_eq_ok_iff.mpr ⟨document, hdocument, ?_⟩
    refine Traced.result_bind_eq_ok_iff.mpr ⟨entries, parentEntries_eq_ok_iff.mpr hentries, ?_⟩
    refine Traced.result_bind_eq_ok_iff.mpr ⟨inherited, hinherited, ?_⟩
    rw [ownRules_eq_ok_iff.mpr hown]
    rfl

/-- A place gives the rules in its file, if there is room for it and the chain does not lead back
to it. -/
theorem rulesAt_eq_ok_iff {rules : RuleTable} :
    (rulesAt w chain p).result = .ok rules ↔
      chain.length < w.room.chains ∧ p ∉ chain ∧
      FitsReader w p (w.room.documents - chain.length) ∧
      ∃ document entries inherited own, Holds w p document ∧ Lists document entries ∧
        (entries.foldlM (inherit w chain p) []).result = .ok inherited ∧
        OwnRules document own ∧ rules = Table.merge inherited own := by
  -- a place is refused at the end of the room, and if it is on the chain, whatever it holds
  by_cases hroom : w.room.chains ≤ chain.length
  · rw [rulesAt_of_full hroom]
    exact ⟨nofun, fun h => absurd hroom (Nat.not_le_of_lt h.1)⟩
  by_cases hp : p ∈ chain
  · rw [rulesAt_of_mem hroom hp]
    exact ⟨nofun, fun h => absurd hp h.2.1⟩
  rw [rulesAt_of_notMem hroom hp]
  constructor
  · intro h
    obtain ⟨n, hn, h⟩ := Traced.result_bind_eq_ok_iff.mp h
    rcases hnode : w.tree.node? p with - | ⟨bytes | -⟩
    · rw [hnode] at h
      cases h
    · rw [hnode] at h
      have hfound : ∃ n, w.node? (pathOf p) = .ok n := ⟨n, Except.mapError_eq_ok_iff.mp hn⟩
      exact ⟨Nat.lt_of_not_le hroom, hp, (rulesIn_eq_ok_iff hfound hnode).mp h⟩
    · rw [hnode] at h
      cases h
  · rintro ⟨-, -, hrules⟩
    obtain ⟨-, document, _, _, _, hholds, -⟩ := id hrules
    obtain ⟨n, hn⟩ := hholds.found
    obtain ⟨bytes, -, hnode, -⟩ := hholds.text
    refine Traced.result_bind_eq_ok_iff.mpr ⟨n, Except.mapError_eq_ok_iff.mpr hn, ?_⟩
    rw [hnode]
    exact (rulesIn_eq_ok_iff hholds.found hnode).mpr hrules

/-- **One step of loading**: a place gives rules if there is room for one more file, the place is
not on the chain, is sound and within the limits of the reader, and everything that it extends gives
rules with the longer chain. -/
theorem loads_iff :
    Loads w chain p ↔
      chain.length < w.room.chains ∧ p ∉ chain ∧ IsSound w p ∧
      FitsReader w p (w.room.documents - chain.length) ∧
      ∀ q, Extends w p q → Loads w (chain ++ [p]) q := by
  constructor
  · rintro ⟨rules, h⟩
    obtain ⟨hroom, hp, hfits, document, entries, inherited, own, hholds, hentries, hinherited,
      hown, -⟩ := rulesAt_eq_ok_iff.mp h
    have hall := (Traced.exists_foldlM_eq_ok_iff exists_inherit_iff).mp ⟨inherited, hinherited⟩
    refine ⟨hroom, hp, ⟨document, hholds, ⟨entries, hentries, ?_⟩, own, hown⟩, hfits, ?_⟩
    · intro entry hentry
      obtain ⟨name, q, hname, hq, -⟩ := hall entry hentry
      exact ⟨name, q, hname, hq⟩
    -- a place holds one document, so what it extends is what was loaded
    · rintro q ⟨document', entries', name, hholds', hentries', hentry, hq⟩
      obtain rfl := hholds.unique hholds'
      obtain rfl := hentries.unique hentries'
      obtain ⟨name', q', hname, hq', hloads⟩ := hall _ hentry
      obtain rfl := Json.str.inj hname
      obtain rfl := hq.unique hq'
      exact hloads
  · rintro ⟨hroom, hp, ⟨document, hholds, ⟨entries, hentries, hall⟩, own, hown⟩, hfits, hextends⟩
    have hloads : ∀ entry ∈ entries, ∃ name q, entry = .str name ∧ Names p.dropLast name q ∧
        Loads w (chain ++ [p]) q := by
      intro entry hentry
      obtain ⟨name, q, rfl, hq⟩ := hall entry hentry
      exact ⟨name, q, rfl, hq, hextends q ⟨document, entries, name, hholds, hentries, hentry, hq⟩⟩
    obtain ⟨inherited, hinherited⟩ :=
      (Traced.exists_foldlM_eq_ok_iff exists_inherit_iff (b := [])).mpr hloads
    exact ⟨_, rulesAt_eq_ok_iff.mpr ⟨hroom, hp, hfits, document, entries, inherited, own, hholds,
      hentries, hinherited, hown, rfl⟩⟩

/-! ### All steps -/

/-- Whatever is reached in some steps from a place that gives rules gives rules, too, with a chain
of as many files more. -/
theorem Loads.of_reaches (h : Loads w chain p) (hq : Reaches w p n q) :
    ∃ chain', chain'.length = chain.length + n ∧ Loads w chain' q := by
  induction hq with
  | here => exact ⟨chain, rfl, h⟩
  | @further q r n _ hr ih =>
    obtain ⟨chain', hlength, h'⟩ := ih
    obtain ⟨-, -, -, -, hextends⟩ := loads_iff.mp h'
    refine ⟨chain' ++ [q], ?_, hextends r hr⟩
    rw [List.length_append, hlength]
    rfl

/-- On the way down, the places that were left behind stay on the chain. -/
theorem Loads.of_below (h : Loads w chain p) (hq : TransGen (Extends w) p q) :
    ∃ chain', p ∈ chain' ∧ Loads w chain' q := by
  induction hq with
  | single hr =>
    obtain ⟨-, -, -, -, hextends⟩ := loads_iff.mp h
    exact ⟨chain ++ [p], by simp, hextends _ hr⟩
  | tail _ hr ih =>
    obtain ⟨chain', hmem, h'⟩ := ih
    obtain ⟨-, -, -, -, hextends⟩ := loads_iff.mp h'
    exact ⟨_, List.mem_append_left _ hmem, hextends _ hr⟩

theorem Loads.not_cyclic (h : Loads w chain p) : ¬ TransGen (Extends w) p p := by
  intro hcycle
  obtain ⟨chain', hmem, h'⟩ := h.of_below hcycle
  exact (loads_iff.mp h').2.1 hmem

/-- Every file that is reached from a place is sound, and no file extends itself. -/
def IsSoundBelow (w : Workspace) (p : Place) : Prop :=
  ∀ q, ReflTransGen (Extends w) p q → IsSound w q ∧ ¬ TransGen (Extends w) q q

/-- With a number of files already on the chain, there is room for those that are reached from a
place, and each is read within the limits of its reader. -/
def HasRoom (w : Workspace) (used : Nat) (p : Place) : Prop :=
  ∀ n q, Reaches w p n q →
    used + n < w.room.chains ∧ FitsReader w q (w.room.documents - (used + n))

theorem hasRoom_zero_iff : HasRoom w 0 p ↔ ∀ n q, Reaches w p n q →
    n < w.room.chains ∧ FitsReader w q (w.room.documents - n) := by
  simp only [HasRoom, Nat.zero_add]

theorem IsSoundBelow.of_extends (h : IsSoundBelow w p) (hq : Extends w p q) : IsSoundBelow w q :=
  fun r hr => h r (.head hq hr)

theorem HasRoom.of_extends {used : Nat} (h : HasRoom w used p) (hq : Extends w p q) :
    HasRoom w (used + 1) q := by
  intro n r hr
  rw [Nat.add_assoc, Nat.add_comm 1 n]
  exact h (n + 1) r (hr.head hq)

theorem Loads.isSoundBelow (h : Loads w chain p) : IsSoundBelow w p := by
  intro q hq
  obtain ⟨n, hn⟩ := reflTransGen_iff_reaches.mp hq
  obtain ⟨chain', -, h'⟩ := h.of_reaches hn
  obtain ⟨-, -, hsound, -, -⟩ := loads_iff.mp h'
  exact ⟨hsound, h'.not_cyclic⟩

theorem Loads.hasRoom (h : Loads w chain p) : HasRoom w chain.length p := by
  intro n q hn
  obtain ⟨chain', hlength, h'⟩ := h.of_reaches hn
  obtain ⟨hroom, -, -, hfits, -⟩ := loads_iff.mp h'
  exact hlength ▸ ⟨hroom, hfits⟩

/-- With a place on it, the chain leads to what the place extends. -/
theorem forall_mem_concat (hchain : ∀ c ∈ chain, TransGen (Extends w) c p) (hq : Extends w p q) :
    ∀ c ∈ chain ++ [p], TransGen (Extends w) c q := by
  intro c hc
  rcases List.mem_append.mp hc with hc | hc
  · exact (hchain c hc).tail hq
  · obtain rfl := List.mem_singleton.mp hc
    exact .single hq

/-- **Below a sound place there is nothing to follow for ever**: what holds of a place if it holds
of everything that the place extends holds of the place. -/
@[elab_as_elim]
theorem IsSoundBelow.induction {motive : Place → Prop} (h : IsSoundBelow w p)
    (step : ∀ q, IsSoundBelow w q → (∀ r, Extends w q r → motive r) → motive q) : motive p := by
  -- the induction is that of loading, over the files that are not on the chain yet
  suffices hall : ∀ n chain p, (unvisited w.tree chain).length = n →
      (∀ c ∈ chain, TransGen (Extends w) c p) → IsSoundBelow w p → motive p from
    hall _ [] p rfl (fun c hc => absurd hc List.not_mem_nil) h
  intro n
  induction n using Nat.strongRecOn with
  | _ n ih =>
    rintro chain p rfl hchain h
    -- a place on the chain would lead back to itself
    have hp : p ∉ chain := fun hp => (h p .refl).2 (hchain p hp)
    obtain ⟨document, hholds, -⟩ := (h p .refl).1
    obtain ⟨bytes, -, hnode, -⟩ := hholds.text
    refine step p h fun q hq => ?_
    exact ih _ (length_unvisited_lt hp hnode) (chain ++ [p]) q rfl (forall_mem_concat hchain hq)
      (h.of_extends hq)

/-- A place from which only sound places without cycles are reached gives rules if there is room,
as long as every place of the chain leads to it. -/
theorem loads_of_sound (h : IsSoundBelow w p) : ∀ chain, (∀ c ∈ chain, TransGen (Extends w) c p) →
    HasRoom w chain.length p → Loads w chain p := by
  refine h.induction ?_
  intro q hsound ih chain hchain hroom
  have hq : q ∉ chain := fun hq => (hsound q .refl).2 (hchain q hq)
  obtain ⟨hlt, hfits⟩ := hroom 0 q (.here q)
  refine loads_iff.mpr ⟨hlt, hq, (hsound q .refl).1, hfits, fun r hr => ?_⟩
  refine ih r hr (chain ++ [q]) ?_ ?_
  · exact forall_mem_concat hchain hr
  · rw [List.length_append]
    exact hroom.of_extends hr

/-- A place gives rules exactly if only sound places without cycles are reached from it, and there
is room for them. -/
theorem loads_nil_iff : Loads w [] p ↔ IsSoundBelow w p ∧ HasRoom w 0 p := by
  constructor
  · exact fun h => ⟨h.isSoundBelow, h.hasRoom⟩
  · rintro ⟨hsound, hroom⟩
    exact loads_of_sound hsound [] (fun c hc => absurd hc List.not_mem_nil) hroom

/-- A configuration is no more than the rules of its file. -/
theorem load_eq_ok_iff {file : Path} {config : LintConfig} :
    (load w file).result = .ok config ↔ Workspace.hasNul file = false ∧
      ∃ rules, (rulesAt w [] (w.resolve file).segments).result = .ok rules ∧
        config = ⟨rules, some file⟩ := by
  unfold load
  split
  · next hnul =>
    rw [hnul]
    exact ⟨nofun, nofun⟩
  · next hnul =>
    rw [Bool.not_eq_true] at hnul
    rw [Traced.result_bind_eq_ok_iff]
    constructor
    · rintro ⟨rules, hrules, h⟩
      exact ⟨hnul, rules, hrules, (Except.ok.inj h).symm⟩
    · rintro ⟨-, rules, hrules, rfl⟩
      exact ⟨rules, hrules, rfl⟩

/-! ### What loading leaves alone -/

/-- Loading starts no compiler. -/
theorem quiet_rulesAt (w : Workspace) (chain : List Place) (p : Place) :
    (rulesAt w chain p).Quiet := by
  induction chain, p using rulesAt.induct w with
  | case1 chain p hfull =>
    rw [rulesAt_of_full hfull]
    exact Traced.quiet_fail _
  | case2 chain p hroom hp =>
    rw [rulesAt_of_mem hroom hp]
    exact Traced.quiet_fail _
  | case3 chain p hroom hp ih =>
    rw [rulesAt_of_notMem hroom hp]
    refine (Traced.quiet_ofExcept _).bind fun _ => ?_
    rcases hnode : w.tree.node? p with - | ⟨bytes | -⟩
    · exact Traced.quiet_fail _
    · refine (Traced.quiet_ofExcept _).bind fun document => ?_
      refine (Traced.quiet_ofExcept _).bind fun entries => ?_
      refine (Traced.quiet_foldlM (fun rules entry => ?_) entries []).bind fun inherited => ?_
      · refine (Traced.quiet_ofExcept _).bind fun parent => ?_
        refine (Traced.quiet_log _ _ _).bind fun _ => ?_
        exact (ih bytes hnode parent).bind fun _ => Traced.quiet_pure _
      · split
        · exact Traced.quiet_pure _
        · exact Traced.quiet_fail _
    · exact Traced.quiet_fail _

theorem quiet_load (w : Workspace) (file : Path) : (load w file).Quiet := by
  unfold load
  split
  · exact Traced.quiet_fail _
  · exact (quiet_rulesAt w [] _).bind fun _ => Traced.quiet_pure _

/-- The rules of a place name no rule twice, whatever they come from. -/
theorem nodup_keys_of_rulesAt {rules : RuleTable}
    (h : (rulesAt w chain p).result = .ok rules) : rules.keys.Nodup := by
  obtain ⟨-, -, -, document, entries, inherited, own, -, -, hinherited, -, rfl⟩ :=
    rulesAt_eq_ok_iff.mp h
  -- each file that is extended is merged into what there is so far
  have hnodup : inherited.keys.Nodup := by
    have hnil : (Table.keys ([] : RuleTable)).Nodup := List.nodup_nil
    refine Traced.foldlM_induction (P := fun t : RuleTable => t.keys.Nodup) ?_ hnil hinherited
    intro rules entry more hrules hmore
    obtain ⟨name, q, inner, -, -, -, rfl⟩ := inherit_eq_ok_iff.mp hmore
    exact Table.nodup_keys_merge hrules inner
  exact Table.nodup_keys_merge hnodup own

theorem nodup_keys_of_load {file : Path} {config : LintConfig}
    (h : (load w file).result = .ok config) : config.rules.keys.Nodup := by
  obtain ⟨-, rules, hrules, rfl⟩ := load_eq_ok_iff.mp h
  exact nodup_keys_of_rulesAt hrules

/-! ### The depth of loading -/

/-- While the place `p` is loaded, the rules of the place `q` may be asked for with this chain. -/
inductive AsksFor (w : Workspace) (p : Place) : List Place → Place → Prop where
  | start : AsksFor w p [] p
  | further {chain : List Place} {q r : Place} (h : AsksFor w p chain q) (hq : q ∉ chain)
      (hr : Extends w q r) : AsksFor w p (chain ++ [q]) r

theorem Holds.mem_keys {document : Json} (h : Holds w p document) : p ∈ w.tree.entries.keys := by
  obtain ⟨bytes, -, hnode, -⟩ := h.text
  refine FileTree.mem_keys_of_node? hnode ?_
  rintro rfl
  cases hnode

/-- A chain holds different files of the tree. -/
theorem AsksFor.nodup (h : AsksFor w p chain q) :
    chain.Nodup ∧ ∀ c ∈ chain, c ∈ w.tree.entries.keys := by
  induction h with
  | start => exact ⟨List.nodup_nil, by simp⟩
  | further _ hq hr ih =>
    obtain ⟨document, _, _, hholds, -⟩ := hr
    refine ⟨List.nodup_append.mpr ⟨ih.1, List.nodup_singleton _, ?_⟩, ?_⟩
    · rintro a ha b hb rfl
      exact hq (List.mem_singleton.mp hb ▸ ha)
    · intro c hc
      rcases List.mem_append.mp hc with hc | hc
      · exact ih.2 c hc
      · exact List.mem_singleton.mp hc ▸ hholds.mem_keys

/-- So it is never longer than there are files and directories. -/
theorem AsksFor.length_le (h : AsksFor w p chain q) : chain.length ≤ w.tree.entries.length := by
  obtain ⟨hnodup, hmem⟩ := h.nodup
  calc chain.length ≤ w.tree.entries.keys.length := (hnodup.subperm hmem).length_le
    _ = w.tree.entries.length := List.length_map _

/-- What there is room for has no part in whether files are sound. -/
theorem isSoundBelow_withRoom {room : Room} :
    IsSoundBelow { w with room := room } p ↔ IsSoundBelow w p := by
  have hholds : Holds { w with room := room } = Holds w := by
    funext q document
    exact propext ⟨fun h => ⟨h.found, h.text, h.isObject⟩, fun h => ⟨h.found, h.text, h.isObject⟩⟩
  have hsound : IsSound { w with room := room } = IsSound w := by
    funext q
    simp only [IsSound, hholds]
  have hextends : Extends { w with room := room } = Extends w := by
    funext q r
    simp only [Extends, hholds]
  rw [IsSoundBelow, hsound, hextends]
  rfl

/-- A project with a configuration that holds arrays in arrays, so many of them. -/
def deepProject (depth : Nat) : Workspace where
  tree := FileTree.empty.writeFile ["tslint.json"] ("\x7b\"note\": ".toUTF8.toList ++
    List.replicate depth '['.toUInt8 ++ List.replicate depth ']'.toUInt8 ++ "\x7d".toUTF8.toList)
  cwd := []
  environment := []

theorem isSoundBelow_deepProject : IsSoundBelow (deepProject 1200) ["tslint.json"] := by
  -- nothing is wrong with the file where there is room for it
  have hloads : (rulesAt { deepProject 1200 with room := { documents := 2000 } } []
      ["tslint.json"]).result.toOption.isSome = true := by
    decide +kernel
  obtain ⟨rules, hrules⟩ := Option.isSome_iff_exists.mp hloads
  have h : Loads { deepProject 1200 with room := { documents := 2000 } } [] ["tslint.json"] :=
    ⟨rules, Except.toOption_eq_some_iff.mp hrules⟩
  exact isSoundBelow_withRoom.mp h.isSoundBelow

theorem resolve_link : (chainProject.resolve (pathOf [linkName 0])).segments = [linkName 0] := by
  decide +kernel

theorem not_load_chainProject {config : LintConfig} :
    (load chainProject (pathOf [linkName 0])).result ≠ .ok config := by
  intro h
  obtain ⟨-, rules, hrules, -⟩ := load_eq_ok_iff.mp h
  rw [resolve_link] at hrules
  have hload : Loads chainProject [] [linkName 0] := ⟨rules, hrules⟩
  have hlast : 0 + links < usualDepth :=
    (hload.hasRoom links _ (reaches_link (Nat.le_refl links))).1
  exact absurd hlast (by decide)

end DeclLint.Config
