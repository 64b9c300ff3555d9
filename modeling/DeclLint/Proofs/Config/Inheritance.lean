/-
DeclLint/Proofs/Config/Inheritance.lean

What a configuration inherits.  A configuration with everything that it extends
is a tree: its own rules, and the trees of the files that it extends, in their
order (`ConfigTree`).  Such a tree says what the setting of a rule is
(`ConfigTree.setting?`) and which rules there are in which order
(`ConfigTree.names`), without a table that is updated.

`ConfigTree.get?_rules` and `ConfigTree.keys_rules` show by induction over the
tree that merging the tables of the parents in their order, and the file's own
table after them, makes these settings in this order.  A sound place has a tree
(`exists_unfolds_of_sound`), and the rules that it gives, if it gives any, are those
of its tree (`Unfolds.rules_eq`).  It gives none if a chain of files is too long
(`not_all_inherited`).
-/
import DeclLint.Proofs.Config.Extends
import DeclLint.Proofs.Json.Keys

namespace DeclLint.Config

open Relation (ReflTransGen TransGen)

/-! ### Trees of configurations -/

/-- A configuration file: its own rules, none of them twice, and the files that it extends. -/
inductive ConfigTree where
  | node (own : RuleTable) (distinct : own.keys.Nodup) (parents : List ConfigTree)

namespace ConfigTree

mutual

/-- The setting of a rule: that in the file itself, otherwise the one from its parents. -/
def setting? : ConfigTree → LooseText → Option RuleSetting
  | node own _ parents, name => (own.get? name).or (lastSetting? parents name)

/-- The setting of a rule in the last of several files that has one. -/
def lastSetting? : List ConfigTree → LooseText → Option RuleSetting
  | [], _ => none
  | t :: ts, name => (lastSetting? ts name).or (setting? t name)

end

mutual

/-- The names of rules as they are met from left to right, those of the parents before the file's
own. -/
def names : ConfigTree → List LooseText
  | node own _ parents => allNames parents ++ own.keys

/-- The names of rules as they are met in several files. -/
def allNames : List ConfigTree → List LooseText
  | [] => []
  | t :: ts => names t ++ allNames ts

end

mutual

/-- The table that loading makes of a tree. -/
def rules : ConfigTree → RuleTable
  | node own _ parents => Table.merge (rulesAfter parents []) own

/-- The table that loading makes of several files that are entered into a table. -/
def rulesAfter : List ConfigTree → RuleTable → RuleTable
  | [], table => table
  | t :: ts, table => rulesAfter ts (Table.merge table (rules t))

end

/-! ### What merging makes of a tree -/

mutual

/-- The names in the table of a tree are those that are met in it, at their first occurrences. -/
theorem keys_rules : (t : ConfigTree) → t.rules.keys = t.names.eraseDups
  | node own _ parents => by
    obtain ⟨hnodup, hkeys⟩ := keys_rulesAfter parents [] List.nodup_nil
    calc (Table.merge (rulesAfter parents []) own).keys
        = ((allNames parents).eraseDups ++ own.keys).eraseDups := by
          rw [Table.keys_merge hnodup, hkeys, Table.keys_nil, List.nil_append]
      _ = (allNames parents ++ own.keys).eraseDups := List.eraseDups_eraseDups_append _ _

theorem keys_rulesAfter : (ts : List ConfigTree) → (table : RuleTable) → table.keys.Nodup →
    (rulesAfter ts table).keys.Nodup ∧
      (rulesAfter ts table).keys = (table.keys ++ allNames ts).eraseDups
  | [], table, h => by
    refine ⟨h, ?_⟩
    rw [rulesAfter, allNames, List.append_nil, List.eraseDups_of_nodup h]
  | t :: ts, table, h => by
    obtain ⟨hnodup, hkeys⟩ := keys_rulesAfter ts (Table.merge table t.rules)
      (Table.nodup_keys_merge h t.rules)
    refine ⟨hnodup, ?_⟩
    calc (rulesAfter ts (Table.merge table t.rules)).keys
        = ((table.keys ++ t.names.eraseDups).eraseDups ++ allNames ts).eraseDups := by
          rw [hkeys, Table.keys_merge h, keys_rules t]
      _ = ((table.keys ++ t.names).eraseDups ++ allNames ts).eraseDups := by
          rw [List.eraseDups_append_eraseDups]
      _ = (table.keys ++ (t.names ++ allNames ts)).eraseDups := by
          rw [List.eraseDups_eraseDups_append, List.append_assoc]

end

theorem nodup_keys_rules (t : ConfigTree) : t.rules.keys.Nodup := by
  obtain ⟨own, distinct, parents⟩ := t
  exact Table.nodup_keys_merge (keys_rulesAfter parents [] List.nodup_nil).1 own

mutual

/-- The settings in the table of a tree are those of the tree. -/
theorem get?_rules : (t : ConfigTree) → (name : LooseText) → t.rules.get? name = t.setting? name
  | node own distinct parents, name => by
    have hparents := get?_rulesAfter parents [] name
    rw [Table.get?_nil, Option.or_none] at hparents
    rw [rules, Table.get?_merge _ distinct, hparents, setting?]

theorem get?_rulesAfter : (ts : List ConfigTree) → (table : RuleTable) → (name : LooseText) →
    (rulesAfter ts table).get? name = (lastSetting? ts name).or (table.get? name)
  | [], table, name => by
    rw [rulesAfter, lastSetting?, Option.none_or]
  | t :: ts, table, name => by
    calc (rulesAfter ts (Table.merge table t.rules)).get? name
        = (lastSetting? ts name).or ((t.rules.get? name).or (table.get? name)) := by
          rw [get?_rulesAfter ts, Table.get?_merge _ t.nodup_keys_rules]
      _ = ((lastSetting? ts name).or (t.setting? name)).or (table.get? name) := by
          rw [get?_rules t, Option.or_assoc]

end

end ConfigTree

/-! ### The tree of a place -/

variable {w : Workspace} {chain : List Place} {p directory : Place} {entries : List Json}

mutual

/-- The configuration at a place, with everything that it extends, is a tree. -/
inductive Unfolds (w : Workspace) : Place → ConfigTree → Prop
  | node {p : Place} {document : Json} {entries : List Json} {own : RuleTable}
      {parents : List ConfigTree} (hholds : Holds w p document) (hentries : Lists document entries)
      (hown : OwnRules document own) (distinct : own.keys.Nodup)
      (hparents : UnfoldsAll w p.dropLast entries parents) :
      Unfolds w p (.node own distinct parents)

/-- The configurations that entries name, seen from a directory, are several trees. -/
inductive UnfoldsAll (w : Workspace) : Place → List Json → List ConfigTree → Prop
  | nil {directory : Place} : UnfoldsAll w directory [] []
  | cons {directory q : Place} {name : LooseText} {entries : List Json} {t : ConfigTree}
      {ts : List ConfigTree} (hnames : Names directory name q) (head : Unfolds w q t)
      (tail : UnfoldsAll w directory entries ts) :
      UnfoldsAll w directory (.str name :: entries) (t :: ts)

end

mutual

/-- A place has one tree. -/
theorem Unfolds.unique {p : Place} : {t t' : ConfigTree} → Unfolds w p t → Unfolds w p t' → t = t'
  | _, _, .node hholds hentries hown _ hparents, .node hholds' hentries' hown' _ hparents' => by
    obtain rfl := hholds.unique hholds'
    obtain rfl := hentries.unique hentries'
    obtain rfl := hown.unique hown'
    obtain rfl := hparents.unique hparents'
    rfl

theorem UnfoldsAll.unique {directory : Place} {entries : List Json} : {ts ts' : List ConfigTree} →
    UnfoldsAll w directory entries ts → UnfoldsAll w directory entries ts' → ts = ts'
  | _, _, .nil, .nil => rfl
  | _, _, .cons hnames head tail, .cons hnames' head' tail' => by
    obtain rfl := hnames.unique hnames'
    obtain rfl := head.unique head'
    obtain rfl := tail.unique tail'
    rfl

end

/-- The rules of a file are named by the keys of an object in it, so none is named twice. -/
theorem Holds.nodup_keys_ownRules {document : Json} {own : RuleTable} (h : Holds w p document)
    (hown : OwnRules document own) : own.keys.Nodup := by
  cases hown with
  | absent => exact List.nodup_nil
  | @table fields _ hfield hsettings =>
    have hkeys : own.keys = Table.keys fields := by
      clear hfield
      induction hsettings with
      | nil => rfl
      | cons hrule _ ih =>
        rw [Table.keys_cons, Table.keys_cons, hrule.1, ih]
    obtain ⟨bytes, cs, -, -, depth, hread⟩ := h.text
    rw [hkeys]
    exact Json.nodup_keys_of_field? hread hfield

/-- The trees of several files, one after the other. -/
theorem exists_unfoldsAll (h : ∀ entry ∈ entries, ∃ name q t, entry = .str name ∧
    Names directory name q ∧ Unfolds w q t) : ∃ ts, UnfoldsAll w directory entries ts := by
  induction entries with
  | nil => exact ⟨[], .nil⟩
  | cons entry entries ih =>
    obtain ⟨⟨name, q, t, rfl, hq, ht⟩, hentries⟩ := List.forall_mem_cons.mp h
    obtain ⟨ts, hts⟩ := ih hentries
    exact ⟨t :: ts, .cons hq ht hts⟩

/-- **A sound place has a tree**, whatever there is room for. -/
theorem exists_unfolds_of_sound (h : IsSoundBelow w p) : ∃ t, Unfolds w p t := by
  refine h.induction ?_
  intro q hsound ih
  obtain ⟨document, hholds, ⟨entries, hentries, hall⟩, own, hown⟩ := (hsound q .refl).1
  have htrees : ∀ entry ∈ entries, ∃ name r t, entry = .str name ∧ Names q.dropLast name r ∧
      Unfolds w r t := by
    intro entry hentry
    obtain ⟨name, r, rfl, hr⟩ := hall entry hentry
    obtain ⟨t, ht⟩ := ih r ⟨document, entries, name, hholds, hentries, hentry, hr⟩
    exact ⟨name, r, t, rfl, hr, ht⟩
  obtain ⟨parents, hparents⟩ := exists_unfoldsAll htrees
  exact ⟨_, .node hholds hentries hown (hholds.nodup_keys_ownRules hown) hparents⟩

mutual

/-- **What loading a place makes**: the table of its tree. -/
theorem Unfolds.rules_eq {p : Place} {chain : List Place} {rules : RuleTable} : {t : ConfigTree} →
    Unfolds w p t → (rulesAt w chain p).result = .ok rules → rules = t.rules
  | _, .node hholds hentries hown _ hparents, h => by
    obtain ⟨-, -, -, document, entries, inherited, own, hholds', hentries', hinherited, hown',
      rfl⟩ := rulesAt_eq_ok_iff.mp h
    obtain rfl := hholds.unique hholds'
    obtain rfl := hentries.unique hentries'
    obtain rfl := hown.unique hown'
    rw [hparents.rules_eq hinherited, ConfigTree.rules]

/-- Entering the rules of files one after the other makes the table of their trees. -/
theorem UnfoldsAll.rules_eq {p : Place} {chain : List Place} {table inherited : RuleTable} :
    {entries : List Json} → {ts : List ConfigTree} → UnfoldsAll w p.dropLast entries ts →
    (entries.foldlM (inherit w chain p) table).result = .ok inherited →
    inherited = ConfigTree.rulesAfter ts table
  | _, _, .nil, h => (Except.ok.inj h).symm
  | _, _, .cons hnames head tail, h => by
    rw [List.foldlM_cons] at h
    obtain ⟨more, hmore, hrest⟩ := Traced.result_bind_eq_ok_iff.mp h
    obtain ⟨name, q, inner, hname, hq, hinner, rfl⟩ := inherit_eq_ok_iff.mp hmore
    obtain rfl := Json.str.inj hname
    obtain rfl := hnames.unique hq
    rw [tail.rules_eq hrest, head.rules_eq hinner, ConfigTree.rulesAfter]

end

/-! ### The configuration in a file -/

/-- A project whose configuration extends two files that both extend a third one. -/
def diamondProject : Workspace where
  tree :=
    [("base.json", "\x7b\"rules\": \x7b\"a\": true, \"b\": [true, 1]\x7d\x7d"),
      ("left.json", "\x7b\"extends\": \"base.json\", \"rules\": \x7b\"b\": false\x7d\x7d"),
      ("right.json", "\x7b\"extends\": \"./base.json\", \"rules\": \x7b\"d\": true\x7d\x7d"),
      ("tslint.json",
        "\x7b\"extends\": [\"left.json\", \"right.json\"], \"rules\": \x7b\"a\": false\x7d\x7d")
      ].foldl (fun t e => t.writeFile ["p", e.1] e.2.toUTF8.toList) FileTree.empty
  cwd := ["p"]
  environment := []

theorem sound_diamondProject {q : Place} (hq : ReflTransGen (Extends diamondProject)
    (diamondProject.resolve (Path.ofString "tslint.json")).segments q) :
    IsSound diamondProject q ∧ ¬ TransGen (Extends diamondProject) q q := by
  have hloads : (rulesAt diamondProject []
      (diamondProject.resolve (Path.ofString "tslint.json")).segments).result.toOption.isSome := by
    decide +kernel
  obtain ⟨rules, hrules⟩ := Option.isSome_iff_exists.mp hloads
  have hload : Loads diamondProject []
      (diamondProject.resolve (Path.ofString "tslint.json")).segments :=
    ⟨rules, Except.toOption_eq_some_iff.mp hrules⟩
  exact hload.isSoundBelow q hq

-- the setting of `b` is the one that the second parent inherits, in the place it had in the first
example : (load diamondProject (Path.ofString "tslint.json")).result.toOption.map
    (fun config => config.rules.map fun e => (e.1, e.2.isEnabled, e.2.arguments.length)) =
    some [(.ofString "a", false, 0), (.ofString "b", true, 1), (.ofString "d", true, 0)] := by
  decide +kernel

end DeclLint.Config
