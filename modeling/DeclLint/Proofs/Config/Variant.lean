/-
DeclLint/Proofs/Config/Variant.lean

Files that differ in nothing but the options that they give to `expect`.  What such
files hold are the same values (`SameSetting`), rules (`SameRules`) and documents
(`SameDocument`), up to these options, whatever values they are.  A workspace may
hold any number of such files (`SameButOptions`).

What the linter makes of a document is the same then, up to the arguments of
`expect`: the files that it extends, the faults in its rules, and its table of rules
(`ownRules_same`).  Looking up a path does not see the difference at all.
-/
import DeclLint.Config.Active
import DeclLint.Proofs.Config.Extends

namespace DeclLint.Config

/-! ### Tables of rules -/

/-- The name of the rule that runs compilers, as a key. -/
def expectKey : LooseText :=
  LooseText.ofString expectRule

/-- A setting without its arguments. -/
def bare (s : RuleSetting) : RuleSetting :=
  { s with arguments := [] }

/-- A setting of a rule, without its arguments if the rule is `expect`. -/
def bareIfExpect (name : LooseText) (s : RuleSetting) : RuleSetting :=
  if name = expectKey then bare s else s

/-- The rules without the arguments of `expect`. -/
def withoutOptions (rules : RuleTable) : RuleTable :=
  rules.mapValues bareIfExpect

theorem enforcesExpect_withoutOptions (rules : RuleTable) :
    enforcesExpect (withoutOptions rules) = enforcesExpect rules := by
  have hget : (withoutOptions rules).get? expectKey = (rules.get? expectKey).map bare := by
    rw [withoutOptions, Table.get?_mapValues]
    exact congrArg (fun f => (rules.get? expectKey).map f) (funext fun s => if_pos rfl)
  unfold enforcesExpect
  rw [← expectKey, hget]
  rcases rules.get? expectKey with - | s
  · rfl
  · rfl

/-- What a file gave to `expect` is not seen any more once the options are filled in. -/
theorem withOptions_withoutOptions {rules : RuleTable} (h : rules.keys.Nodup)
    (options : ExpectOptions) :
    withOptions (withoutOptions rules) options = withOptions rules options := by
  unfold withOptions
  rw [← expectKey]
  induction rules with
  | nil => rfl
  | cons e rules ih =>
    obtain ⟨name, s⟩ := e
    obtain ⟨hname, hrules⟩ := List.nodup_cons.mp h
    rw [withoutOptions, Table.mapValues_cons, Table.put, Table.put]
    by_cases hexpect : name = expectKey
    -- no other rule is `expect`
    · subst hexpect
      rw [if_pos rfl, if_pos rfl]
      refine congrArg _ ((List.map_congr_left fun e he => ?_).trans (List.map_id _))
      have hne : e.1 ≠ expectKey := fun h => hname (h ▸ List.mem_map.mpr ⟨e, he, rfl⟩)
      rw [bareIfExpect, if_neg hne]
      rfl
    · rw [if_neg hexpect, if_neg hexpect, bareIfExpect, if_neg hexpect]
      exact congrArg _ (ih hrules)

/-! ### Values -/

/-- Values of `expect` that differ in nothing but options: the tail of a list, the value under
`options` in a table, or, in whatever shapes, all that two values with the same severity have
beside it. -/
inductive SameSetting : Json → Json → Prop
  | refl (v : Json) : SameSetting v v
  | tail (head : Json) (xs ys : List Json) : SameSetting (.arr (head :: xs)) (.arr (head :: ys))
  | table {fields fields' : List (LooseText × Json)}
      (h : ∀ key, key ≠ "options" → Json.valueOf? fields key = Json.valueOf? fields' key) :
      SameSetting (.obj fields) (.obj fields')
  | accepted {v v' : Json} {s s' : RuleSetting} (h : RuleSetting.ofJson expectKey v = .ok s)
      (h' : RuleSetting.ofJson expectKey v' = .ok s') (hs : s.severity = s'.severity) :
      SameSetting v v'

theorem bare_ofJson_same {v v' : Json} (h : SameSetting v v') :
    (RuleSetting.ofJson expectKey v).map bare = (RuleSetting.ofJson expectKey v').map bare := by
  cases h with
  | refl => rfl
  | tail head xs ys => cases head <;> rfl
  | table h =>
    rw [RuleSetting.ofJson, RuleSetting.ofJson, h "severity" (by decide)]
    cases RuleSetting.severityOf _ <;> rfl
  | @accepted _ _ s s' h h' hs =>
    have hbare : bare s = bare s' := congrArg (RuleSetting.mk · []) hs
    rw [h, h']
    exact congrArg Except.ok hbare

/-- Entries of two tables of rules: the same rule with the same value, up to options of `expect`. -/
def SameEntry (e e' : LooseText × Json) : Prop :=
  e.1 = e'.1 ∧ (e.2 = e'.2 ∨ e.1 = expectKey ∧ SameSetting e.2 e'.2)

/-- Two tables of rules: the same rules in the same order, up to options of `expect`. -/
inductive SameRules : Json → Json → Prop
  | refl (v : Json) : SameRules v v
  | table {fields fields' : List (LooseText × Json)} (h : List.Forall₂ SameEntry fields fields') :
      SameRules (.obj fields) (.obj fields')

/-- The setting of an entry, without its arguments if the rule is `expect`. -/
def bareEntry (e : LooseText × Json) : Except RuleFault (LooseText × RuleSetting) :=
  (RuleSetting.ofJson e.1 e.2).map fun s => (e.1, bareIfExpect e.1 s)

theorem bareEntry_same {e e' : LooseText × Json} (h : SameEntry e e') :
    bareEntry e = bareEntry e' := by
  obtain ⟨name, v⟩ := e
  obtain ⟨name', v'⟩ := e'
  obtain ⟨rfl : name = name', rfl | ⟨rfl : name = expectKey, hv⟩⟩ := h
  · rfl
  · have hbare := bare_ofJson_same hv
    have hentry : ∀ v, bareEntry (expectKey, v) =
        ((RuleSetting.ofJson expectKey v).map bare).map (expectKey, ·) := by
      intro v
      rw [bareEntry]
      rcases RuleSetting.ofJson expectKey v with fault | s
      · rfl
      · exact congrArg (fun s => Except.ok (expectKey, s)) (if_pos rfl)
    rw [hentry, hentry, hbare]

theorem withoutOptions_ofJson (fields : List (LooseText × Json)) :
    (RuleTable.ofJson (.obj fields)).map withoutOptions = fields.mapM bareEntry := by
  have hentry : ∀ e : LooseText × Json, bareEntry e =
      ((RuleSetting.ofJson e.1 e.2).map fun s => (e.1, s)).map fun d =>
        (d.1, bareIfExpect d.1 d.2) := by
    intro e
    rw [bareEntry]
    cases RuleSetting.ofJson e.1 e.2 <;> rfl
  rw [funext hentry, Except.mapM_map]
  rfl

theorem withoutOptions_ofJson_same {v v' : Json} (h : SameRules v v') :
    (RuleTable.ofJson v).map withoutOptions = (RuleTable.ofJson v').map withoutOptions := by
  cases h with
  | refl => rfl
  | table h =>
    rw [withoutOptions_ofJson, withoutOptions_ofJson]
    induction h with
    | nil => rfl
    | cons he _ ih => rw [List.mapM_cons, List.mapM_cons, bareEntry_same he, ih]

/-! ### Documents -/

/-- Two documents that differ in nothing but options of `expect`. -/
inductive SameDocument : Json → Json → Prop
  | refl (d : Json) : SameDocument d d
  | object {fields fields' : List (LooseText × Json)} {v v' : Json}
      (others : ∀ key, key ≠ "rules" → Json.valueOf? fields key = Json.valueOf? fields' key)
      (hv : Json.valueOf? fields "rules" = some v) (hv' : Json.valueOf? fields' "rules" = some v')
      (rules : SameRules v v') : SameDocument (.obj fields) (.obj fields')

variable {d d' : Json}

/-- They extend the same files. -/
theorem parentEntries_same (h : SameDocument d d') : parentEntries d = parentEntries d' := by
  cases h with
  | refl => rfl
  | object others _ _ _ =>
    rw [parentEntries, parentEntries, Json.field?, Json.field?, others "extends" (by decide)]

/-- Their rules are the same, up to the arguments of `expect`, or have the same fault. -/
theorem ownRules_same (h : SameDocument d d') :
    (ownRules d).map withoutOptions = (ownRules d').map withoutOptions := by
  cases h with
  | refl => rfl
  | object _ hv hv' rules =>
    rw [ownRules, ownRules, Json.field?, Json.field?, hv, hv']
    exact withoutOptions_ofJson_same rules

/-! ### Files and workspaces -/

/-- What two trees hold at a place: the same, or files whose texts stand for documents which differ
in nothing but options of `expect`. -/
inductive SameNode : Option Node → Option Node → Prop
  | refl (n : Option Node) : SameNode n n
  | file {bytes bytes' : List UInt8} {cs cs' : List Char} {d d' : Json}
      (hcs : Files.utf8Text bytes = .ok cs) (htext : Json.IsText cs d)
      (hcs' : Files.utf8Text bytes' = .ok cs') (htext' : Json.IsText cs' d')
      (h : SameDocument d d') : SameNode (some (.file bytes)) (some (.file bytes'))

/-- Two workspaces that differ in nothing but options of `expect` in any of their files. -/
structure SameButOptions (w w' : Workspace) : Prop where
  cwd : w.cwd = w'.cwd
  environment : w.environment = w'.environment
  accountHome : w.accountHome = w'.accountHome
  room : w.room = w'.room
  nodes : ∀ place, SameNode (w.tree.node? place) (w'.tree.node? place)

theorem SameNode.isSome_eq {n n' : Option Node} (h : SameNode n n') : n.isSome = n'.isSome := by
  cases h with
  | refl => rfl
  | file => rfl

theorem SameNode.exists_file {bytes : List UInt8} {n : Option Node}
    (h : SameNode (some (.file bytes)) n) : ∃ bytes', n = some (.file bytes') := by
  cases h with
  | refl => exact ⟨bytes, rfl⟩
  | file => exact ⟨_, rfl⟩

/-- A value as the document of a file: it has to be an object. -/
def asDocument (p : Place) : Json → Except LintError Json
  | .obj fields => .ok (.obj fields)
  | _ => .error (.config (.notObject (pathOf p)))

variable {w w' : Workspace}

/-- Where files differ, both are read within the limits of the reader, with any chain of files that
leads to them from the place. -/
def FitsWhereChanged (w w' : Workspace) (p : Place) : Prop :=
  ∀ chain q, AsksFor w p chain q → q ∉ chain → chain.length < w.room.chains →
    w.tree.node? q ≠ w'.tree.node? q →
    FitsReader w q (w.room.documents - chain.length) ∧
      FitsReader w' q (w.room.documents - chain.length)

theorem documentOf_of_isText {p : Place} {bytes : List UInt8} {cs : List Char} {room : Nat}
    (hfile : w.tree.node? p = some (.file bytes)) (hcs : Files.utf8Text bytes = .ok cs)
    (htext : Json.IsText cs d) (hfits : FitsReader w p room) :
    documentOf room p bytes = asDocument p d := by
  have hread : Json.read room cs = .ok d :=
    Json.read_eq_ok_iff.mpr ⟨htext, hfits bytes cs hfile hcs⟩
  rw [documentOf, hcs]
  dsimp only
  rw [hread]
  cases d <;> rfl

/-- Files that differ in nothing but options hold documents that do, or end in the same error, if
both are within the limits of the reader where they differ. -/
theorem SameNode.documentOf {bytes bytes' : List UInt8} {p : Place} {room : Nat}
    (h : SameNode (w.tree.node? p) (w'.tree.node? p))
    (hfile : w.tree.node? p = some (.file bytes)) (hfile' : w'.tree.node? p = some (.file bytes'))
    (hfits : w.tree.node? p ≠ w'.tree.node? p → FitsReader w p room ∧ FitsReader w' p room) :
    (∃ e, documentOf room p bytes = .error e ∧ documentOf room p bytes' = .error e) ∨
      ∃ d d', documentOf room p bytes = .ok d ∧ documentOf room p bytes' = .ok d' ∧
        SameDocument d d' := by
  by_cases heq : w.tree.node? p = w'.tree.node? p
  · obtain rfl : bytes = bytes' := by simpa [hfile, hfile'] using heq
    rcases hd : Config.documentOf room p bytes with e | d
    · exact Or.inl ⟨e, rfl, rfl⟩
    · exact Or.inr ⟨d, d, rfl, rfl, .refl d⟩
  · obtain ⟨hfit, hfit'⟩ := hfits heq
    have hnode := h
    rw [hfile, hfile'] at hnode
    cases hnode with
    | refl => exact absurd (hfile.trans hfile'.symm) heq
    | file hcs htext hcs' htext' h =>
      rw [documentOf_of_isText hfile hcs htext hfit, documentOf_of_isText hfile' hcs' htext' hfit']
      cases h with
      | refl =>
        rcases asDocument p _ with e | d
        · exact Or.inl ⟨e, rfl, rfl⟩
        · exact Or.inr ⟨d, d, rfl, rfl, .refl d⟩
      | object others hv hv' rules => exact Or.inr ⟨_, _, rfl, rfl, .object others hv hv' rules⟩

theorem SameButOptions.walk_eq (h : SameButOptions w w') (here : Place) (segments : List String) :
    w.tree.walk here segments = w'.tree.walk here segments := by
  induction segments generalizing here with
  | nil => rfl
  | cons s rest ih =>
    rw [FileTree.walk, FileTree.walk, (h.nodes (here ++ [s])).isSome_eq, ih, ih]
    have hnode := h.nodes here
    generalize w.tree.node? here = n, w'.tree.node? here = n' at hnode
    cases hnode with
    | refl => rfl
    | file => rfl

theorem SameButOptions.absolute_eq (h : SameButOptions w w') (p : Path) :
    w.absolute p = w'.absolute p := by
  rw [Workspace.absolute, Workspace.absolute, Workspace.cwdPath, Workspace.cwdPath, h.cwd]

theorem SameButOptions.locate_eq (h : SameButOptions w w') (p : Path) :
    w.locate p = w'.locate p := by
  rw [Workspace.locate, Workspace.locate, h.absolute_eq, h.walk_eq]

theorem SameButOptions.resolve_eq (h : SameButOptions w w') (p : Path) :
    w.resolve p = w'.resolve p := by
  rw [Workspace.resolve, Workspace.resolve, Workspace.cwdPath, Workspace.cwdPath, h.cwd]

/-- A look at a path sees something in both workspaces, or nothing, or fails in the same way. -/
theorem SameButOptions.node?_same (h : SameButOptions w w') (p : Path) :
    (w.node? p).map Option.isSome = (w'.node? p).map Option.isSome := by
  rw [Workspace.node?, Workspace.node?, h.locate_eq]
  rcases w'.locate p with fault | place
  · cases fault <;> rfl
  · exact congrArg Except.ok (h.nodes place).isSome_eq

end DeclLint.Config
