/-
DeclLint/Config/Extends.lean

Loading a configuration file together with the files it extends.  Parents
come first, in their listed order, and later settings replace earlier ones in
their place; the file's own rules come last.  Files are told apart by their
places, so no spelling of a path hides that a file extends itself.

Loading ends because every file on the chain from the first one to the
current one is a different file of the tree: the files that are not on the
chain yet get fewer with every step.  There may be room for fewer of them than
there are in the tree, and what they take is missing where a document is read.
-/
import DeclLint.Config.Bundled
import DeclLint.Config.Rule
import DeclLint.Files.Text

namespace DeclLint

namespace Table

variable {κ α : Type} [DecidableEq κ]

theorem mem_keys_of_get? {t : Table κ α} {k : κ} {v : α} (h : t.get? k = some v) : k ∈ t.keys := by
  induction t with
  | nil => cases h
  | cons e t ih =>
    obtain ⟨l, u⟩ := e
    by_cases hl : l = k
    · simp [hl]
    · rw [get?_cons, if_neg hl] at h
      simp [ih h]

end Table

namespace Config

/-- A place as an absolute path. -/
def pathOf (p : Place) : Path :=
  ⟨.single, p⟩

/-- The JSON object in the file at a place, read with room for some nesting. -/
def documentOf (room : Nat) (place : Place) (bytes : List UInt8) : Except LintError Json :=
  match Files.utf8Text bytes with
  | .error fault => .error (.undecodable fault)
  | .ok cs =>
    match Json.read room cs with
    | .error (.malformed fault) => .error (.config (.malformed (pathOf place) fault))
    | .error (.excess e) => .error (.excess e)
    | .ok (.obj fields) => .ok (.obj fields)
    | .ok _ => .error (.config (.notObject (pathOf place)))

/-- What a configuration lists under `extends`: one name, a list, or the keys of a table. -/
def parentEntries (document : Json) : Except LintError (List Json) :=
  match document.field? "extends" with
  | none => .ok []
  | some (.str s) => .ok [.str s]
  | some (.arr items) => .ok items
  | some (.obj fields) => .ok (fields.map fun e => .str e.1)
  | some v => .error (.extendsShape v)

/-- The file that an entry under `extends` names, seen from the directory of the extending file:
a bundled one by its name, any other by its path. -/
def parentFile (directory : Place) : Json → Except LintError Path
  | .str name =>
    match name.toString?.bind Bundled.ofName? with
    | some b => .ok b.path
    | none =>
      let p := (pathOf directory).child name.escaped
      if !name.isFileName then
        .error (.unencodable (LooseText.ofString ((pathOf directory).toString ++ "/") ++ name))
      else if Workspace.hasNul p then .error .nulInPath
      else .ok (Path.resolve (pathOf []) p)
  | v => .error (.extendsName v)

/-- The rules of a configuration without those that it extends. -/
def ownRules (document : Json) : Except RuleFault RuleTable :=
  match document.field? "rules" with
  | none => .ok []
  | some v => RuleTable.ofJson v

/-- The error that a fault in the rules of a file makes.  The explanation has to be encoded, which
fails for a rule with a lone surrogate in its name. -/
def refusal (place : Place) (fault : RuleFault) : LintError :=
  match fault.text.toString? with
  | some _ => .config (.invalid (pathOf place) [fault.complaint])
  | none => .unencodable fault.text

/-- The files of a tree that are not on a chain. -/
def unvisited (t : FileTree) (chain : List Place) : List Place :=
  t.entries.keys.filter fun p => decide (p ∉ chain)

theorem length_unvisited_lt {t : FileTree} {chain : List Place} {p : Place} {bytes : List UInt8}
    (hp : p ∉ chain) (hf : t.node? p = some (.file bytes)) :
    (unvisited t (chain ++ [p])).length < (unvisited t chain).length := by
  have hm : p ∈ t.entries.keys := by
    by_cases h₀ : p = []
    · simp [FileTree.node?, h₀] at hf
    · rw [FileTree.node?, if_neg h₀] at hf
      exact Table.mem_keys_of_get? hf
  have hs : unvisited t (chain ++ [p]) = (unvisited t chain).filter fun q => decide (q ≠ p) := by
    simp only [unvisited, List.filter_filter]
    congr 1
    funext q
    simp only [List.mem_append, List.mem_singleton, not_or, Bool.decide_and, Bool.and_comm]
  rw [hs]
  exact List.length_filter_lt_length_iff_exists.2
    ⟨p, by simp [unvisited, hm, hp], by simp⟩

/-- The rules of the file at a place and of the files that it extends, where `chain` are the
files that led to it. -/
def rulesAt (w : Workspace) (chain : List Place) (place : Place) : Traced RuleTable :=
  if w.room.chains ≤ chain.length then Traced.fail (.excess (.nesting .chain))
  else if _hc : place ∈ chain then
    Traced.fail (.config (.circular ((chain ++ [place]).map pathOf)))
  else do
    let _ ← Traced.ofExcept (LintError.atPath (pathOf place) (w.node? (pathOf place)))
    match _hf : w.tree.node? place with
    | some (.file bytes) =>
      let document ← Traced.ofExcept (documentOf (w.room.documents - chain.length) place bytes)
      let entries ← Traced.ofExcept (parentEntries document)
      let inherited ← entries.foldlM (fun rules entry => do
        let parent ← Traced.ofExcept (parentFile place.dropLast entry)
        Traced.log .debug .configFiles
          ((pathOf place).toString ++ " extends " ++ parent.toString)
        let more ← rulesAt w (chain ++ [place]) parent.segments
        return Table.merge rules more) []
      match ownRules document with
      | .ok own => return Table.merge inherited own
      | .error fault => Traced.fail (refusal place fault)
    | _ => Traced.fail (.config (.absent (pathOf place)))
termination_by (unvisited w.tree chain).length
decreasing_by exact length_unvisited_lt _hc _hf

/-- The configuration in a file, with everything it extends. -/
def load (w : Workspace) (file : Path) : Traced LintConfig := do
  if Workspace.hasNul file then Traced.fail .nulInPath
  else
    let rules ← rulesAt w [] (w.resolve file).segments
    return ⟨rules, some file⟩

end Config

end DeclLint
