/-
DeclLint/Proofs/Config/Document.lean

What a configuration file says, by itself.  Its document is the JSON object that its
text stands for, whatever the limits of a reader (`Holds`).  The document lists entries
under `extends` (`Lists`), each of which should be a name; a name stands for a file, a
bundled one or the one that its path leads to when double dots are cancelled (`Names`);
and it has rules of its own (`OwnRules`).

These are relations, stated without the functions that load a configuration, and each
function is shown to be the relation (`parentEntries_eq_ok_iff`, `parentFile_eq_ok_iff`,
`ownRules_eq_ok_iff`).  From them come the files that a file extends (`Extends`), how
many steps away a file is (`Reaches`), and what makes a file one that a configuration
can be read from (`IsSound`).
-/
import DeclLint.Config.Extends
import DeclLint.Proofs.Json.Limits
import DeclLint.Proofs.Path.Resolution
import DeclLint.Proofs.Result
import Mathlib.Data.List.Forall2

namespace DeclLint.Config

open Relation (ReflTransGen)

/-! ### What a document extends -/

variable {document entry : Json} {entries : List Json} {directory q q' : Place} {name : LooseText}

/-- The entries that a document lists under `extends`: none, a name alone, those of a list, or the
keys of a table. -/
inductive Lists (document : Json) : List Json → Prop
  | none (h : document.field? "extends" = none) : Lists document []
  | name {s : LooseText} (h : document.field? "extends" = some (.str s)) : Lists document [.str s]
  | list {items : List Json} (h : document.field? "extends" = some (.arr items)) :
    Lists document items
  | keys {fields : List (LooseText × Json)} (h : document.field? "extends" = some (.obj fields)) :
    Lists document (fields.map fun e => .str e.1)

theorem parentEntries_eq_ok_iff :
    parentEntries document = .ok entries ↔ Lists document entries := by
  unfold parentEntries
  constructor
  · intro h
    split at h
    · next hv => exact Except.ok.inj h ▸ .none hv
    · next hv => exact Except.ok.inj h ▸ .name hv
    · next hv => exact Except.ok.inj h ▸ .list hv
    · next hv => exact Except.ok.inj h ▸ .keys hv
    · cases h
  · rintro (h | h | h | h) <;> rw [h]

/-- The name is one that stands for a bundled configuration. -/
def IsBundled (name : LooseText) (b : Bundled) : Prop :=
  ∃ text, name = LooseText.ofString text ∧ (text, b) ∈ Bundled.names

/-- The segments of the path that a name writes, seen from a directory. -/
def spelled (directory : Place) (name : LooseText) : List String :=
  ((pathOf directory).child name.escaped).segments

/-- The name stands for the file at a place, in a configuration from the directory. -/
inductive Names (directory : Place) (name : LooseText) : Place → Prop
  | bundled {b : Bundled} (h : IsBundled name b) :
    Names directory name (Bundled.directory ++ [b.fileName])
  /-- Any other name is a path, which is resolved. -/
  | path {q : Place} (hother : ∀ b, ¬ IsBundled name b) (hname : name.isFileName = true)
    (hnul : ∀ s ∈ spelled directory name, '\x00' ∉ s.toList)
    (hreduces : ReflTransGen (Path.CancelsDot true) (spelled directory name) q)
    (hresolved : ".." ∉ q) : Names directory name q

/-- The entry stands for no file, with the error that says so. -/
inductive Misnames (directory : Place) : Json → LintError → Prop
  | noName {entry : Json} (h : ∀ name, entry ≠ .str name) :
    Misnames directory entry (.extendsName entry)
  /-- A surrogate stands alone in it. -/
  | loose {name : LooseText} (hother : ∀ b, ¬ IsBundled name b) (h : name.isFileName = false) :
    Misnames directory (.str name)
      (.unencodable (LooseText.ofString ((pathOf directory).toString ++ "/") ++ name))
  | nul {name : LooseText} (hother : ∀ b, ¬ IsBundled name b) (hname : name.isFileName = true)
    {s : String} (hs : s ∈ spelled directory name) (h : '\x00' ∈ s.toList) :
    Misnames directory (.str name) .nulInPath

/-- In a list where no key stands twice, what is found for a key is what stands there with it. -/
theorem lookup_eq_some_iff_mem {β : Type} {entries : List (String × β)} {key : String} {v : β}
    (h : (entries.map Prod.fst).Nodup) : entries.lookup key = some v ↔ (key, v) ∈ entries := by
  induction entries with
  | nil => simp
  | cons e entries ih =>
    obtain ⟨key', v'⟩ := e
    obtain ⟨hnot, hentries⟩ := List.nodup_cons.mp h
    have hrest := ih hentries
    by_cases hkey : key = key'
    · subst hkey
      have hnone : (key, v) ∉ entries := fun hmem => hnot (List.mem_map.mpr ⟨_, hmem, rfl⟩)
      simp [hnone, eq_comm]
    · simp [List.lookup_cons, beq_false_of_ne hkey, hkey, hrest]

theorem bundled?_eq_some_iff {b : Bundled} :
    name.toString?.bind Bundled.ofName? = some b ↔ IsBundled name b := by
  have hnodup : (Bundled.names.map Prod.fst).Nodup := by decide
  constructor
  · intro h
    obtain ⟨text, htext, hb⟩ := Option.bind_eq_some_iff.mp h
    exact ⟨text, LooseText.eq_ofString htext, (lookup_eq_some_iff_mem hnodup).mp hb⟩
  · rintro ⟨text, rfl, hb⟩
    rw [LooseText.toString?_ofString, Option.bind_some]
    exact (lookup_eq_some_iff_mem hnodup).mpr hb

theorem bundled?_eq_none_iff :
    name.toString?.bind Bundled.ofName? = none ↔ ∀ b, ¬ IsBundled name b := by
  simp only [Option.eq_none_iff_forall_ne_some, ne_eq, bundled?_eq_some_iff]

theorem hasNul_spelled_iff : Workspace.hasNul ((pathOf directory).child name.escaped) = true ↔
    ∃ s ∈ spelled directory name, '\x00' ∈ s.toList := by
  simp only [Workspace.hasNul, List.any_eq_true, List.contains_iff_mem, spelled]

/-- Seen from a directory, a path is absolute. -/
theorem resolve_child (directory : Place) (text : String) :
    Path.resolve (pathOf []) ((pathOf directory).child text) =
      pathOf (Path.cancelDots true ((pathOf directory).child text).segments) := by
  have habsolute : ((pathOf directory).child text).isAbsolute = true := by
    rw [Path.child, Path.join]
    split
    · next h => exact h
    · rfl
  rw [Path.resolve, Path.join_absolute habsolute]
  rfl

theorem isResolved_true_iff {segments : List String} :
    Path.IsResolved true segments ↔ ".." ∉ segments := by
  constructor
  · rintro ⟨n, names, hnames, hn, rfl⟩
    rw [hn rfl]
    exact hnames
  · exact fun h => ⟨0, segments, h, fun _ => rfl, rfl⟩

/-- **The file of an entry is the one that its name stands for.** -/
theorem parentFile_eq_ok_iff {file : Path} : parentFile directory entry = .ok file ↔
    ∃ name q, entry = .str name ∧ Names directory name q ∧ file = pathOf q := by
  unfold parentFile
  constructor
  · intro h
    split at h
    · next name =>
      refine ⟨name, ?_⟩
      split at h
      · next b hb =>
        exact ⟨_, rfl, .bundled (bundled?_eq_some_iff.mp hb), (Except.ok.inj h).symm⟩
      · next hnone =>
        dsimp only at h
        split at h
        · cases h
        · next hname =>
          split at h
          · cases h
          · next hnul =>
            obtain ⟨hreduces, hresolved⟩ := Path.cancelDots_eq_iff.mp
              (rfl : Path.cancelDots true (spelled directory name) = _)
            refine ⟨_, rfl, .path (bundled?_eq_none_iff.mp hnone) (by simpa using hname) ?_
              hreduces (isResolved_true_iff.mp hresolved), ?_⟩
            · exact fun s hs hmem => hnul (hasNul_spelled_iff.mpr ⟨s, hs, hmem⟩)
            · rw [← Except.ok.inj h, resolve_child]
              rfl
    · cases h
  · rintro ⟨name, q, rfl, hq, rfl⟩
    dsimp only
    cases hq with
    | bundled h =>
      rw [bundled?_eq_some_iff.mpr h]
      rfl
    | path hother hname hnul hreduces hresolved =>
      have hnot : ¬ Workspace.hasNul ((pathOf directory).child name.escaped) = true := by
        rw [hasNul_spelled_iff]
        rintro ⟨s, hs, hmem⟩
        exact hnul s hs hmem
      have hsegments := Path.cancelDots_eq_iff.mpr ⟨hreduces, isResolved_true_iff.mpr hresolved⟩
      rw [bundled?_eq_none_iff.mpr hother]
      dsimp only
      rw [hname, Bool.not_true, if_neg Bool.false_ne_true, if_neg hnot, resolve_child,
        ← spelled, hsegments]

theorem parentFile_eq_error_iff {e : LintError} :
    parentFile directory entry = .error e ↔ Misnames directory entry e := by
  unfold parentFile
  constructor
  · intro h
    split at h
    · split at h
      · cases h
      · next hnone =>
        dsimp only at h
        split at h
        · next hname =>
          obtain rfl := Except.error.inj h
          exact .loose (bundled?_eq_none_iff.mp hnone) (by simpa using hname)
        · next hname =>
          split at h
          · next hnul =>
            obtain rfl := Except.error.inj h
            obtain ⟨s, hs, hmem⟩ := hasNul_spelled_iff.mp hnul
            exact .nul (bundled?_eq_none_iff.mp hnone) (by simpa using hname) hs hmem
          · cases h
    · next hstr =>
      obtain rfl := Except.error.inj h
      exact .noName fun name heq => hstr name heq
  · rintro (h | ⟨hother, hname⟩ | ⟨hother, hname, hs, hmem⟩)
    · split
      · exact absurd rfl (h _)
      · rfl
    · dsimp only
      rw [bundled?_eq_none_iff.mpr hother, hname]
      rfl
    · dsimp only
      rw [bundled?_eq_none_iff.mpr hother, hname, Bool.not_true]
      exact (if_neg Bool.false_ne_true).trans (if_pos (hasNul_spelled_iff.mpr ⟨_, hs, hmem⟩))

/-- A name stands for one file. -/
theorem Names.unique (h : Names directory name q) (h' : Names directory name q') : q = q' := by
  have hfile := parentFile_eq_ok_iff.mpr ⟨name, q, rfl, h, rfl⟩
  have hfile' := parentFile_eq_ok_iff.mpr ⟨name, q', rfl, h', rfl⟩
  exact (Path.mk.inj (Except.ok.inj (hfile.symm.trans hfile'))).2

/-! ### The rules of a document -/

/-- The names of severities; each has two. -/
def severityNames : List (String × Severity) := [
  ("error", .error), ("default", .error), ("warning", .warning), ("warn", .warning),
  ("off", .off), ("none", .off)]

/-- What a table of settings says about the severity: nothing, which makes it an error, or its
name. -/
inductive HasSeverity : Option Json → Severity → Prop
  | absent : HasSeverity none .error
  | named {text : String} {severity : Severity} (h : (text, severity) ∈ severityNames) :
    HasSeverity (some (.str (LooseText.ofString text))) severity

/-- What a table of settings says about the options: nothing, a list of them, or a single one. -/
inductive HasOptions : Option Json → List RuleArgument → Prop
  | absent : HasOptions none []
  | list (items : List Json) : HasOptions (some (.arr items)) (items.map .value)
  | single {v : Json} (h : ∀ items, v ≠ .arr items) : HasOptions (some v) [.value v]

/-- The value stands for the setting of a rule. -/
inductive IsSetting : Json → RuleSetting → Prop
  | switch (on : Bool) : IsSetting (.bool on) ⟨.ofBool on, []⟩
  | list (on : Bool) (arguments : List Json) :
    IsSetting (.arr (.bool on :: arguments)) ⟨.ofBool on, arguments.map .value⟩
  | table {fields : List (LooseText × Json)} {severity : Severity} {arguments : List RuleArgument}
    (hseverity : HasSeverity (Json.valueOf? fields "severity") severity)
    (hoptions : HasOptions (Json.valueOf? fields "options") arguments) :
    IsSetting (.obj fields) ⟨severity, arguments⟩

/-- The rules of a document, without those of what it extends: none, or the settings that the
fields of a table stand for, under their names and in their order. -/
inductive OwnRules (document : Json) : RuleTable → Prop
  | absent (h : document.field? "rules" = none) : OwnRules document []
  | table {fields : List (LooseText × Json)} {own : RuleTable}
    (h : document.field? "rules" = some (.obj fields))
    (hsettings : List.Forall₂ (fun field rule => rule.1 = field.1 ∧ IsSetting field.2 rule.2)
      fields own) : OwnRules document own

variable {setting : RuleSetting} {own : RuleTable}

theorem ofName?_eq_some_iff {text : String} {severity : Severity} :
    Severity.ofName? text = some severity ↔ (text, severity) ∈ severityNames := by
  simp only [severityNames, List.mem_cons, Prod.mk.injEq, List.not_mem_nil, or_false]
  unfold Severity.ofName?
  grind

theorem severityOf_eq_ok_iff {v : Option Json} {severity : Severity} :
    RuleSetting.severityOf v = .ok severity ↔ HasSeverity v severity := by
  unfold RuleSetting.severityOf
  constructor
  · intro h
    split at h
    · obtain rfl := Except.ok.inj h
      exact .absent
    · next t =>
      rcases ht : t.toString? with - | text
      · rw [ht] at h
        cases h
      · rw [ht] at h
        obtain rfl := LooseText.eq_ofString ht
        dsimp only at h
        rcases hname : Severity.ofName? text with - | severity'
        · rw [hname] at h
          cases h
        · rw [hname] at h
          obtain rfl := Except.ok.inj h
          exact .named (ofName?_eq_some_iff.mp hname)
    · cases h
  · rintro (- | h)
    · rfl
    · dsimp only
      rw [LooseText.toString?_ofString]
      dsimp only
      rw [ofName?_eq_some_iff.mpr h]

theorem optionsOf_eq_iff {v : Option Json} {arguments : List RuleArgument} :
    RuleSetting.optionsOf v = arguments ↔ HasOptions v arguments := by
  unfold RuleSetting.optionsOf
  constructor
  · rintro rfl
    split
    · exact .absent
    · exact .list _
    · next v hv => exact .single hv
  · rintro (- | items | h)
    · rfl
    · rfl
    · split
      · next heq => cases heq
      · next heq =>
        obtain rfl := Option.some.inj heq
        exact absurd rfl (h _)
      · next heq => rw [Option.some.inj heq]

theorem ruleSetting_ofJson_eq_ok_iff {rule : LooseText} {v : Json} :
    RuleSetting.ofJson rule v = .ok setting ↔ IsSetting v setting := by
  unfold RuleSetting.ofJson
  constructor
  · intro h
    split at h
    · exact Except.ok.inj h ▸ .switch _
    · exact Except.ok.inj h ▸ .list _ _
    · cases h
    · obtain ⟨severity, hseverity, rfl⟩ := Except.map_eq_ok_iff.mp h
      exact .table (severityOf_eq_ok_iff.mp hseverity) (optionsOf_eq_iff.mp rfl)
    · cases h
  · rintro (on | ⟨on, arguments⟩ | ⟨hseverity, hoptions⟩)
    · rfl
    · rfl
    · refine Except.map_eq_ok_iff.mpr ⟨_, severityOf_eq_ok_iff.mpr hseverity, ?_⟩
      rw [optionsOf_eq_iff.mpr hoptions]

theorem ownRules_eq_ok_iff : ownRules document = .ok own ↔ OwnRules document own := by
  have hfield : ∀ (field : LooseText × Json) (rule : LooseText × RuleSetting),
      ((RuleSetting.ofJson field.1 field.2).map fun s => (field.1, s)) = .ok rule ↔
        rule.1 = field.1 ∧ IsSetting field.2 rule.2 := by
    rintro ⟨name, v⟩ ⟨name', setting⟩
    rw [Except.map_eq_ok_iff]
    simp only [ruleSetting_ofJson_eq_ok_iff, Prod.mk.injEq]
    grind
  have hobj : ∀ fields : List (LooseText × Json), RuleTable.ofJson (.obj fields) = .ok own ↔
      List.Forall₂ (fun field rule => rule.1 = field.1 ∧ IsSetting field.2 rule.2) fields own := by
    intro fields
    simp only [RuleTable.ofJson, Except.mapM_eq_ok_iff, hfield]
  unfold ownRules
  constructor
  · intro h
    split at h
    · next hv => exact Except.ok.inj h ▸ .absent hv
    · next v hv =>
      cases v with
      | obj fields => exact .table hv ((hobj fields).mp h)
      | _ => cases h
  · rintro (hv | ⟨hv, hsettings⟩)
    · rw [hv]
    · rw [hv]
      exact (hobj _).mpr hsettings

/-! ### Files and what they extend -/

variable {w : Workspace} {p : Place} {n : Nat}

/-- The place holds a configuration file with a document: its path is not too long to be looked up,
and there is a regular file, whose bytes are UTF-8 that stands for a JSON object. -/
structure Holds (w : Workspace) (p : Place) (document : Json) : Prop where
  found : ∃ n, w.node? (pathOf p) = .ok n
  text : ∃ bytes cs, w.tree.node? p = some (.file bytes) ∧ Files.utf8Text bytes = .ok cs ∧
    Json.IsText cs document
  isObject : ∃ fields, document = .obj fields

/-- A configuration can be read from the place, apart from what it extends: its entries under
`extends` are names that files can have, and its rules are absent or valid. -/
def IsSound (w : Workspace) (p : Place) : Prop :=
  ∃ document, Holds w p document ∧
    (∃ entries, Lists document entries ∧
      ∀ entry ∈ entries, ∃ name q, entry = .str name ∧ Names p.dropLast name q) ∧
    ∃ own, OwnRules document own

/-- The configuration at the place `p` extends the one at the place `q`. -/
def Extends (w : Workspace) (p q : Place) : Prop :=
  ∃ document entries name, Holds w p document ∧ Lists document entries ∧
    .str name ∈ entries ∧ Names p.dropLast name q

/-- The place `q` is reached from `p` by extending `n` times. -/
inductive Reaches (w : Workspace) : Place → Nat → Place → Prop
  | here (p : Place) : Reaches w p 0 p
  | further {p q r : Place} {n : Nat} (h : Reaches w p n q) (hr : Extends w q r) :
    Reaches w p (n + 1) r

/-- The file at the place, if it is one, is read without its reader coming to a limit, which has
room for the given nesting. -/
def FitsReader (w : Workspace) (p : Place) (room : Nat) : Prop :=
  ∀ bytes cs, w.tree.node? p = some (.file bytes) → Files.utf8Text bytes = .ok cs →
    ∀ e, Json.read room cs ≠ .error (.excess e)

theorem fitsReader_iff {bytes : List UInt8} {cs : List Char} {room : Nat}
    (hfile : w.tree.node? p = some (.file bytes)) (htext : Files.utf8Text bytes = .ok cs) :
    FitsReader w p room ↔ ∀ e, Json.read room cs ≠ .error (.excess e) := by
  constructor
  · exact fun h => h bytes cs hfile htext
  · intro h bytes' cs' hfile' htext'
    obtain rfl : bytes = bytes' := by simpa [hfile] using hfile'
    obtain rfl := Except.ok.inj (htext.symm.trans htext')
    exact h

theorem Holds.unique {d d' : Json} (h : Holds w p d) (h' : Holds w p d') : d = d' := by
  obtain ⟨bytes, cs, hb, hc, hd⟩ := h.text
  obtain ⟨bytes', cs', hb', hc', hd'⟩ := h'.text
  obtain rfl : bytes = bytes' := by simpa [hb] using hb'
  obtain rfl := Except.ok.inj (hc.symm.trans hc')
  exact hd.unique hd'

theorem Lists.unique {entries' : List Json} (h : Lists document entries)
    (h' : Lists document entries') : entries = entries' :=
  Except.ok.inj ((parentEntries_eq_ok_iff.mpr h).symm.trans (parentEntries_eq_ok_iff.mpr h'))

theorem OwnRules.unique {own' : RuleTable} (h : OwnRules document own)
    (h' : OwnRules document own') : own = own' :=
  Except.ok.inj ((ownRules_eq_ok_iff.mpr h).symm.trans (ownRules_eq_ok_iff.mpr h'))

theorem reflTransGen_iff_reaches : ReflTransGen (Extends w) p q ↔ ∃ n, Reaches w p n q := by
  constructor
  · intro h
    induction h with
    | refl => exact ⟨0, .here p⟩
    | tail _ hr ih =>
      obtain ⟨n, ih⟩ := ih
      exact ⟨n + 1, ih.further hr⟩
  · rintro ⟨n, h⟩
    induction h with
    | here => exact .refl
    | further _ hr ih => exact ih.tail hr

theorem Reaches.head {r : Place} (hq : Extends w p q) (h : Reaches w q n r) :
    Reaches w p (n + 1) r := by
  induction h with
  | here => exact (Reaches.here p).further hq
  | further _ hr ih => exact ih.further hr

/-! ### Reading a file -/

/-- **What is read from a file is the object that its text stands for**, within the limits of the
reader. -/
theorem documentOf_eq_ok_iff {bytes : List UInt8} {room : Nat} :
    documentOf room p bytes = .ok document ↔
      (∃ cs, Files.utf8Text bytes = .ok cs ∧ Json.IsText cs document ∧
        ∀ e, Json.read room cs ≠ .error (.excess e)) ∧ ∃ fields, document = .obj fields := by
  simp only [← Json.read_eq_ok_iff]
  unfold documentOf
  rcases Files.utf8Text bytes with fault | cs
  · simp
  · simp only [Except.ok.injEq, exists_eq_left']
    rcases Json.read room cs with (fault | e) | v
    · simp
    · simp
    · cases v with
      | obj fields =>
        constructor
        · intro h
          obtain rfl := Except.ok.inj h
          exact ⟨rfl, fields, rfl⟩
        · rintro ⟨h, -⟩
          obtain rfl := Except.ok.inj h
          rfl
      | _ =>
        constructor
        · intro h
          cases h
        · rintro ⟨h, fields, rfl⟩
          cases h

end DeclLint.Config
