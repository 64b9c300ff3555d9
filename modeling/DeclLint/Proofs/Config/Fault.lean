/-
DeclLint/Proofs/Config/Fault.lean

What loading a configuration fails with.  A file that is absent, that holds no JSON
object, that extends itself or has rules that are refused makes a fault of the
configuration, and says so.  Not every file does: there is content that makes an error
of another kind, which is that of whatever stumbles over it first, and there may be no
room for a file behind those that lead to it (`EscapesAt`).

`load_error_cases` says that there is nothing else.  Any other error than a fault of
the configuration comes from the path that was asked for, or from one file that is
reached through `extends`, and is the one that the content of this file makes, or that
its distance makes.  The induction is that of loading, over the files that are not on
the chain yet.
-/
import DeclLint.Proofs.Config.Extends
import DeclLint.Proofs.Fault

namespace DeclLint.Config

variable {w : Workspace} {chain : List Place} {p : Place} {n : Nat} {e : LintError}

/-! ### What makes other errors -/

/-- The file at the place, behind a number of others, makes an error that is no fault of the
configuration. -/
inductive EscapesAt (w : Workspace) (n : Nat) (p : Place) : LintError → Prop
  /-- There is no room for one more file. -/
  | chain (h : w.room.chains ≤ n) : EscapesAt w n p (.excess (.nesting .chain))
  /-- Its path is too long to be looked up, or a name in it. -/
  | unseen {fault : AccessFault} (h : w.node? (pathOf p) = .error fault) :
      EscapesAt w n p (.access (pathOf p) fault)
  /-- Its bytes are no UTF-8. -/
  | undecodable {bytes : List UInt8} {fault : Text.Utf8Fault}
      (hfile : w.tree.node? p = some (.file bytes)) (h : Files.utf8Text bytes = .error fault) :
      EscapesAt w n p (.undecodable fault)
  /-- It holds a number of too many digits, or is nested too deep for what the other files leave. -/
  | excess {bytes : List UInt8} {cs : List Char} {excess : Excess}
      (hfile : w.tree.node? p = some (.file bytes)) (htext : Files.utf8Text bytes = .ok cs)
      (h : Json.read (w.room.documents - n) cs = .error (.excess excess)) :
      EscapesAt w n p (.excess excess)
  /-- What it extends is neither a string nor a list nor a table. -/
  | shape {document v : Json} (hholds : Holds w p document)
      (h : document.field? "extends" = some v)
      (hv : ∀ s items fields, v ≠ .str s ∧ v ≠ .arr items ∧ v ≠ .obj fields) :
      EscapesAt w n p (.extendsShape v)
  /-- It extends something that is no string, or a string that can name no file. -/
  | entry {document entry : Json} {entries : List Json} {e : LintError}
      (hholds : Holds w p document) (hentries : Lists document entries)
      (hentry : entry ∈ entries) (h : Misnames p.dropLast entry e) : EscapesAt w n p e
  /-- Its rules are refused, with an explanation that cannot be written. -/
  | explanation {document : Json} {fault : RuleFault} (hholds : Holds w p document)
      (h : ownRules document = .error fault) (hloose : fault.text.toString? = none) :
      EscapesAt w n p (.unencodable fault.text)

theorem parentEntries_eq_error {document : Json} (h : parentEntries document = .error e) :
    ∃ v, document.field? "extends" = some v ∧ e = .extendsShape v ∧
      ∀ s items fields, v ≠ .str s ∧ v ≠ .arr items ∧ v ≠ .obj fields := by
  unfold parentEntries at h
  split at h
  · cases h
  · cases h
  · cases h
  · cases h
  · next v hstr harr hobj hv =>
    obtain rfl := Except.error.inj h
    exact ⟨v, hv, rfl, fun s items fields => ⟨hstr s, harr items, hobj fields⟩⟩

/-- None of these is a fault of the configuration. -/
theorem EscapesAt.ne_config (h : EscapesAt w n p e) (fault : ConfigFault) : e ≠ .config fault := by
  cases h with
  | entry _ _ _ h =>
    cases h with
    | _ => exact nofun
  | _ => exact nofun

/-! ### What loading fails with -/

/-- The error is a fault of the configuration, or one that a file makes which is reached from the
place, which itself is behind a number of others. -/
def IsLoadError (w : Workspace) (n : Nat) (p : Place) (e : LintError) : Prop :=
  (∃ fault, e = .config fault) ∨ ∃ k q, Reaches w p k q ∧ EscapesAt w (n + k) q e

theorem EscapesAt.isLoadError (h : EscapesAt w n p e) : IsLoadError w n p e :=
  .inr ⟨0, p, .here p, h⟩

theorem isLoadError_config (fault : ConfigFault) : IsLoadError w n p (.config fault) :=
  .inl ⟨fault, rfl⟩

theorem IsLoadError.head {q : Place} (hq : Extends w p q) (h : IsLoadError w (n + 1) q e) :
    IsLoadError w n p e := by
  rcases h with h | ⟨k, r, hr, h⟩
  · exact .inl h
  · rw [Nat.add_assoc, Nat.add_comm 1 k] at h
    exact .inr ⟨k + 1, r, hr.head hq, h⟩

theorem failsWithin_documentOf {bytes : List UInt8} (hfile : w.tree.node? p = some (.file bytes)) :
    (documentOf (w.room.documents - n) p bytes).FailsWithin (IsLoadError w n p) := by
  unfold documentOf
  rcases htext : Files.utf8Text bytes with fault | cs
  · exact Except.failsWithin_error (EscapesAt.undecodable hfile htext).isLoadError
  · dsimp only
    rcases hread : Json.read (w.room.documents - n) cs with (fault | excess) | v
    · exact Except.failsWithin_error (isLoadError_config _)
    · exact Except.failsWithin_error (EscapesAt.excess hfile htext hread).isLoadError
    · cases v with
      | obj fields => exact Except.failsWithin_ok _
      | _ => exact Except.failsWithin_error (isLoadError_config _)

/-- Where what a file extends is loaded with the errors of loading, so is the file. -/
theorem failsWithin_rulesIn {bytes : List UInt8} (hfound : ∃ n, w.node? (pathOf p) = .ok n)
    (hfile : w.tree.node? p = some (.file bytes))
    (ih : ∀ parent : Path, (rulesAt w (chain ++ [p]) parent.segments).FailsWithin
      (IsLoadError w (chain ++ [p]).length parent.segments)) :
    (rulesIn w chain p bytes).FailsWithin (IsLoadError w chain.length p) := by
  refine (Traced.failsWithin_ofExcept (failsWithin_documentOf hfile)).bind
    fun document hdocument => ?_
  obtain ⟨⟨cs, hcs, htext, -⟩, hobject⟩ := documentOf_eq_ok_iff.mp hdocument
  have hholds : Holds w p document := ⟨hfound, ⟨bytes, cs, hfile, hcs, htext⟩, hobject⟩
  refine Traced.FailsWithin.bind (fun e he => ?_) fun entries hentries => ?_
  · obtain ⟨v, hv, rfl, hshape⟩ := parentEntries_eq_error he
    exact (EscapesAt.shape hholds hv hshape).isLoadError
  have hlists := parentEntries_eq_ok_iff.mp hentries
  refine (Traced.failsWithin_foldlM (fun rules entry hentry => ?_) []).bind fun inherited _ => ?_
  · refine Traced.FailsWithin.bind (fun e he => ?_) fun parent hparent => ?_
    · have hmisnames := parentFile_eq_error_iff.mp he
      exact (EscapesAt.entry hholds hlists hentry hmisnames).isLoadError
    · obtain ⟨name, q, rfl, hq, rfl⟩ := parentFile_eq_ok_iff.mp hparent
      have hextends : Extends w p q := ⟨document, entries, name, hholds, hlists, hentry, hq⟩
      refine (Traced.failsWithin_log _ _ _).bind fun _ _ => ?_
      refine Traced.FailsWithin.bind (fun e he => ?_) fun more _ => Traced.failsWithin_pure _
      have herror := ih (pathOf q) e he
      rw [List.length_append] at herror
      exact herror.head hextends
  · rcases hown : ownRules document with fault | own
    · refine Traced.failsWithin_fail ?_
      unfold refusal
      rcases hloose : fault.text.toString? with - | text
      · exact (EscapesAt.explanation hholds hown hloose).isLoadError
      · exact isLoadError_config _
    · exact Traced.failsWithin_pure _

theorem failsWithin_rulesAt (w : Workspace) (chain : List Place) (p : Place) :
    (rulesAt w chain p).FailsWithin (IsLoadError w chain.length p) := by
  induction chain, p using rulesAt.induct w with
  | case1 chain p hfull =>
    rw [rulesAt_of_full hfull]
    exact Traced.failsWithin_fail (EscapesAt.chain hfull).isLoadError
  | case2 chain p hroom hp =>
    rw [rulesAt_of_mem hroom hp]
    exact Traced.failsWithin_fail (isLoadError_config _)
  | case3 chain p hroom hp ih =>
    rw [rulesAt_of_notMem hroom hp]
    refine Traced.FailsWithin.bind (Except.failsWithin_mapError fun fault hfault => ?_)
      fun n hn => ?_
    · exact (EscapesAt.unseen hfault).isLoadError
    · have hfound : ∃ n, w.node? (pathOf p) = .ok n := ⟨n, Except.mapError_eq_ok_iff.mp hn⟩
      rcases hnode : w.tree.node? p with - | ⟨bytes | -⟩
      · exact Traced.failsWithin_fail (isLoadError_config _)
      · exact failsWithin_rulesIn hfound hnode (ih bytes hnode)
      · exact Traced.failsWithin_fail (isLoadError_config _)

/-- **What loading a configuration fails with.**  An error is a fault of the configuration, or it
is due to a path that can name no file, or to one file that is reached through `extends`: to what it
holds, or to how many files lead to it. -/
theorem load_error_cases {file : Path} (h : (load w file).result = .error e) :
    (∃ fault, e = .config fault) ∨
      (Workspace.hasNul file = true ∧ e = .nulInPath) ∨
      ∃ n q, Reaches w (w.resolve file).segments n q ∧ EscapesAt w n q e := by
  unfold load at h
  split at h
  · next hnul => exact .inr (.inl ⟨hnul, (Except.error.inj h).symm⟩)
  · have hload := (failsWithin_rulesAt w [] (w.resolve file).segments).bind
      (fun rules _ => Traced.failsWithin_pure (⟨rules, some file⟩ : LintConfig)) e h
    rcases hload with hfault | ⟨n, q, hq, hescapes⟩
    · exact .inl hfault
    · rw [List.length_nil, Nat.zero_add] at hescapes
      exact .inr (.inr ⟨n, q, hq, hescapes⟩)

/-- A project whose configuration extends another one, and that one a number. -/
def extendingNumber : Workspace where
  tree := (FileTree.empty.writeFile ["p", "tslint.json"]
    "\x7b\"extends\": \"./base.json\"\x7d".toUTF8.toList).writeFile ["p", "base.json"]
      "\x7b\"extends\": 5\x7d".toUTF8.toList
  cwd := []
  environment := []

/-- The number ends the loading of the project's configuration. -/
theorem load_error_cases_extendingNumber : ∃ v,
    (load extendingNumber (Path.ofString "/p/tslint.json")).result = .error (.extendsShape v) ∧
    ∃ n q, Reaches extendingNumber
        (extendingNumber.resolve (Path.ofString "/p/tslint.json")).segments n q ∧
      EscapesAt extendingNumber n q (.extendsShape v) := by
  have hshape : ((load extendingNumber (Path.ofString "/p/tslint.json")).result
      matches .error (.extendsShape _)) = true := by
    decide +kernel
  rcases hload : (load extendingNumber (Path.ofString "/p/tslint.json")).result with e | config
  · rw [hload] at hshape
    cases e with
    | extendsShape v =>
      rcases load_error_cases hload with ⟨fault, h⟩ | ⟨-, h⟩ | h
      · cases h
      · cases h
      · exact ⟨v, rfl, h⟩
    | _ => cases hshape
  · rw [hload] at hshape
    cases hshape

/-- A file of one byte, which starts no character. -/
def undecodableFile : Workspace where
  tree := FileTree.empty.writeFile ["tslint.json"] [0xFF]
  cwd := []
  environment := []

/-- There are files that make another error than a fault of the configuration. -/
theorem not_all_config : ¬ ∀ (w : Workspace) (file : Path) (e : LintError),
    (load w file).result = .error e → ∃ fault, e = .config fault := by
  intro hall
  have hbytes : ((load undecodableFile (Path.ofString "/tslint.json")).result
      matches .error (.undecodable _)) = true := by
    decide +kernel
  rcases hload : (load undecodableFile (Path.ofString "/tslint.json")).result with e | config
  · obtain ⟨fault, rfl⟩ := hall _ _ e hload
    rw [hload] at hbytes
    cases hbytes
  · rw [hload] at hbytes
    cases hbytes

end DeclLint.Config
