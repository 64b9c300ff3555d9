/-
DeclLint/Proofs/Report/Groups.lean

The report for people, by files.  Failures are entered one by one into a table
that keeps the order of its keys; what comes out is a stable partition: the files
in the order in which they first come up, each with its own failures in their
order (`byFile_eq_groups`).  So no failure is lost or comes twice
(`groups_perm`), there are as many blocks as files with failures, and an order in
which each file keeps its own gives the same report (`stylish_byGroups`).

The report exists unless a position in it has more digits than can be written
(`writtenStylish_eq`).  Positions are counted from one here, so this can happen
with a number that could still be read (`not_all_stylish`).
-/
import DeclLint.Proofs.Report
import DeclLint.Proofs.Result
import Mathlib.Algebra.Group.Int.Defs
import Mathlib.Algebra.Group.Nat.Defs
import Mathlib.Data.Finset.Card

namespace DeclLint

namespace Table

variable {κ α : Type} [DecidableEq κ] {g : κ → α} {k : κ}

/-! ### Tables of a function -/

theorem get?_map_keys (g : κ → α) (ks : List κ) (k : κ) :
    Table.get? (ks.map fun l => (l, g l)) k = if k ∈ ks then some (g k) else none := by
  induction ks with
  | nil => rfl
  | cons l ks ih =>
    rw [List.map_cons, get?_cons, ih]
    by_cases h : l = k
    · subst h
      simp
    · simp [h, Ne.symm h]

theorem put_map_keys_of_mem {ks : List κ} (hn : ks.Nodup) (hk : k ∈ ks) (g : κ → α) (v : α) :
    Table.put (ks.map fun l => (l, g l)) k v = ks.map fun l => (l, if l = k then v else g l) := by
  induction ks with
  | nil => cases hk
  | cons l ks ih =>
    obtain ⟨hl, hn⟩ := List.nodup_cons.mp hn
    rw [List.map_cons, put, List.map_cons]
    by_cases h : l = k
    · subst h
      rw [if_pos rfl, if_pos rfl]
      -- the other keys keep their values
      refine congrArg (_ :: ·) (List.map_congr_left fun x hx => ?_)
      have hne : x ≠ l := fun e => hl (e ▸ hx)
      rw [if_neg hne]
    · rw [if_neg h, if_neg h, ih hn ((List.mem_cons.mp hk).resolve_left (Ne.symm h))]

end Table

namespace Report

variable {fs gs : List Failure} {f : Failure}

/-! ### Groups -/

/-- The files with failures, in the order in which they first come up. -/
def filesOf (fs : List Failure) : List String :=
  (fs.map (·.file)).eraseDups

/-- The failures in a file, in their order. -/
def failuresIn (file : String) (fs : List Failure) : List Failure :=
  fs.filter fun f => f.file = file

/-- The files with failures, each with its failures. -/
def groups (fs : List Failure) : List (String × List Failure) :=
  (filesOf fs).map fun file => (file, failuresIn file fs)

theorem mem_filesOf {file : String} : file ∈ filesOf fs ↔ ∃ f ∈ fs, f.file = file := by
  rw [filesOf, List.mem_eraseDups, List.mem_map]

theorem nodup_filesOf (fs : List Failure) : (filesOf fs).Nodup :=
  List.nodup_eraseDups _

theorem filesOf_concat (fs : List Failure) (f : Failure) :
    filesOf (fs ++ [f]) =
      if f.file ∈ filesOf fs then filesOf fs else filesOf fs ++ [f.file] := by
  rw [filesOf, List.map_append]
  refine (List.eraseDups_concat _ _).trans ?_
  simp only [filesOf, List.mem_eraseDups]

theorem failuresIn_concat (file : String) (fs : List Failure) (f : Failure) :
    failuresIn file (fs ++ [f]) =
      if f.file = file then failuresIn file fs ++ [f] else failuresIn file fs := by
  unfold failuresIn
  rw [List.filter_append]
  split
  · next h => simp [h]
  · next h => simp [h]

theorem failuresIn_of_notMem {file : String} (h : file ∉ filesOf fs) : failuresIn file fs = [] :=
  List.filter_eq_nil_iff.mpr fun f hf hfile => h (mem_filesOf.mpr ⟨f, hf, by simpa using hfile⟩)

theorem keys_groups (fs : List Failure) : Table.keys (groups fs) = filesOf fs := by
  rw [Table.keys, groups, List.map_map]
  exact List.map_id _

/-- One more failure joins the failures of its file, or opens a group at the end. -/
theorem enter_groups (fs : List Failure) (f : Failure) :
    enter (groups fs) f = groups (fs ++ [f]) := by
  rw [enter, groups, Table.get?_map_keys, groups, filesOf_concat]
  by_cases h : f.file ∈ filesOf fs
  · rw [if_pos h, if_pos h, Table.put_map_keys_of_mem (nodup_filesOf fs) h]
    refine List.map_congr_left fun file _ => ?_
    rw [failuresIn_concat, Option.getD_some]
    by_cases hfile : f.file = file
    · rw [if_pos hfile, if_pos hfile.symm, hfile]
    · rw [if_neg hfile, if_neg (Ne.symm hfile)]
  · have hkeys : f.file ∉ Table.keys (groups fs) := by
      rw [keys_groups]
      exact h
    rw [if_neg h, if_neg h, List.map_append]
    refine (Table.put_of_notMem hkeys _).trans (congrArg₂ (· ++ ·) ?_ ?_)
    · refine List.map_congr_left fun file hfile => ?_
      rw [failuresIn_concat, if_neg fun e : f.file = file => h (e ▸ hfile)]
    · rw [List.map_singleton, failuresIn_concat, if_pos rfl, failuresIn_of_notMem h]
      rfl

/-- **The table of failures by file is a stable partition.** -/
theorem byFile_eq_groups (fs : List Failure) : byFile fs = groups fs := by
  induction fs using List.reverseRecOn with
  | nil => rfl
  | append_singleton fs f ih =>
    rw [← enter_groups, ← ih, byFile, List.foldl_append]
    rfl

theorem flatMap_failuresIn_perm {files : List String} (hn : files.Nodup)
    (hall : ∀ f ∈ fs, f.file ∈ files) :
    (files.flatMap fun file => failuresIn file fs).Perm fs := by
  induction files generalizing fs with
  | nil =>
    obtain rfl := List.eq_nil_iff_forall_not_mem.mpr fun f hf => List.not_mem_nil (hall f hf)
    exact List.Perm.refl _
  | cons file files ih =>
    obtain ⟨hfile, hn⟩ := List.nodup_cons.mp hn
    -- the failures outside the first file have all the other groups
    let others := fs.filter fun f => !decide (f.file = file)
    have hothers : ∀ f ∈ others, f.file ∈ files := by
      intro f hf
      obtain ⟨hf, hne⟩ := List.mem_filter.mp hf
      exact (List.mem_cons.mp (hall f hf)).resolve_left (by simpa using hne)
    have hgroups : (files.flatMap fun l => failuresIn l fs) =
        files.flatMap fun l => failuresIn l others := by
      refine List.flatMap_congr fun l hl => ?_
      rw [failuresIn, failuresIn, List.filter_filter]
      refine List.filter_congr fun f _ => ?_
      by_cases h : f.file = l
      · have hne : l ≠ file := fun e => hfile (e ▸ hl)
        simp [h, hne]
      · simp [h]
    rw [List.flatMap_cons, hgroups]
    exact ((ih hn hothers).append_left _).trans (List.filter_append_perm _ fs)

theorem flatMap_filesOf_perm (fs : List Failure) :
    ((filesOf fs).flatMap fun file => failuresIn file fs).Perm fs :=
  flatMap_failuresIn_perm (nodup_filesOf fs) fun f hf => mem_filesOf.mpr ⟨f, hf, rfl⟩

/-- Each failure is in one group, as often as it is there. -/
theorem groups_perm (fs : List Failure) : ((groups fs).flatMap (·.2)).Perm fs := by
  rw [groups, List.flatMap_map]
  exact flatMap_filesOf_perm fs

/-- The files with failures are counted once each. -/
theorem files_summarize (fs : List Failure) :
    (summarize fs).files = (fs.map (·.file)).toFinset.card := by
  have hsame : (filesOf fs).toFinset = (fs.map (·.file)).toFinset := by
    ext file
    rw [List.mem_toFinset, List.mem_toFinset, filesOf, List.mem_eraseDups]
  rw [← hsame, List.toFinset_card_of_nodup (nodup_filesOf fs)]
  rfl

/-- The same failures in another order, in which every file keeps the order of its own ones and
the files first come up in the same order. -/
structure Interleaved (fs gs : List Failure) : Prop where
  files : filesOf gs = filesOf fs
  failures : ∀ file, failuresIn file gs = failuresIn file fs

theorem Interleaved.groups_eq (h : Interleaved fs gs) : groups gs = groups fs := by
  rw [groups, groups, h.files]
  exact List.map_congr_left fun file _ => by rw [h.failures]

/-! ### Written positions -/

/-- No position of the failure, counted from one, has more digits than can be written. -/
def IsWritable (f : Failure) : Prop :=
  (f.line + 1).natAbs < 10 ^ digitLimit ∧ (f.character + 1).natAbs < 10 ^ digitLimit

instance (f : Failure) : Decidable (IsWritable f) :=
  inferInstanceAs (Decidable (_ ∧ _))

theorem wholeText_eq (n : Int) :
    wholeText n = if n.natAbs < 10 ^ digitLimit then .ok (toString n) else .error .writing := by
  have hlength : digitLimit < (toString n.natAbs).length ↔ ¬ n.natAbs < 10 ^ digitLimit := by
    rw [← Nat.length_repr_le_iff (by decide), Nat.not_le, Nat.toString_eq_repr]
  unfold wholeText
  by_cases h : n.natAbs < 10 ^ digitLimit
  · rw [if_pos h, if_neg fun hl => hlength.mp hl h]
  · rw [if_neg h, if_pos (hlength.mpr h)]

/-- Writing fails for one reason only. -/
theorem writtenStylish_eq (fs : List Failure) :
    writtenStylish fs =
      if ∀ f ∈ fs, IsWritable f then .ok (stylish fs) else .error .writing := by
  rw [writtenStylish, List.forM_eq_forM]
  -- the text is put together behind the check of all positions
  generalize stylish fs = text
  induction fs with
  | nil => rfl
  | cons f fs ih =>
    rw [List.forM_cons, wholeText_eq, wholeText_eq]
    by_cases hline : (f.line + 1).natAbs < 10 ^ digitLimit
    · by_cases hcharacter : (f.character + 1).natAbs < 10 ^ digitLimit
      · have hf : IsWritable f := ⟨hline, hcharacter⟩
        rw [if_pos hline, if_pos hcharacter]
        simp only [List.forall_mem_cons, hf, true_and]
        exact ih
      · have hf : ¬ IsWritable f := fun h => hcharacter h.2
        rw [if_pos hline, if_neg hcharacter]
        simp only [List.forall_mem_cons, hf, false_and]
        rfl
    · have hf : ¬ IsWritable f := fun h => hline h.1
      rw [if_neg hline]
      simp only [List.forall_mem_cons, hf, false_and]
      rfl

/-! ### The report -/

/-- **The report for people consists of one block for each file.**  It exists exactly if every
position in it can be written.  Its blocks stand in the order in which the files first come up, each
with the name of the file and one line for each failure in it; every failure is in one of them, and
there are as many as files with failures; and an order in which every file keeps its own gives the
same report. -/
theorem stylish_byGroups (fs : List Failure) :
    writtenStylish fs = (if ∀ f ∈ fs, IsWritable f then
        .ok ("\n\n".intercalate ((filesOf fs).map fun file =>
          "\n".intercalate (file :: (failuresIn file fs).map entry)))
      else .error .writing) ∧
    ((filesOf fs).flatMap fun file => failuresIn file fs).Perm fs ∧
    (filesOf fs).length = (summarize fs).files ∧
    (summarize fs).files = (fs.map (·.file)).toFinset.card ∧
    ∀ gs, Interleaved fs gs → writtenStylish gs = writtenStylish fs := by
  have hgroups : ∀ gs,
      stylish gs = "\n\n".intercalate ((groups gs).map fun e => block e.1 e.2) := by
    intro gs
    rw [stylish, byFile_eq_groups]
  refine ⟨?_, flatMap_filesOf_perm fs, rfl, files_summarize fs, ?_⟩
  · rw [writtenStylish_eq, hgroups, groups, List.map_map]
    rfl
  · intro gs h
    have hperm : gs.Perm fs := (groups_perm gs).symm.trans (h.groups_eq ▸ groups_perm fs)
    rw [writtenStylish_eq, writtenStylish_eq, hgroups, hgroups, h.groups_eq]
    simp only [hperm.mem_iff]

/-- A failure in a file at the start of a line. -/
def onLine (file : String) (line : Int) : Failure :=
  ⟨file, "r", "error", line, 0, "m"⟩

/-- Whether a failure in another file comes between two others or behind them is all the same. -/
theorem stylish_byGroups_twoFiles :
    Interleaved [onLine "a" 0, onLine "b" 0, onLine "a" 1]
        [onLine "a" 0, onLine "a" 1, onLine "b" 0] ∧
      writtenStylish [onLine "a" 0, onLine "a" 1, onLine "b" 0] =
        .ok "a\nERROR: 1:1  r  m\nERROR: 2:1  r  m\n\nb\nERROR: 1:1  r  m" := by
  have horder : Interleaved [onLine "a" 0, onLine "b" 0, onLine "a" 1]
      [onLine "a" 0, onLine "a" 1, onLine "b" 0] := by
    refine ⟨by decide +kernel, fun file => ?_⟩
    by_cases ha : "a" = file
    · subst ha
      rfl
    · by_cases hb : "b" = file
      · subst hb
        rfl
      · simp [failuresIn, onLine, ha, hb]
  obtain ⟨hwritten, -, -, -, hsame⟩ :=
    stylish_byGroups [onLine "a" 0, onLine "b" 0, onLine "a" 1]
  refine ⟨horder, (hsame _ horder).trans (hwritten.trans ?_)⟩
  rw [if_pos (by decide +kernel)]
  exact congrArg Except.ok (by decide +kernel)

/-- A failure on the last line with a number that can be read: counted from one, it cannot be
written. -/
def farFailure : Failure :=
  onLine "a" (10 ^ digitLimit - 1)

theorem not_isWritable_farFailure : ¬ IsWritable farFailure := by
  intro h
  have hline : ((10 ^ digitLimit - 1 : Int) + 1).natAbs < 10 ^ digitLimit := h.1
  rw [Int.sub_add_cancel, Int.natAbs_pow, show (10 : Int).natAbs = 10 from rfl] at hline
  exact absurd hline (Nat.lt_irrefl _)

/-- Not every list of failures has a report. -/
theorem not_all_stylish : ¬ ∀ fs : List Failure, writtenStylish fs =
    .ok ("\n\n".intercalate ((filesOf fs).map fun file =>
      "\n".intercalate (file :: (failuresIn file fs).map entry))) := by
  intro hall
  have hfar : ¬ ∀ f ∈ [farFailure], IsWritable f :=
    fun h => not_isWritable_farFailure (h _ List.mem_cons_self)
  have hwritten := writtenStylish_eq [farFailure]
  rw [if_neg hfar, hall] at hwritten
  cases hwritten

end Report

end DeclLint
