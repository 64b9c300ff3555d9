/-
DeclLint/Proofs/Report.lean

Reports are never empty.  A pass, a package and the exit code all ask whether
there is a report, and take the empty text for none.  That loses nothing: the
report of a banned directive starts with words of its own, and failures make a
non-empty report in every format, even where file names and messages are
empty (`Format.render_ne_empty`).  In the report for people this rests on the
blocks: a file has one only with at least one failure, so that a line break
follows its name.
-/
import DeclLint.Proofs.Result
import DeclLint.Proofs.Table
import DeclLint.Report

namespace DeclLint.Report

/-! ### Banned directives -/

theorem directiveLine_ne_empty (file : String) (line character : Int) (message : String) :
    directiveLine file line character message ≠ "" := by
  intro h
  simp [directiveLine, String.append_assoc] at h

/-! ### Blocks by file -/

/-- Every file of a table has failures. -/
def IsFilled (t : Table String (List Failure)) : Prop :=
  ∀ e ∈ t, e.2 ≠ []

theorem IsFilled.enter {t : Table String (List Failure)} (h : IsFilled t) (f : Failure) :
    IsFilled (enter t f) := by
  intro e he
  rcases Table.mem_put he with rfl | he
  · exact List.append_ne_nil_of_right_ne_nil _ (List.cons_ne_nil f [])
  · exact h e he

theorem isFilled_byFile (fs : List Failure) : IsFilled (byFile fs) := by
  unfold byFile
  refine List.foldlRecOn fs enter ?_ ?_
  · exact List.forall_mem_nil _
  · exact fun t ht f _ => ht.enter f

/-- A file with a failure is in the table. -/
theorem byFile_ne_nil {fs : List Failure} (h : fs ≠ []) : byFile fs ≠ [] := by
  rw [← List.dropLast_concat_getLast h]
  generalize fs.dropLast = fs, fs.getLast h = f
  have hlast : byFile (fs ++ [f]) = enter (byFile fs) f := by
    rw [byFile, List.foldl_append]
    rfl
  intro hnil
  have hget := Table.get?_put_self (byFile fs) f.file (((byFile fs).get? f.file).getD [] ++ [f])
  rw [← enter, ← hlast, hnil] at hget
  cases hget

theorem block_ne_empty (file : String) {fs : List Failure} (h : fs ≠ []) :
    block file fs ≠ "" := by
  obtain ⟨f, fs, rfl⟩ := List.exists_cons_of_ne_nil h
  simp [block]

theorem stylish_ne_empty {fs : List Failure} (h : fs ≠ []) : stylish fs ≠ "" := by
  have hfilled := isFilled_byFile fs
  obtain ⟨e, more, hfiles⟩ := List.exists_cons_of_ne_nil (byFile_ne_nil h)
  rw [hfiles] at hfilled
  have hblock := block_ne_empty e.1 (hfilled e List.mem_cons_self)
  rw [stylish, hfiles]
  cases more with
  | nil => simpa using hblock
  | cons d more => simp [hblock]

/-! ### All formats -/

theorem json_ne_empty (order : List Field) (fs : List Failure) : json order fs ≠ "" := by
  intro h
  simp [json, object, Json.object, Json.indented, Json.indentedText] at h

theorem eq_json_of_writtenJson {order : List Field} {fs : List Failure} {text : String}
    (h : writtenJson order fs = .ok text) : text = json order fs := by
  unfold writtenJson Json.written at h
  split at h
  · exact (Except.ok.inj h).symm
  · cases h

theorem eq_stylish_of_writtenStylish {fs : List Failure} {text : String}
    (h : writtenStylish fs = .ok text) : text = stylish fs := by
  obtain ⟨-, -, htext⟩ := Except.bind_eq_ok_iff.mp h
  exact (Except.ok.inj htext).symm

theorem Format.render_ne_empty {format : Format} {fs : List Failure} {text : String}
    (htext : format.render fs = .ok text) (h : fs ≠ []) : text ≠ "" := by
  cases format with
  | json => exact eq_json_of_writtenJson htext ▸ json_ne_empty _ _
  | stylish => exact eq_stylish_of_writtenStylish htext ▸ stylish_ne_empty h

/-- That there are no failures can be written. -/
theorem Format.exists_render_nil (format : Format) : ∃ text, format.render [] = .ok text := by
  cases format with
  | json => exact ⟨_, rfl⟩
  | stylish => exact ⟨_, rfl⟩

theorem exitCode_some {report : String} (h : report ≠ "") : exitCode (some report) = 1 := by
  unfold exitCode
  split
  · contradiction
  · next heq => exact absurd (Option.some.inj heq) h
  · rfl

end DeclLint.Report
