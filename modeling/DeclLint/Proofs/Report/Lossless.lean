/-
DeclLint/Proofs/Report/Lossless.lean

The report as JSON loses nothing.  Its text is ASCII, and reading it gives the failures in
their order, each with its fields, and the summary (`json_lossless`).  There is such a text
exactly if no integer in the report has too many digits to be written (`isWritable_object`);
one with a place beyond the limit has none (`not_all_json`).  What is written can be read
back, since no object in it names a key twice and the reader takes integers of as many
digits (`exact_object`).  That a failure is known from its object does not depend on the
order of the fields (`failureOf?_failureObject`).
-/
import DeclLint.Proofs.Json.RoundTrip
import DeclLint.Proofs.Report.Groups

namespace DeclLint

namespace Json

variable {limit : Option Nat} {depth : Nat}

theorem keys_object (fields : List (String × Json)) :
    Table.keys (fields.map fun e => (LooseText.ofString e.1, e.2)) =
      (fields.map (·.1)).map LooseText.ofString := by
  rw [Table.keys, List.map_map, List.map_map]
  rfl

/-- An object with strings as keys, none of which comes twice. -/
theorem exact_object {fields : List (String × Json)} (hkeys : (fields.map (·.1)).Nodup)
    (h : ∀ e ∈ fields, Exact limit depth e.2) : Exact limit (depth + 1) (object fields) := by
  refine .obj ?_ ?_ ?_
  · rw [keys_object]
    exact hkeys.map fun _ _ => LooseText.ofString_injective
  · rw [keys_object]
    intro k hk
    obtain ⟨t, -, rfl⟩ := List.mem_map.mp hk
    exact ⟨t, rfl⟩
  · intro e he
    obtain ⟨d, hd, rfl⟩ := List.mem_map.mp he
    exact h d hd

theorem exact_text (t : String) : Exact limit depth (text t) :=
  .str depth t

/-- The integer that a value is. -/
def int? : Json → Option Int
  | .int n => some n
  | _ => none

/-! ### Integers that can be written -/

theorem isWithin_some_iff {n : Int} :
    IsWithin (some digitLimit) n ↔ n.natAbs < 10 ^ digitLimit := by
  have hlength : (Nat.toDigits 10 n.natAbs).length = n.natAbs.repr.length := by
    rw [← Nat.toList_repr, String.length_toList]
  rw [← Nat.length_repr_le_iff (by decide), ← hlength]
  simp [IsWithin]

theorem isWritable_text (t : String) : isWritable (text t) = true := rfl

theorem isWritable_int_iff {n : Int} :
    isWritable (.int n) = true ↔ IsWithin (some digitLimit) n := by
  rw [isWithin_some_iff, isWritable, Report.wholeText_eq]
  by_cases h : n.natAbs < 10 ^ digitLimit
  · simp [h, Except.isOk, Except.toBool]
  · simp [h, Except.isOk, Except.toBool]

theorem isWritable_arr_iff {items : List Json} :
    isWritable (.arr items) = true ↔ ∀ v ∈ items, isWritable v = true := by
  rw [isWritable]
  induction items with
  | nil => simp [areWritable]
  | cons v vs ih => rw [areWritable, Bool.and_eq_true, ih, List.forall_mem_cons]

theorem isWritable_object_iff {fields : List (String × Json)} :
    isWritable (object fields) = true ↔ ∀ e ∈ fields, isWritable e.2 = true := by
  rw [object, isWritable]
  induction fields with
  | nil => simp [areWritableFields]
  | cons e fields ih =>
    rw [List.map_cons, areWritableFields, Bool.and_eq_true, ih, List.forall_mem_cons]

end Json

namespace Report

open Json (Exact IsWithin)

variable {order : List Field} {fs : List Failure} {limit : Option Nat} {depth : Nat}

/-! ### Failures and their objects -/

theorem Field.key_injective {a b : Field} (h : a.key = b.key) : a = b := by
  have hall : ∀ a ∈ standard, ∀ b ∈ standard, a.key = b.key → a = b := by decide +kernel
  exact hall a (by cases a <;> decide) b (by cases b <;> decide) h

theorem Field.mem_standard (field : Field) : field ∈ standard := by
  cases field <;> decide

/-- The failure that an object describes, whatever the order of its fields. -/
def failureOf? (v : Json) : Option Failure := do
  return {
    file := ← (← v.field? "file").str?
    rule := ← (← v.field? "rule").str?
    severity := ← (← v.field? "severity").str?
    line := ← (← v.field? "line").int?
    character := ← (← v.field? "character").int?
    message := ← (← v.field? "message").str? }

theorem nodup_keys_of_perm (h : order.Perm Field.standard) (f : Failure) :
    ((order.map fun field => (field.key, field.value f)).map (·.1)).Nodup := by
  have hnodup : order.Nodup := h.nodup_iff.mpr (by decide)
  rw [List.map_map]
  exact hnodup.map fun _ _ => Field.key_injective

theorem field?_failureObject (h : order.Perm Field.standard) (f : Failure) (field : Field) :
    (failureObject order f).field? field.key = some (field.value f) := by
  refine (Table.get?_eq_some_iff_mem ?_).mpr ?_
  · rw [Json.keys_object]
    exact (nodup_keys_of_perm h f).map fun _ _ => LooseText.ofString_injective
  · refine List.mem_map_of_mem (a := (field.key, field.value f)) ?_
    exact List.mem_map_of_mem (h.mem_iff.mpr field.mem_standard)

theorem failureOf?_failureObject (h : order.Perm Field.standard) (f : Failure) :
    failureOf? (failureObject order f) = some f := by
  have hfield := field?_failureObject h f
  have hfile := hfield .file
  have hrule := hfield .rule
  have hseverity := hfield .severity
  have hline := hfield .line
  have hcharacter := hfield .character
  have hmessage := hfield .message
  simp only [Field.key, Field.value] at hfile hrule hseverity hline hcharacter hmessage
  simp [failureOf?, hfile, hrule, hseverity, hline, hcharacter, hmessage, Json.int?]

theorem mapM_failureOf? (h : order.Perm Field.standard) (fs : List Failure) :
    (fs.map (failureObject order)).mapM failureOf? = some fs := by
  induction fs with
  | nil => rfl
  | cons f fs ih =>
    rw [List.map_cons, List.mapM_cons, failureOf?_failureObject h, ih]
    rfl

/-! ### The report -/

/-- The integers in a report: the places of the failures, and the numbers of the summary. -/
def integers (fs : List Failure) : List Int :=
  let s := summarize fs
  fs.flatMap (fun f => [f.line, f.character]) ++ [(s.total : Int), s.errors, s.warnings, s.files]

theorem exact_failureObject (horder : order.Perm Field.standard) {f : Failure}
    (hline : IsWithin limit f.line) (hcharacter : IsWithin limit f.character) :
    Exact limit (depth + 1) (failureObject order f) := by
  refine Json.exact_object (nodup_keys_of_perm horder f) fun e he => ?_
  obtain ⟨field, -, rfl⟩ := List.mem_map.mp he
  cases field with
  | file => exact Json.exact_text f.file
  | rule => exact Json.exact_text f.rule
  | severity => exact Json.exact_text f.severity
  | line => exact .int depth hline
  | character => exact .int depth hcharacter
  | message => exact Json.exact_text f.message

theorem exact_summaryObject {s : Summary}
    (h : ∀ n ∈ [(s.total : Int), s.errors, s.warnings, s.files], IsWithin limit n) :
    Exact limit (depth + 1) (summaryObject s) := by
  have hkeys : ["total_failures", "errors", "warnings", "files_with_failures"].Nodup := by decide
  refine Json.exact_object hkeys ?_
  simp only [List.forall_mem_cons, List.not_mem_nil, false_implies, implies_true,
    and_true] at h ⊢
  obtain ⟨htotal, herrors, hwarnings, hfiles⟩ := h
  exact ⟨.int depth htotal, .int depth herrors, .int depth hwarnings, .int depth hfiles⟩

/-- A report can be read back, if the limit on digits allows its integers. -/
theorem exact_object (horder : order.Perm Field.standard)
    (h : ∀ n ∈ integers fs, IsWithin limit n) : Exact limit (depth + 3) (object order fs) := by
  obtain ⟨hplaces, hsummary⟩ := List.forall_mem_append.mp h
  refine Json.exact_object (show ["failures", "summary"].Nodup by decide) ?_
  simp only [List.forall_mem_cons, List.not_mem_nil, false_implies, implies_true, and_true]
  refine ⟨.arr fun v hv => ?_, exact_summaryObject hsummary⟩
  obtain ⟨f, hf, rfl⟩ := List.mem_map.mp hv
  have hplace : ∀ n ∈ [f.line, f.character], IsWithin limit n := fun n hn =>
    hplaces n (List.mem_flatMap.mpr ⟨f, hf, hn⟩)
  exact exact_failureObject horder (hplace _ (by simp)) (hplace _ (by simp))

/-- A report can be written exactly if its integers can. -/
theorem isWritable_object (horder : order.Perm Field.standard) (fs : List Failure) :
    Json.isWritable (object order fs) = true ↔
      ∀ n ∈ integers fs, IsWithin (some digitLimit) n := by
  have hfailure : ∀ f : Failure, Json.isWritable (failureObject order f) = true ↔
      ∀ n ∈ [f.line, f.character], IsWithin (some digitLimit) n := by
    intro f
    have hall : Json.isWritable (failureObject order f) = true ↔
        ∀ field ∈ Field.standard, Json.isWritable (field.value f) = true := by
      simp only [failureObject, Json.isWritable_object_iff, List.forall_mem_map, horder.mem_iff]
    rw [hall]
    simp [Field.standard, Field.value, Json.isWritable_text, Json.isWritable_int_iff]
  simp only [object, Json.isWritable_object_iff, List.forall_mem_cons, List.not_mem_nil,
    false_implies, implies_true, and_true, Json.isWritable_arr_iff, List.forall_mem_map, hfailure,
    summaryObject, Json.isWritable_int_iff, integers, List.forall_mem_append,
    List.forall_mem_flatMap]

/-- What a text keeps of the failures that it reports. -/
structure IsLossless (order : List Field) (fs : List Failure) (text : String) : Prop where
  ascii : Json.IsAscii text.toList
  /-- A reader that takes as long numerals as the writer, or all, reads an object with the failures
  in their order and a summary that counts them. -/
  reads : ∀ limit : Option Nat, (∀ l ∈ limit, digitLimit ≤ l) → ∀ depth, 3 ≤ depth →
    Json.readWithin limit depth text.toList = .ok (Json.object [
      ("failures", .arr (fs.map (failureObject order))),
      ("summary", Json.object [
        ("total_failures", .int fs.length),
        ("errors", .int (fs.countP fun f => f.severity = "error")),
        ("warnings", .int (fs.countP fun f => f.severity = "warning")),
        ("files_with_failures", .int (fs.map (·.file)).toFinset.card)])])
  /-- The failures are known from these objects with all their fields. -/
  failures : (fs.map (failureObject order)).mapM failureOf? = some fs

theorem isLossless_json (horder : order.Perm Field.standard)
    (h : ∀ n ∈ integers fs, IsWithin (some digitLimit) n) :
    IsLossless order fs (json order fs) where
  ascii := by
    have hexact : Exact (some digitLimit) (0 + 3) (object order fs) := exact_object horder h
    rw [json, Json.indented, String.toList_ofList]
    exact hexact.isAscii 0
  reads limit hlimit depth hdepth := by
    obtain ⟨depth, rfl⟩ := Nat.exists_eq_add_of_le' hdepth
    have hwithin : ∀ n ∈ integers fs, IsWithin limit n := fun n hn l hl =>
      Nat.le_trans (h n hn digitLimit rfl) (hlimit l hl)
    have hexact : Exact limit (depth + 3) (object order fs) := exact_object horder hwithin
    rw [json, Json.indented, String.toList_ofList, hexact.readWithin, ← files_summarize]
    rfl
  failures := mapM_failureOf? horder fs

/-- **The report as JSON loses nothing.**  If no integer in it has too many digits to be written,
there is a text, in ASCII, that is read as an object with the failures in their order, from which
these are known with all their fields, and a summary that counts them; otherwise there is none. -/
theorem json_lossless (horder : order.Perm Field.standard) (fs : List Failure) :
    ((∀ n ∈ integers fs, IsWithin (some digitLimit) n) →
      ∃ text, writtenJson order fs = .ok text ∧ IsLossless order fs text) ∧
    ((∃ n ∈ integers fs, ¬ IsWithin (some digitLimit) n) →
      writtenJson order fs = .error .writing) := by
  constructor
  · intro h
    refine ⟨json order fs, ?_, isLossless_json horder h⟩
    rw [writtenJson, Json.written, if_pos ((isWritable_object horder fs).mpr h)]
    rfl
  · rintro ⟨n, hn, hlong⟩
    have hnot : ¬ Json.isWritable (object order fs) = true := fun h =>
      hlong ((isWritable_object horder fs).mp h n hn)
    rw [writtenJson, Json.written, if_neg hnot]

/-- A failure with quotation marks, a backslash, a line break and characters that are not ASCII,
one of them beyond the basic plane. -/
def oddFailure : Failure :=
  ⟨"a\\b.d.ts", "r", "error", -1, 12, "\"é\"\n😀"⟩

theorem json_lossless_oddFailure :
    Field.standard.reverse.Perm Field.standard ∧
      (∀ n ∈ integers [oddFailure], IsWithin (some digitLimit) n) ∧
      ∃ text, writtenJson Field.standard.reverse [oddFailure] = .ok text ∧
        IsLossless Field.standard.reverse [oddFailure] text := by
  have horder : Field.standard.reverse.Perm Field.standard := List.reverse_perm _
  have hshort : ∀ n ∈ integers [oddFailure], IsWithin (some digitLimit) n := by
    simp only [Json.isWithin_some_iff]
    decide +kernel
  exact ⟨horder, hshort, (json_lossless horder [oddFailure]).1 hshort⟩

/-- A failure on a line with a number that cannot be written. -/
def endlessFailure : Failure :=
  onLine "a" (10 ^ digitLimit)

/-- Not every list of failures has a report as JSON. -/
theorem not_all_json : ¬ ∀ fs : List Failure, ∃ text,
    writtenJson Field.standard fs = .ok text ∧ IsLossless Field.standard fs text := by
  intro hall
  obtain ⟨text, htext, -⟩ := hall [endlessFailure]
  have hlong : ¬ IsWithin (some digitLimit) endlessFailure.line := by
    rw [Json.isWithin_some_iff, endlessFailure, onLine, Int.natAbs_pow,
      show (10 : Int).natAbs = 10 from rfl]
    exact Nat.lt_irrefl _
  have hmem : endlessFailure.line ∈ integers [endlessFailure] := by simp [integers]
  have herror := (isWritable_object (.refl _) [endlessFailure]).not.mpr
    fun h => hlong (h _ hmem)
  rw [writtenJson, Json.written, if_neg herror] at htext
  cases htext

end Report

end DeclLint
