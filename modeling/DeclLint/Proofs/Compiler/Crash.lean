/-
DeclLint/Proofs/Compiler/Crash.lean

When a compiler has crashed.  A compiler that ends with a failing exit code has to
say why: without a diagnostic in its output it crashed, and that is an error.  Two
functions look for diagnostics in an output, one that reads them and one that only
asks whether there are any.  They agree, since each line adds a diagnostic exactly if
it starts one, whatever lines came before (`length_step`): an output has as many
diagnostics as such lines (`length_parse`).

What is not refused as a crash is therefore never taken for a clean run.  The one
thing that can still happen is that a number in it has too many digits to be read
(`HasFindings`).
-/
import DeclLint.Proofs.Compiler.RoundTrip
import DeclLint.Proofs.Rule.Session

namespace DeclLint

/-! ### Outputs with diagnostics -/

namespace Diagnostic

/-- One more line adds a diagnostic exactly if it starts one. -/
theorem length_step (directory : Path) (found : List Diagnostic) (cs : List Char) :
    (step directory found cs).length =
      found.length + if startsDiagnostic cs = true then 1 else 0 := by
  unfold step startsDiagnostic
  cases classify cs with
  | inFile file place report => rfl
  | inProject report => rfl
  | continuation text =>
    cases found with
    | nil => rfl
    | cons d rest => rfl
  | other => rfl

theorem length_foldl_step (directory : Path) (ls : List (List Char)) (found : List Diagnostic) :
    (ls.foldl (step directory) found).length = found.length + ls.countP startsDiagnostic := by
  induction ls generalizing found with
  | nil => rfl
  | cons l ls ih =>
    rw [List.foldl_cons, ih, length_step, List.countP_cons, Nat.add_assoc,
      Nat.add_comm (ls.countP startsDiagnostic)]

/-- **An output has as many diagnostics as lines that start one**, wherever the compiler ran. -/
theorem length_parse (directory : Path) (output : String) :
    (parse directory output).length = (Text.lines output.toList).countP startsDiagnostic := by
  rw [parse, List.length_reverse, length_foldl_step, List.length_nil, Nat.zero_add]

theorem parse_ne_nil_iff (directory : Path) (output : String) :
    parse directory output ≠ [] ↔ occursIn output = true := by
  rw [← List.length_pos_iff, length_parse, List.countP_pos_iff, occursIn, List.any_eq_true]

/-- A number that cannot be read stands in a line that starts a diagnostic. -/
theorem startsDiagnostic_of_lineExcess? {cs : List Char} {e : Excess}
    (h : lineExcess? cs = some e) : startsDiagnostic cs = true := by
  unfold lineExcess? at h
  unfold startsDiagnostic
  split at h
  · next hline => rw [hline]
  · cases h

/-- There are diagnostics in the output of a compiler that ran in the directory, or else a number
of one of them has too many digits to be read. -/
def HasFindings (directory : Path) (output : String) : Prop :=
  (∃ d ds, read directory output = .ok (d :: ds)) ∨
    ∃ n, digitLimit < n ∧ read directory output = .error (.digits n)

theorem hasFindings_iff (directory : Path) (output : String) :
    HasFindings directory output ↔ occursIn output = true := by
  unfold HasFindings read
  cases hexcess : (Text.lines output.toList).findSome? lineExcess? with
  | none =>
    rw [← parse_ne_nil_iff directory]
    constructor
    · rintro (⟨d, ds, h⟩ | ⟨n, -, h⟩)
      · rw [Except.ok.inj h]
        exact List.cons_ne_nil d ds
      · cases h
    · intro hne
      obtain ⟨d, ds, h⟩ := List.exists_cons_of_ne_nil hne
      exact Or.inl ⟨d, ds, congrArg Except.ok h⟩
  | some e =>
    obtain ⟨l, hl, hle⟩ := List.exists_of_findSome?_eq_some hexcess
    obtain ⟨n, hn, rfl⟩ := exists_of_lineExcess? hle
    have hoccurs : occursIn output = true :=
      List.any_eq_true.mpr ⟨l, hl, startsDiagnostic_of_lineExcess? hle⟩
    exact iff_of_true (Or.inr ⟨n, hn, rfl⟩) hoccurs

end Diagnostic

/-! ### Compilers that have finished -/

namespace Compiler

open Diagnostic (HasFindings)

variable {w : Workspace} {compiler : Compiler} {install : String} {project : Path}
  {stdout stderr : String} {code : Int}

theorem outputOf_finished (script : Path) (stdout stderr : String) (code : Int) :
    outputOf script (.finished stdout stderr code) =
      if code = 0 ∨ Diagnostic.occursIn stdout = true then .ok stdout
      else .error (.compiler (.crashed script code (crashDetail stdout stderr))) := by
  have hcrash : code ≠ 0 ∧ Diagnostic.occursIn stdout = false ↔
      ¬ (code = 0 ∨ Diagnostic.occursIn stdout = true) := by
    rw [not_or, Bool.not_eq_true]
  show (if code ≠ 0 ∧ Diagnostic.occursIn stdout = false then _ else _) = _
  rw [if_congr hcrash rfl rfl, ite_not]

/-- What the rule works with is what the compiler says, whether it is run or remembered. -/
theorem result_diagnosticsOf {m : Expect.Memo} (hm : m.Valid w compiler) (v : VersionToTest) :
    ((Expect.diagnosticsOf w compiler project v).run m).1.result =
      Expect.compiled w compiler project v.path := by
  cases hkey : m.diagnostics.get? (Expect.keyOf project v) with
  | none => rw [Expect.run_diagnosticsOf_of_none hkey]
  | some ds =>
    rw [Expect.run_diagnosticsOf_of_some hkey]
    exact (hm.sound _ ds hkey).symm

/-- **A compiler that crashed is never a clean run.**  If its script is there and it finishes, its
output is given as it is exactly if it succeeded or its output has diagnostics, seen from any
directory; otherwise it is an error.  So what it says after a failure is never nothing. -/
theorem check_of_finished (hthere : w.isFile (scriptPath install) = .ok true)
    (hfinished : compiler ⟨scriptPath install, project⟩ = .finished stdout stderr code) :
    ((compiler.check w install project).result = .ok stdout ↔
      code = 0 ∨ ∀ directory, HasFindings directory stdout) ∧
    (¬ (code = 0 ∨ ∀ directory, HasFindings directory stdout) →
      (compiler.check w install project).result =
        .error (.compiler (.crashed (scriptPath install) code (crashDetail stdout stderr)))) ∧
    (code ≠ 0 → ∀ (m : Expect.Memo) (v : VersionToTest), m.Valid w compiler → v.path = install →
      ∀ ds, ((Expect.diagnosticsOf w compiler project v).run m).1.result = .ok ds → ds ≠ []) := by
  have hresult : (compiler.check w install project).result =
      if code = 0 ∨ Diagnostic.occursIn stdout = true then .ok stdout
      else .error (.compiler (.crashed (scriptPath install) code (crashDetail stdout stderr))) := by
    rw [Expect.compilerCheck_of_there hthere, ← outputOf_finished]
    exact congrArg (outputOf _) hfinished
  have hfindings : (∀ directory, HasFindings directory stdout) ↔
      Diagnostic.occursIn stdout = true := by
    simp only [Diagnostic.hasFindings_iff, forall_const]
  rw [hfindings, hresult]
  refine ⟨?_, fun h => if_neg h, ?_⟩
  · constructor
    · intro h
      by_contra hcrash
      rw [if_neg hcrash] at h
      cases h
    · exact fun h => if_pos h
  · rintro hcode m v hm rfl ds hds
    rw [result_diagnosticsOf hm] at hds
    obtain ⟨-, output, houtput, hread⟩ := Expect.compiled_eq_ok_iff.mp hds
    -- an output that is given after a failure is one with diagnostics
    have hgiven : outputOf (scriptPath v.path) (.finished stdout stderr code) = .ok output :=
      hfinished ▸ houtput
    rw [outputOf_finished] at hgiven
    split at hgiven
    · next hoccurs =>
      obtain rfl := Except.ok.inj hgiven
      have hfound := (Diagnostic.hasFindings_iff project.parent stdout).mpr
        (hoccurs.resolve_left hcode)
      rcases hfound with ⟨d, ds', hok⟩ | ⟨n, -, herror⟩
      · rw [Except.ok.inj (hread.symm.trans hok)]
        exact List.cons_ne_nil d ds'
      · cases hread.symm.trans herror
    · cases hgiven

/-- A compiler that found an error in the project and one in a file has not crashed. -/
theorem check_of_finished_twoErrors :
    Expect.twoInstalls.isFile (scriptPath "/i/5.5") = .ok true ∧
    Expect.twoCompilers ⟨scriptPath "/i/5.5", .ofString "/p/tsconfig.json"⟩ =
      .finished "error TS5055: g\na.ts(1,1): error TS2304: m\n" "" 2 ∧
    (Expect.twoCompilers.check Expect.twoInstalls "/i/5.5" (.ofString "/p/tsconfig.json")).result =
      .ok "error TS5055: g\na.ts(1,1): error TS2304: m\n" ∧
    ∀ (m : Expect.Memo) (v : VersionToTest), m.Valid Expect.twoInstalls Expect.twoCompilers →
      v.path = "/i/5.5" → ∀ ds, ((Expect.diagnosticsOf Expect.twoInstalls Expect.twoCompilers
        (.ofString "/p/tsconfig.json") v).run m).1.result = .ok ds → ds ≠ [] := by
  have hthere : Expect.twoInstalls.isFile (scriptPath "/i/5.5") = .ok true := by decide +kernel
  have hfinished : Expect.twoCompilers ⟨scriptPath "/i/5.5", .ofString "/p/tsconfig.json"⟩ =
      .finished "error TS5055: g\na.ts(1,1): error TS2304: m\n" "" 2 := if_pos rfl
  have hfound : ∀ directory,
      HasFindings directory "error TS5055: g\na.ts(1,1): error TS2304: m\n" :=
    fun _ => (Diagnostic.hasFindings_iff _ _).mpr (by decide +kernel)
  obtain ⟨hgiven, -, hnever⟩ := check_of_finished hthere hfinished
  exact ⟨hthere, hfinished, hgiven.mpr (Or.inr hfound), hnever (by decide)⟩

-- lines that continue nothing are no diagnostics
example : (outputOf (scriptPath "/i/5.5") (.finished "Error: heap\n  at f\n" "" 1)).toOption =
    none := by
  decide +kernel

/-- After a failure, an output is given although no diagnostics can be read from it, where a number
in it has too many digits. -/
theorem not_all_read : ¬ ∀ (w : Workspace) (compiler : Compiler) (install : String)
    (project : Path) (stdout stderr : String) (code : Int),
    w.isFile (scriptPath install) = .ok true →
    compiler ⟨scriptPath install, project⟩ = .finished stdout stderr code →
    ((compiler.check w install project).result = .ok stdout ↔
      code = 0 ∨ ∀ directory, ∃ d ds, Diagnostic.read directory stdout = .ok (d :: ds)) := by
  intro hall
  have hthere : Expect.twoInstalls.isFile (scriptPath "/i/5.6") = .ok true := by decide +kernel
  have hgiven := (hall Expect.twoInstalls (Expect.printing Expect.overlong) "/i/5.6"
    (.ofString "/p/tsconfig.json") _ "" 2 hthere rfl).mp
    (Expect.result_check_printing Expect.isPlain_overlong hthere _)
  obtain ⟨output, excess, houtput, hread⟩ := Expect.unreadable_overlong
  obtain rfl := Except.ok.inj (houtput.symm.trans Expect.result_check_overlong)
  obtain ⟨d, ds, hds⟩ := hgiven.resolve_left (by decide) Expect.singleUse.project.parent
  cases hread.symm.trans hds

end Compiler

end DeclLint
