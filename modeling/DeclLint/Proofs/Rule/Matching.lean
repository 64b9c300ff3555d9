/-
DeclLint/Proofs/Rule/Matching.lean

Which diagnostics belong to a file.  A compiler prints the name of a file as it was
given or as it found it, and a project is linted by names of its own; the two are
compared by their normal forms.  The file of a diagnostic is the one that its line
names, seen from the directory that the compiler ran in (`file_of_mem_parse`), so a
diagnostic is taken for one about a file exactly if both names stand for one path, up
to the case of the letter of a drive (`normalForm_canonical`).
-/
import DeclLint.Proofs.Path.NormalForm
import DeclLint.Rule.Expect

namespace DeclLint

namespace Diagnostic

variable {directory : Path} {found : List Diagnostic} {d : Diagnostic}

/-- The diagnostic is about the project, or about the file that one of the lines names. -/
def IsPrintedIn (directory : Path) (ls : List (List Char)) (d : Diagnostic) : Prop :=
  d.file = none ∨ ∃ l ∈ ls, ∃ printed place report,
    classify l = .inFile printed place report ∧ d.file = some (fileName directory printed)

/-- One more line keeps the files of what is found, or names the file of a new diagnostic. -/
theorem file_of_mem_step {l : List Char} (h : d ∈ step directory found l) :
    (∃ d' ∈ found, d.file = d'.file) ∨ IsPrintedIn directory [l] d := by
  unfold step at h
  split at h
  · next printed place report hl =>
    rcases List.mem_cons.mp h with rfl | h
    · exact Or.inr (Or.inr ⟨l, List.mem_cons_self, printed, place, report, hl, rfl⟩)
    · exact Or.inl ⟨d, h, rfl⟩
  · rcases List.mem_cons.mp h with rfl | h
    · exact Or.inr (Or.inl rfl)
    · exact Or.inl ⟨d, h, rfl⟩
  -- a message that is continued stays about its file
  · split at h
    · next d' rest =>
      rcases List.mem_cons.mp h with rfl | h
      · exact Or.inl ⟨d', List.mem_cons_self, rfl⟩
      · exact Or.inl ⟨d, List.mem_cons_of_mem d' h, rfl⟩
    · cases h
  · exact Or.inl ⟨d, h, rfl⟩

theorem file_of_mem_foldl_step {ls : List (List Char)} (h : d ∈ ls.foldl (step directory) found) :
    (∃ d' ∈ found, d.file = d'.file) ∨ IsPrintedIn directory ls d := by
  induction ls generalizing found with
  | nil => exact Or.inl ⟨d, h, rfl⟩
  | cons l ls ih =>
    rcases ih h with ⟨d', hd', hfile⟩ | hnone | ⟨l', hl', hprinted⟩
    · rcases file_of_mem_step hd' with ⟨d'', hd'', hfile'⟩ | hnone | ⟨l', hl', hprinted⟩
      · exact Or.inl ⟨d'', hd'', hfile.trans hfile'⟩
      · exact Or.inr (Or.inl (hfile.trans hnone))
      · obtain rfl := List.mem_singleton.mp hl'
        rw [← hfile] at hprinted
        exact Or.inr (Or.inr ⟨l', List.mem_cons_self, hprinted⟩)
    · exact Or.inr (Or.inl hnone)
    · exact Or.inr (Or.inr ⟨l', List.mem_cons_of_mem l hl', hprinted⟩)

/-- The file of a diagnostic is named in a line of the output. -/
theorem file_of_mem_parse {output : String} (h : d ∈ parse directory output) :
    IsPrintedIn directory (Text.lines output.toList) d := by
  rcases file_of_mem_foldl_step (List.mem_reverse.mp h) with ⟨d', hd', -⟩ | h
  · cases hd'
  · exact h

end Diagnostic

namespace Expect

open DeclLint.Path (Resolves SameUpToDrive normalForm)

/-- **The normal form of a text is a canonical form of the path that it stands for.**  It writes
that path, with the letter of a drive in upper case; it is its own normal form, and that of just the
texts that stand for the same path up to the letter of a drive.  So a diagnostic that a compiler
printed in `directory` is taken for one about a file exactly if the name it was printed with, seen
from there, stands for the same path as that of the file. -/
theorem normalForm_canonical (s : String) :
    ∃ p, Resolves s p ∧ (∀ q, Resolves s q → q = p) ∧
      normalForm s = String.ofList (Path.upperDrive p.toString.toList) ∧
      normalForm (normalForm s) = normalForm s ∧
      (∀ t q, Resolves t q → (normalForm s = normalForm t ↔ SameUpToDrive p q)) ∧
      ∀ (text : String) (directory : Path) (output : String),
        ∀ d ∈ Diagnostic.parse directory output,
          d.file = none ∧ d ∉ diagnosticsIn ⟨s, text⟩ (Diagnostic.parse directory output) ∨
          ∃ l ∈ Text.lines output.toList, ∃ printed place report,
            Diagnostic.classify l = .inFile printed place report ∧
            ∀ q, Resolves (directory.child (String.ofList printed)).toString q →
              (d ∈ diagnosticsIn ⟨s, text⟩ (Diagnostic.parse directory output) ↔
                SameUpToDrive p q) := by
  have hagree : ∀ t q, Resolves t q →
      (normalForm s = normalForm t ↔ SameUpToDrive (Path.resolution s) q) := by
    intro t q hq
    rw [Path.resolves_iff.mp hq]
    exact Path.normalForm_eq_iff
  refine ⟨Path.resolution s, Path.resolves_iff.mpr rfl, fun q => Path.resolves_iff.mp, rfl,
    Path.normalForm_normalForm s, hagree, ?_⟩
  intro text directory output d hd
  have hmem : d ∈ diagnosticsIn ⟨s, text⟩ (Diagnostic.parse directory output) ↔
      d.file = some (normalForm s) := by
    simp [diagnosticsIn, hd]
  rcases Diagnostic.file_of_mem_parse hd with hnone | ⟨l, hl, printed, place, report, hline, hfile⟩
  · refine Or.inl ⟨hnone, fun hin => ?_⟩
    rw [hmem, hnone] at hin
    cases hin
  · refine Or.inr ⟨l, hl, printed, place, report, hline, fun q hq => ?_⟩
    rw [hmem, hfile, Option.some.injEq, eq_comm]
    exact hagree _ q hq

end Expect

end DeclLint
