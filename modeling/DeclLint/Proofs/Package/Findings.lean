/-
DeclLint/Proofs/Package/Findings.lean

What the linting of a package finds.  Whether it has one pass or one for each
version folder and the root, the package is linted pass by pass, where a pass
can also fail before it starts: no folder can be listed, or a folder is older
than the declared minimum (`stages`).  The result is that of the first pass
that does not end clean, written in the format (`result_lint`); for a row of
findings this is said by `Finding.first` as a value, and by `Finding.Stops`
as a place in the row.
-/
import DeclLint.Proofs.Package.Plan
import DeclLint.Proofs.Pass.Finding

namespace DeclLint

namespace Pass.Finding

/-! ### The first finding -/

/-- The pass got through and found nothing. -/
def isClean : Except LintError Finding → Bool
  | .ok .clean => true
  | _ => false

theorem isClean_iff {r : Except LintError Finding} : isClean r = true ↔ r = .ok .clean := by
  constructor
  · intro h
    unfold isClean at h
    split at h
    · rfl
    · cases h
  · rintro rfl
    rfl

/-- What findings one after the other come to: the first that is not clean. -/
def first (rs : List (Except LintError Finding)) : Except LintError Finding :=
  (rs.find? (!isClean ·)).getD (.ok .clean)

/-- The first finding in a row that is not clean is `r`. -/
def Stops (rs : List (Except LintError Finding)) (r : Except LintError Finding) : Prop :=
  r ≠ .ok .clean ∧ ∃ before after, rs = before ++ r :: after ∧ ∀ x ∈ before, x = .ok .clean

theorem first_cons_clean (rs : List (Except LintError Finding)) :
    first (.ok .clean :: rs) = first rs := rfl

theorem first_cons_of_ne {r : Except LintError Finding} (h : r ≠ .ok .clean)
    (rs : List (Except LintError Finding)) : first (r :: rs) = r := by
  have hr : (!isClean r) = true := by
    rw [Bool.not_eq_true', ← Bool.not_eq_true, isClean_iff]
    exact h
  rw [first, List.find?_cons_of_pos (p := (!isClean ·)) hr]
  rfl

theorem stops_iff_find? {rs : List (Except LintError Finding)} {r : Except LintError Finding} :
    Stops rs r ↔ rs.find? (!isClean ·) = some r := by
  rw [List.find?_eq_some_iff_append, Stops]
  simp only [Bool.not_not, isClean_iff, Bool.not_eq_true', ← Bool.not_eq_true, ne_eq]

theorem stops_iff_first {rs : List (Except LintError Finding)} {r : Except LintError Finding} :
    Stops rs r ↔ r ≠ .ok .clean ∧ first rs = r := by
  constructor
  · intro h
    have hfind := stops_iff_find?.mp h
    exact ⟨h.1, by rw [first, hfind]; rfl⟩
  · rintro ⟨hr, rfl⟩
    rw [stops_iff_find?]
    cases hfind : rs.find? (!isClean ·) with
    | none => exact absurd (by rw [first, hfind]; rfl) hr
    | some x => rw [first, hfind]; rfl

theorem first_eq_clean_iff {rs : List (Except LintError Finding)} :
    first rs = .ok .clean ↔ ∀ r ∈ rs, r = .ok .clean := by
  induction rs with
  | nil => exact ⟨fun _ => List.forall_mem_nil _, fun _ => rfl⟩
  | cons r rs ih =>
    rw [List.forall_mem_cons]
    by_cases hr : r = .ok .clean
    · rw [hr, first_cons_clean, ih]
      exact ⟨fun h => ⟨rfl, h⟩, And.right⟩
    · rw [first_cons_of_ne hr]
      exact ⟨fun h => absurd h hr, fun h => absurd h.1 hr⟩

end Pass.Finding

namespace Package

open Pass (Finding formatOf)

/-! ### The passes of a package -/

/-- The passes that linting a package goes through; in the place of one, the error that keeps it
from starting. -/
def stages (host : Host) (o : PackageOptions) : List (Except LintError PassOptions) :=
  if (Release.localDirectory? o.localBuild).isSome then [.ok (singlePass o .localBuild)]
  else if o.onlyNewest then [.ok (singlePass o .latest)]
  else
    match findVersions host.workspace o.directory >>= bounds with
    | .error e => [.error e]
    | .ok ps => ps.map fun p => (lowerEnd o p.1 p.2).map fun low => passOptions o low p.2

/-- What they find. -/
def findings (host : Host) (o : PackageOptions) : List (Except LintError Finding) :=
  (stages host o).map (· >>= Pass.finding host)

theorem findings_withFormat (host : Host) (o : PackageOptions) (format : String) :
    findings host { o with format := format } = findings host o := by
  unfold findings stages
  split
  · rfl
  · split
    · rfl
    · show (match findVersions host.workspace o.directory >>= bounds with
        | .error e => _
        | .ok ps => _ : List _).map _ = _
      rcases findVersions host.workspace o.directory >>= bounds with e | ps
      · rfl
      · rw [List.map_map, List.map_map]
        refine List.map_congr_left fun p _ => ?_
        show (lowerEnd o p.1 p.2).map _ >>= _ = (lowerEnd o p.1 p.2).map _ >>= _
        cases lowerEnd o p.1 p.2 with
        | error e => rfl
        | ok low => exact Pass.finding_withFormat host (passOptions o low p.2) format

/-! ### Its result -/

variable {host : Host} {o : PackageOptions} {format : Report.Format}

theorem result_runPasses (hformat : formatOf o.format = .ok format) (announce : Bool)
    (ps : List (Release × Release)) :
    (runPasses host o announce ps).result =
      Finding.first (ps.map fun p => ((lowerEnd o p.1 p.2).map fun low =>
        passOptions o low p.2) >>= Pass.finding host) >>= Finding.report format := by
  induction ps with
  | nil => rfl
  | cons p ps ih =>
    obtain ⟨bound, high⟩ := p
    rw [List.map_cons]
    cases hlow : lowerEnd o bound high with
    | error e =>
      rw [runPasses, hlow]
      rfl
    | ok low =>
      have hpass : (announcedPass host o announce (low, high)).result =
          Pass.finding host (passOptions o low high) >>= Finding.report format :=
        (result_announcedPass host o announce (low, high)).trans (Pass.result_run hformat)
      rw [runPasses_cons announce ps hlow]
      show _ = Finding.first (Pass.finding host (passOptions o low high) :: _) >>= _
      -- only a clean pass is followed by the next one
      by_cases hclean : Pass.finding host (passOptions o low high) = .ok .clean
      · rw [hclean] at hpass ⊢
        rw [Traced.orNext_clean (by rw [hpass]; rfl), Finding.first_cons_clean]
        exact ih
      · rw [Finding.first_cons_of_ne hclean, ← hpass, Traced.orNext_stop]
        rw [hpass]
        rcases hfinding : Pass.finding host (passOptions o low high) with e | f
        · rfl
        · rw [hfinding] at hclean
          have hf : f ≠ .clean := fun hf => hclean (congrArg Except.ok hf)
          show Traced.IsClean (f.report format) = false
          rcases Finding.report_cases hf format with ⟨text, htext, -⟩ | ⟨e, he⟩
          · rw [htext]
            rfl
          · rw [he]
            rfl

/-- **Linting a package ends as the first of its passes that does not end clean**: with the report
of what that pass found, if it can be written, or with its error. -/
theorem result_lint (hformat : formatOf o.format = .ok format) :
    (lint host o).result = Finding.first (findings host o) >>= Finding.report format := by
  unfold lint findings stages
  have hsingle : ∀ release, (Pass.run host (singlePass o release)).result =
      Finding.first [Pass.finding host (singlePass o release)] >>= Finding.report format := by
    intro release
    rw [Pass.result_run (o := singlePass o release) hformat]
    by_cases hclean : Pass.finding host (singlePass o release) = .ok .clean
    · rw [hclean]
      rfl
    · rw [Finding.first_cons_of_ne hclean]
  split
  · exact hsingle .localBuild
  · split
    · exact hsingle .latest
    · cases hfolders : findVersions host.workspace o.directory with
      | error e => rfl
      | ok folders =>
        show (Traced.ofExcept (bounds folders) >>= _).result =
          Finding.first (List.map _ (match bounds folders with
            | .error e => _
            | .ok ps => _)) >>= _
        cases bounds folders with
        | error e => rfl
        | ok ps =>
          rw [List.map_map]
          exact result_runPasses hformat _ ps

end Package

end DeclLint
