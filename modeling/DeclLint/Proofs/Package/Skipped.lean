/-
DeclLint/Proofs/Package/Skipped.lean

When a package is refused for its range.  The first pass of a package starts with
the newer of the declared minimum and the lowest supported release, and stops at the
oldest version folder.  These releases form a range exactly if both are up to that
folder (`isUpTo_later_iff`).  If they do, all passes have ranges, and no pass fails
because of one; if they do not, the package is refused before anything is done, for a
minimum that skips the folder (`lint_refused_iff`).

The refusal speaks of the minimum in either case.  So a package with a folder for
an unsupported release is refused whatever its minimum is, also if that is the release
of the folder itself (`not_refused_only_if_newer`).
-/
import DeclLint.Proofs.Package.Plan
import DeclLint.Proofs.Pass.Fault

namespace DeclLint

namespace Package

open Release (Position lowestSupported)
open LintError (IsBesideRange)

variable {host : Host} {o : PackageOptions} {r low : Release} {v : Position} {vs : List Position}

/-! ### Passes with ranges -/

theorem laterOf_minimum (hmin : o.minimum.release? = .ok r)
    (hlow : Release.later r lowestSupported = .ok low) :
    Release.laterOf o.minimum (.release lowestSupported) = .ok low := by
  refine Except.bind_eq_ok_iff.mpr ⟨r, hmin, ?_⟩
  exact Except.bind_eq_ok_iff.mpr ⟨lowestSupported, rfl, Except.mapError_eq_ok_iff.mpr hlow⟩

/-- Where the lowest release is up to the oldest folder, no pass fails because of its range. -/
theorem failsWithin_lint (hlocal : Release.localDirectory? o.localBuild = none)
    (hnewest : o.onlyNewest = false) (hfolders : HasFolders host.workspace o.directory vs)
    (hlow : Release.laterOf o.minimum (.release lowestSupported) = .ok low)
    (hle : ∀ v ∈ vs.head?, low.IsUpTo v) : (lint host o).FailsWithin IsBesideRange := by
  rw [lint_eq_untilSome hlocal hnewest hfolders hlow hle]
  refine Traced.failsWithin_untilSome fun x hx => ?_
  obtain ⟨p, hp, rfl⟩ := List.mem_map.mp hx
  have hranges := range_spans hfolders.ascending (startsBefore_of_laterOf hlow hle)
  obtain ⟨releases, -, hreleases⟩ := List.mem_map.mp (hranges ▸ List.mem_map_of_mem hp)
  have hrange : Release.rangeOf (passOptions o p.1 p.2).low (passOptions o p.1 p.2).high =
      .ok releases :=
    Except.mapError_eq_ok_iff.mpr hreleases.symm
  show (announcedPass host o _ p).result.FailsWithin IsBesideRange
  rw [result_announcedPass]
  exact Pass.failsWithin_run hrange host

/-! ### The refusal -/

/-- Where it is not, the package is refused before its first pass. -/
theorem lint_eq_skippedFolder (hlocal : Release.localDirectory? o.localBuild = none)
    (hnewest : o.onlyNewest = false) (hfolders : HasFolders host.workspace o.directory (v :: vs))
    (hlow : Release.laterOf o.minimum (.release lowestSupported) = .ok low)
    (hnewer : ¬ low.IsUpTo v) :
    lint host o = Traced.fail (.skippedFolder o.minimum (.shipped v)) := by
  have hlower : lowerEnd o lowestSupported (.shipped v) =
      .error (.skippedFolder o.minimum (.shipped v)) := by
    obtain ⟨fault, hfault⟩ := Release.exists_range_eq_error hnewer
    rw [lowerEnd, hlow]
    simp only [bind, Except.bind, hfault]
  rw [lint, hlocal, hnewest, findVersions_eq hfolders, Traced.ofExcept_ok_bind, bounds_eq,
    Traced.ofExcept_ok_bind]
  show runPasses host o _ ((lowestSupported, .shipped v) :: _) = _
  rw [runPasses, hlower]
  rfl

/-- The package is refused for its range. -/
def IsRefused (host : Host) (o : PackageOptions) : Prop :=
  ∃ e, (lint host o).result = .error e ∧ ¬ e.IsBesideRange

/-- **When a package is refused for its range.**  It is exactly if its declared minimum is newer
than its oldest version folder, or the lowest supported release is; and then before any pass has
been run, with an error that names the minimum and this folder. -/
theorem lint_refused_iff (hlocal : Release.localDirectory? o.localBuild = none)
    (hnewest : o.onlyNewest = false) (hfolders : HasFolders host.workspace o.directory (v :: vs))
    (hmin : o.minimum.release? = .ok r) (hr : r ≠ .localBuild) :
    (IsRefused host o ↔ ¬ r.IsUpTo v ∨ ¬ lowestSupported.IsUpTo v) ∧
      (IsRefused host o →
        lint host o = Traced.fail (.skippedFolder o.minimum (.shipped v))) := by
  obtain ⟨low, hlater⟩ : ∃ low, Release.later r lowestSupported = .ok low :=
    Release.exists_later_shipped hr _
  have hlow := laterOf_minimum hmin hlater
  by_cases hle : low.IsUpTo v
  · have hnot : ¬ IsRefused host o := by
      rintro ⟨e, he, hrange⟩
      exact hrange (failsWithin_lint hlocal hnewest hfolders hlow
        (fun u hu => Option.some.inj hu ▸ hle) e he)
    obtain ⟨hmin, hlowest⟩ := (Release.isUpTo_later_iff hlater).mp hle
    refine ⟨iff_of_false hnot ?_, fun h => absurd h hnot⟩
    rintro (h | h)
    · exact h hmin
    · exact h hlowest
  · have hlint := lint_eq_skippedFolder hlocal hnewest hfolders hlow hle
    have hrefused : IsRefused host o := ⟨_, congrArg Traced.result hlint, id⟩
    refine ⟨iff_of_true hrefused ?_, fun _ => hlint⟩
    rw [← not_and_or, ← Release.isUpTo_later_iff hlater]
    exact hle

/-- A package with a folder for 4.0, a release that is no longer supported. -/
def oldFolder : Workspace where
  tree := FileTree.empty.makeDirs ["p", "ts4.0"]
  cwd := []
  environment := []

/-- The host of its linting. -/
def oldFolderHost : Host := ⟨oldFolder, fun _ => .finished "" "" 0⟩

/-- The options for linting it from 4.0 on. -/
def oldFolderOptions : PackageOptions where
  directory := Path.ofString "/p"
  minimum := .value (.text "4.0")
  onlyNewest := false
  expectOnly := false
  localBuild := none
  format := "stylish"
  program := none

theorem hasFolders_oldFolder : HasFolders oldFolder (Path.ofString "/p") [⟨20, by decide⟩] where
  ascending := by decide
  listed := ⟨["ts4.0"], by decide +kernel, by decide +kernel, by decide +kernel⟩

/-- The package is refused, and it is said that its minimum skips the folder. -/
theorem lint_refused_oldFolder :
    HasFolders oldFolder (Path.ofString "/p") [⟨20, by decide⟩] ∧
      lint oldFolderHost oldFolderOptions =
        Traced.fail (.skippedFolder (.value (.text "4.0")) (.shipped ⟨20, by decide⟩)) := by
  have hlint := @lint_refused_iff oldFolderHost oldFolderOptions (.shipped ⟨20, by decide⟩) _ []
    rfl rfl hasFolders_oldFolder (by rfl) nofun
  exact ⟨hasFolders_oldFolder, hlint.2 (hlint.1.mpr (.inr (by decide)))⟩

/-- A package may be refused though its minimum is not newer than its oldest version folder. -/
theorem not_refused_only_if_newer : ¬ ∀ (host : Host) (o : PackageOptions) (r : Release)
    (v : Position) (vs : List Position), Release.localDirectory? o.localBuild = none →
      o.onlyNewest = false → HasFolders host.workspace o.directory (v :: vs) →
      o.minimum.release? = .ok r → r ≠ .localBuild → (IsRefused host o ↔ ¬ r.IsUpTo v) := by
  intro hall
  have hrefused : IsRefused oldFolderHost oldFolderOptions := by
    have hlint := @lint_eq_skippedFolder oldFolderHost oldFolderOptions lowestSupported _ []
      rfl rfl hasFolders_oldFolder (by rfl) (by decide)
    exact ⟨_, congrArg Traced.result hlint, id⟩
  have hnewer := (hall oldFolderHost oldFolderOptions (.shipped ⟨20, by decide⟩) _ [] rfl rfl
    hasFolders_oldFolder (by rfl) nofun).mp hrefused
  exact hnewer (by decide)

end Package

end DeclLint
