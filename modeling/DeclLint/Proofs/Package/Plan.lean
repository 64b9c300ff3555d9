/-
DeclLint/Proofs/Package/Plan.lean

The passes of a package.  With version folders for the releases at positions
`vs`, in ascending order, the ranges of the passes are

    spans low [v₁, …, vₙ]  =  [(low, v₁), (successor v₁, v₂), …, (successor vₙ, latest)],

where `low` is the newer of the declared minimum and the lowest supported
release.  As long as `low` is not newer than `v₁`, each of these ranges is one
(`range_spans`), and put together they are the releases from `low` on
(`flatten_tested`): the induction is on the folders, and what it needs of the
head is that `low` is up to it, which `successor v` is for every later folder.

`lint_eq_untilSome` says that linting such a package is running its plan: the
passes over these ranges in this order, until one of them does not end clean.
-/
import DeclLint.Proofs.Package.Folders
import DeclLint.Proofs.Result
import DeclLint.Proofs.Trace

namespace DeclLint.Package

open Release (Position successor onward upTo folderName)

/-! ### The ranges of the passes -/

/-- The ends of the ranges of the passes, from `low` on, with folders for the releases `vs`. -/
def spans (low : Release) : List Position → List (Release × Release)
  | [] => [(low, .latest)]
  | v :: vs => (low, .shipped v) :: spans (successor v) vs

/-- The releases that each of the passes tests with. -/
def tested (low : Release) : List Position → List (List Release)
  | [] => [onward low]
  | v :: vs => upTo low v :: tested (successor v) vs

/-- The lowest release comes before every folder. -/
def StartsBefore (low : Release) (vs : List Position) : Prop :=
  low ≠ .localBuild ∧ ∀ v ∈ vs.head?, low.IsUpTo v

theorem StartsBefore.successor {v : Position} {vs : List Position}
    (h : (v :: vs).Pairwise (· < ·)) : StartsBefore (successor v) vs := by
  constructor
  · unfold Release.successor
    split <;> exact nofun
  · intro u hu
    exact Release.successor_isUpTo (List.rel_of_pairwise_cons h (List.mem_of_head? hu))

theorem length_spans (low : Release) (vs : List Position) :
    (spans low vs).length = vs.length + 1 := by
  induction vs generalizing low with
  | nil => rfl
  | cons v vs ih => rw [spans, List.length_cons, ih, List.length_cons]

/-- Every range of a pass is one, and holds what the pass tests with. -/
theorem range_spans {low : Release} {vs : List Position} (h : vs.Pairwise (· < ·))
    (hlow : StartsBefore low vs) :
    (spans low vs).map (fun p => Release.range p.1 p.2) = (tested low vs).map .ok := by
  induction vs generalizing low with
  | nil => simp [spans, tested, Release.range_latest hlow.1]
  | cons v vs ih =>
    simp only [spans, tested, List.map_cons, Release.range_shipped (hlow.2 v rfl),
      ih h.of_cons (StartsBefore.successor h)]

/-- Put together, the passes test with every release from the lowest one on. -/
theorem flatten_tested {low : Release} {vs : List Position} (h : vs.Pairwise (· < ·))
    (hlow : StartsBefore low vs) : (tested low vs).flatten = onward low := by
  induction vs generalizing low with
  | nil => simp [tested]
  | cons v vs ih =>
    rw [tested, List.flatten_cons, ih h.of_cons (StartsBefore.successor h),
      Release.upTo_append_onward (hlow.2 v rfl)]

/-- The pass of a folder tests with the releases up to its own that come after the folders
before it. -/
theorem mem_tested_iff {low r : Release} {vs : List Position} {v : Position} {rs : List Release}
    {i : Nat} (h : vs.Pairwise (· < ·)) (hlow : StartsBefore low vs) (hv : vs[i]? = some v)
    (hrs : (tested low vs)[i]? = some rs) :
    r ∈ rs ↔ r ∈ onward low ∧ r.IsUpTo v ∧ ∀ u ∈ vs.take i, ¬ r.IsUpTo u := by
  induction vs generalizing low i with
  | nil => cases hv
  | cons u vs ih =>
    cases i with
    | zero =>
      obtain rfl := Option.some.inj hv
      obtain rfl := Option.some.inj hrs
      rw [Release.mem_upTo_iff (hlow.2 u rfl)]
      simp
    -- a later folder starts after the first one, which its releases are therefore not up to
    | succ i =>
      rw [ih h.of_cons (StartsBefore.successor h) hv hrs,
        Release.mem_onward_successor_iff (hlow.2 u rfl), List.take_succ_cons, List.forall_mem_cons]
      constructor
      · rintro ⟨⟨hr, hu⟩, hv, hall⟩
        exact ⟨hr, hv, hu, hall⟩
      · rintro ⟨hr, hv, hu, hall⟩
        exact ⟨⟨hr, hu⟩, hv, hall⟩

/-! ### The plan -/

/-- The passes of a package, in order. -/
def plan (o : PackageOptions) (low : Release) (vs : List Position) : List PassOptions :=
  (spans low vs).map fun p => passOptions o p.1 p.2

theorem map_plan_directory (o : PackageOptions) (low : Release) (vs : List Position) :
    (plan o low vs).map (fun p => (p.directory, p.isLatest)) =
      vs.map (fun v => (o.directory.child (folderName v), false)) ++ [(o.directory, true)] := by
  induction vs generalizing low with
  | nil => rfl
  | cons v vs ih =>
    rw [List.map_cons, List.cons_append, ← ih (successor v)]
    rfl

/-! ### Running it -/

/-- A pass of a package, with what the log says before it. -/
def announcedPass (host : Host) (o : PackageOptions) (announce : Bool) (p : Release × Release) :
    Traced (Option String) := do
  if announce then
    Traced.log .info .passes
      ("Testing from " ++ p.1.name ++ " to " ++ p.2.name ++ " in " ++
        (directoryOf o.directory p.2).toString)
  Pass.run host (passOptions o p.1 p.2)

theorem result_announcedPass (host : Host) (o : PackageOptions) (announce : Bool)
    (p : Release × Release) :
    (announcedPass host o announce p).result = (Pass.run host (passOptions o p.1 p.2)).result := by
  cases announce <;> rfl

variable {host : Host} {o : PackageOptions} {low : Release} {vs : List Position}

theorem lowerEnd_eq {bound high : Release} {rs : List Release}
    (hlow : Release.laterOf o.minimum (.release bound) = .ok low)
    (hrange : Release.range low high = .ok rs) : lowerEnd o bound high = .ok low := by
  refine Except.bind_eq_ok_iff.mpr ⟨low, hlow, ?_⟩
  rw [hrange]
  rfl

theorem runPasses_cons (announce : Bool) {bound high : Release} (ps : List (Release × Release))
    (h : lowerEnd o bound high = .ok low) :
    runPasses host o announce ((bound, high) :: ps) =
      Traced.orNext (announcedPass host o announce (low, high)) (runPasses host o announce ps) := by
  rw [runPasses, h, Traced.ofExcept_ok_bind]
  -- with an announcement, the pass and what is logged before it are one computation
  cases announce with
  | false => exact Traced.bind_eq_orNext _ (fun _ => rfl) rfl
  | true =>
    refine (bind_assoc _ _ _).symm.trans ?_
    exact Traced.bind_eq_orNext _ (fun _ => rfl) rfl

/-- Where the lower ends of ranges are what the passes start with anyway, they are run as they
are. -/
theorem runPasses_eq_untilSome (announce : Bool) (ps : List (Release × Release))
    (h : ∀ p ∈ ps, lowerEnd o p.1 p.2 = .ok p.1) :
    runPasses host o announce ps = Traced.untilSome (ps.map (announcedPass host o announce)) := by
  induction ps with
  | nil => rfl
  | cons p ps ih =>
    obtain ⟨hp, hps⟩ := List.forall_mem_cons.mp h
    rw [runPasses_cons announce ps hp, ih hps]
    rfl

/-- After a folder, the declared minimum no longer matters. -/
theorem lowerEnd_spans_successor {v : Position} (h : (v :: vs).Pairwise (· < ·))
    {r : Release} (hmin : o.minimum.release? = .ok r) (hr : r.IsUpTo v) :
    ∀ p ∈ spans (successor v) vs, lowerEnd o p.1 p.2 = .ok p.1 := by
  -- the minimum is up to the folder before, so its successor is newer
  have hlater : ∀ {u : Position}, r.IsUpTo u →
      Release.laterOf o.minimum (.release (successor u)) = .ok (successor u) := by
    intro u hu
    show (o.minimum.release? >>= fun a => _) = _
    rw [hmin]
    show (Release.later r (successor u)).mapError LintError.invalidRange = _
    rw [Release.later_successor hu]
    rfl
  induction vs generalizing v with
  | nil =>
    intro p hp
    obtain rfl := List.mem_singleton.mp hp
    exact lowerEnd_eq (hlater hr) (Release.range_latest (StartsBefore.successor h).1)
  | cons u vs ih =>
    have hvu : v < u := List.rel_of_pairwise_cons h List.mem_cons_self
    have hru : r.IsUpTo u := by
      obtain ⟨i, rfl, hi⟩ := hr.exists_shipped
      exact Fin.le_trans hi (Fin.le_of_lt hvu)
    intro p hp
    rcases List.mem_cons.mp hp with rfl | hp
    · exact lowerEnd_eq (hlater hr) (Release.range_shipped (Release.successor_isUpTo hvu))
    · exact ih h.of_cons hru p hp

theorem bounds_eq (vs : List Position) :
    bounds (vs.map .shipped) = .ok (spans .lowestSupported vs) := by
  have hnext : (vs.map Release.shipped).mapM
      (fun r => (Release.next r).mapError LintError.invalidRange) = .ok (vs.map successor) := by
    induction vs with
    | nil => rfl
    | cons v vs ih =>
      rw [List.map_cons, List.mapM_cons, ih, Release.next_shipped]
      rfl
  have hzip : ∀ start : Release, (start :: vs.map successor).zip
      (vs.map Release.shipped ++ [Release.latest]) = spans start vs := by
    clear hnext
    induction vs with
    | nil => exact fun _ => rfl
    | cons v vs ih =>
      intro start
      rw [spans, ← ih]
      rfl
  show ((vs.map Release.shipped).mapM
    (fun r => (Release.next r).mapError LintError.invalidRange) >>= fun starts => _) = _
  rw [hnext, ← hzip]
  rfl

theorem exists_minimum {bound : Release}
    (h : Release.laterOf o.minimum (.release bound) = .ok low) :
    ∃ r, o.minimum.release? = .ok r ∧ Release.later r bound = .ok low := by
  obtain ⟨r, hr, h⟩ := Except.bind_eq_ok_iff.mp h
  obtain ⟨second, hsecond, h⟩ := Except.bind_eq_ok_iff.mp h
  obtain rfl := Except.ok.inj hsecond
  exact ⟨r, hr, Except.mapError_eq_ok_iff.mp h⟩

theorem startsBefore_of_laterOf {bound : Release}
    (hlow : Release.laterOf o.minimum (.release bound) = .ok low)
    (hle : ∀ v ∈ vs.head?, low.IsUpTo v) : StartsBefore low vs := by
  obtain ⟨r, -, hr⟩ := exists_minimum hlow
  exact ⟨Release.ne_localBuild_of_later hr, hle⟩

/-- Linting a package is running its passes over the ranges between its folders. -/
theorem lint_eq_untilSome (hlocal : Release.localDirectory? o.localBuild = none)
    (hnewest : o.onlyNewest = false) (hfolders : HasFolders host.workspace o.directory vs)
    (hlow : Release.laterOf o.minimum (.release .lowestSupported) = .ok low)
    (hle : ∀ v ∈ vs.head?, low.IsUpTo v) :
    lint host o =
      Traced.untilSome ((spans low vs).map (announcedPass host o (decide (0 < vs.length)))) := by
  have hlength : decide (1 < (spans .lowestSupported vs).length) = decide (0 < vs.length) := by
    rw [length_spans]
    exact decide_eq_decide.mpr (Nat.succ_lt_succ_iff (a := 0))
  rw [lint, hlocal, hnewest, findVersions_eq hfolders, Traced.ofExcept_ok_bind, bounds_eq,
    Traced.ofExcept_ok_bind, hlength]
  show runPasses host o _ (spans .lowestSupported vs) = _
  -- only the first range is changed by the minimum: it starts at `low` instead
  cases vs with
  | nil =>
    have hlow' := startsBefore_of_laterOf hlow hle
    exact runPasses_cons _ [] (lowerEnd_eq hlow (Release.range_latest hlow'.1))
  | cons v vs =>
    have hv : low.IsUpTo v := hle v rfl
    obtain ⟨r, hmin, hr⟩ := exists_minimum hlow
    rw [spans, runPasses_cons _ _ (lowerEnd_eq hlow (Release.range_shipped hv)),
      runPasses_eq_untilSome _ _ (lowerEnd_spans_successor hfolders.ascending hmin
        (Release.isUpTo_of_later hr hv))]
    rfl

/-! ### What the linting of a package comes to -/

/-- The passes of a package with folders for the releases `vs`, when `low` is the lowest release
to test with, and what running them comes to. -/
structure RunsPasses (host : Host) (o : PackageOptions) (low : Release) (vs : List Position) :
    Prop where
  /-- There is one pass in each folder and a last one in the root. -/
  directories : (plan o low vs).map (fun p => (p.directory, p.isLatest)) =
    vs.map (fun v => (o.directory.child (folderName v), false)) ++ [(o.directory, true)]
  /-- The ranges of the passes hold every release from `low` on once, that of a folder the ones
  after the folders before it. -/
  ranges : ∃ parts : List (List Release),
    (plan o low vs).map (fun p => Release.rangeOf p.low p.high) = parts.map .ok ∧
    Release.rangeOf (.release low) (.release .latest) = .ok parts.flatten ∧
    parts.flatten.Nodup ∧
    ∀ i v part, vs[i]? = some v → parts[i]? = some part →
      ∀ r, r ∈ part ↔ r ∈ parts.flatten ∧ r.IsUpTo v ∧ ∀ u ∈ vs.take i, ¬ r.IsUpTo u
  /-- The first result of a pass that is not clean is that of the package. -/
  result : (lint host o).result =
    (((plan o low vs).map fun p => (Pass.run host p).result).find?
      (!Traced.IsClean ·)).getD (.ok none)
  /-- No pass is run after it. -/
  events : (lint host o).events =
    (Traced.started ((spans low vs).map (announcedPass host o (decide (0 < vs.length))))).flatMap
      Traced.events

/-- **The passes of a package cover its releases**: with folders for shipped releases of which the
oldest is not older than the lowest release to test with, the passes in the folders and the one in
the root, in this order, test with every release from the lowest one on exactly once; linting the
package runs them until the first that does not end clean, and ends as that one does. -/
theorem lint_runsPasses (hlocal : Release.localDirectory? o.localBuild = none)
    (hnewest : o.onlyNewest = false) (hfolders : HasFolders host.workspace o.directory vs)
    (hlow : Release.laterOf o.minimum (.release .lowestSupported) = .ok low)
    (hle : ∀ v ∈ vs.head?, low.IsUpTo v) : RunsPasses host o low vs := by
  have hlint := lint_eq_untilSome hlocal hnewest hfolders hlow hle
  have hstart := startsBefore_of_laterOf hlow hle
  have hflat := flatten_tested hfolders.ascending hstart
  refine ⟨map_plan_directory o low vs, ⟨tested low vs, ?_, ?_, ?_, ?_⟩, ?_, ?_⟩
  -- the ranges of the passes
  · have hrange : ∀ p : Release × Release, Release.rangeOf (.release p.1) (.release p.2)
        = (Release.range p.1 p.2).mapError LintError.invalidRange := fun _ => rfl
    rw [plan, List.map_map]
    calc (spans low vs).map (fun p => Release.rangeOf (.release p.1) (.release p.2))
        = ((spans low vs).map fun p => Release.range p.1 p.2).map
            (Except.mapError LintError.invalidRange) := by rw [List.map_map]; rfl
      _ = ((tested low vs).map Except.ok).map (Except.mapError LintError.invalidRange) := by
          rw [range_spans hfolders.ascending hstart]
      _ = (tested low vs).map .ok := by rw [List.map_map]; rfl
  -- together they are the whole range
  · show (Release.range low .latest).mapError LintError.invalidRange = _
    rw [Release.range_latest hstart.1, hflat]
    rfl
  · rw [hflat]
    exact Release.nodup_onward low
  · intro i v part hv hpart r
    rw [hflat]
    exact mem_tested_iff hfolders.ascending hstart hv hpart
  -- the passes are run until one does not end clean
  · rw [hlint, Traced.result_untilSome, List.map_map, plan, List.map_map]
    simp only [Function.comp_def, result_announcedPass]
  · rw [hlint, Traced.events_untilSome]

/-- A package with folders for 5.6 and 5.0, made in this order, beside a file and a folder that
are named almost like them. -/
def twoFolders : Workspace where
  tree := ((((FileTree.empty.makeDirs ["p", "ts5.6"]).makeDirs ["p", "ts5.0"]).makeDirs
    ["p", "ts5"]).writeFile ["p", "ts5.3"] []).writeFile ["p", "index.d.ts"] []
  cwd := []
  environment := []

/-- The options for linting it from 5.0 on. -/
def twoFoldersOptions : PackageOptions where
  directory := Path.ofString "/p"
  minimum := .value (.text "5.0")
  onlyNewest := false
  expectOnly := true
  localBuild := none
  format := "stylish"
  program := none

/-- The host of the linting, whose compilers find nothing. -/
def twoFoldersHost : Host := ⟨twoFolders, fun _ => .finished "" "" 0⟩

theorem hasFolders_twoFolders :
    HasFolders twoFolders (Path.ofString "/p") [⟨30, by decide⟩, ⟨36, by decide⟩] where
  ascending := by decide
  listed := ⟨["ts5.6", "ts5.0", "ts5", "ts5.3", "index.d.ts"], by decide +kernel,
    by decide +kernel, by decide +kernel⟩

theorem runsPasses_twoFolders :
    HasFolders twoFolders (Path.ofString "/p") [⟨30, by decide⟩, ⟨36, by decide⟩] ∧
    RunsPasses twoFoldersHost twoFoldersOptions (.shipped ⟨30, by decide⟩)
      [⟨30, by decide⟩, ⟨36, by decide⟩] :=
  ⟨hasFolders_twoFolders, lint_runsPasses rfl rfl hasFolders_twoFolders
    (by rfl) (by decide)⟩

end DeclLint.Package
