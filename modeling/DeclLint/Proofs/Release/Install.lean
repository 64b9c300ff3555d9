/-
DeclLint/Proofs/Release/Install.lean

The compilers of a range.  Every release that is not built locally has a
directory of its own below the installs directory, and the script of a compiler
is in a fixed place there; so the scripts for the releases of a range are all
different (`nodup_scripts`), also where the installs directory and the releases
are whatever the surroundings and a caller say.
-/
import DeclLint.Compiler.Start
import DeclLint.Config.Active
import DeclLint.Proofs.Path.RoundTrip
import DeclLint.Proofs.Release.Order
import DeclLint.Proofs.Result

namespace DeclLint.Release

/-! ### The releases of a range -/

theorem range_eq_ok {low high : Release} {rs : List Release} (h : range low high = .ok rs) :
    rs = [localBuild] ∨ localBuild ∉ rs ∧ rs.Nodup := by
  have hlatest : ∀ r, localBuild ∉ onward r := by
    intro r hr
    cases r with
    | shipped i =>
      rcases mem_onward_shipped.mp hr with ⟨j, -, hj⟩ | hj
      · cases hj
      · cases hj
    | latest => cases List.mem_singleton.mp hr
    | localBuild => cases hr
  by_cases hlow : low = localBuild
  · subst hlow
    cases high with
    | localBuild => exact Or.inl (Except.ok.inj h).symm
    | shipped j => cases h
    | latest => cases h
  -- from another release on, the upper end decides what the range is
  · cases high with
    | localBuild =>
      cases low with
      | shipped i => cases h
      | latest => cases h
      | localBuild => exact absurd rfl hlow
    | latest =>
      rw [range_latest hlow] at h
      obtain rfl := Except.ok.inj h
      exact Or.inr ⟨hlatest low, nodup_onward low⟩
    | shipped v =>
      by_cases hv : low.IsUpTo v
      · rw [range_shipped hv] at h
        obtain rfl := Except.ok.inj h
        refine Or.inr ⟨fun hl => not_isUpTo_localBuild (isUpTo_of_mem_upTo hl), ?_⟩
        -- it is a beginning of the releases from `low` on
        exact (List.nodup_append.mp (upTo_append_onward hv ▸ nodup_onward low)).1
      · cases low with
        | shipped i => simp [range, Fin.not_le.mp hv] at h
        | latest => cases h
        | localBuild => exact absurd rfl hlow

/-! ### Installs -/

/-- The name of the directory that a release is installed in. -/
def installFolder (r : Release) : String :=
  if r.name = latest.name then "next" else r.name

theorem isSegment_installFolder (r : Release) : Path.IsSegment r.installFolder := by
  cases r with
  | shipped i => revert i; decide +kernel
  | latest => decide +kernel
  | localBuild => decide +kernel

theorem installFolder_injective {r s : Release} (h : r.installFolder = s.installFolder) :
    r = s := by
  -- no release is named like the directory of the unreleased one
  have hname : ∀ t : Release, installFolder t ≠ "next" ∨ t = latest := by
    intro t
    cases t with
    | shipped i => exact Or.inl (by revert i; decide +kernel)
    | latest => exact Or.inr rfl
    | localBuild => exact Or.inl (by decide)
  have hnext : installFolder latest = "next" := rfl
  by_cases hr : r = latest
  · subst hr
    exact ((hname s).resolve_left fun hs => hs (h ▸ hnext)).symm
  by_cases hs : s = latest
  · subst hs
    exact (hname r).resolve_left fun hr => hr (h ▸ hnext)
  -- beside the unreleased one, the directories have the names of the releases
  have hplain : ∀ t : Release, t ≠ latest → installFolder t = t.name := by
    intro t ht
    refine if_neg fun hn => ht (Option.some.inj ?_)
    rw [← ofName?_name t, hn]
    rfl
  rw [hplain r hr, hplain s hs] at h
  exact Option.some.inj (by rw [← ofName?_name r, h, ofName?_name])

theorem name_ne_localBuild {r : Release} (h : r ≠ localBuild) : r.name ≠ localBuild.name := by
  intro hn
  refine h (Option.some.inj ?_)
  rw [← ofName?_name r, hn, ofName?_name]

variable {w : Workspace} {directory : Option String}

theorem isClean_installsDirectory {installs : Path} (h : installsDirectory w = .ok installs) :
    installs.IsClean := by
  unfold installsDirectory at h
  split at h
  · obtain rfl := Except.ok.inj h
    exact Path.isClean_ofString _
  · obtain ⟨home, hhome, rfl⟩ := Except.map_eq_ok_iff.mp h
    refine ((?_ : home.IsClean).child _).child _
    unfold homeDirectory at hhome
    dsimp only at hhome
    split at hhome
    · cases hhome
    · split at hhome
      · cases hhome
      · obtain rfl := Except.ok.inj hhome
        exact Path.isClean_ofString _

theorem installPath_eq {r : Release} (hr : r ≠ localBuild) :
    installPath w r.name directory = (installsDirectory w).map fun installs =>
      ((installs.child r.installFolder).child "node_modules").child "typescript" := by
  rw [installPath, if_neg (name_ne_localBuild hr)]
  rfl

/-- The script of the compiler of a release. -/
def script (w : Workspace) (directory : Option String) (r : Release) : Except LintError Path :=
  (installPath w r.name directory).map fun install => Compiler.scriptPath install.toString

/-- A directory named `typescript` is no script of a local build. -/
theorem suffix_install (root : PathRoot) (segments : List String) :
    Path.suffix ⟨root, segments ++ ["typescript"]⟩ = "" := by
  have hname : Path.name ⟨root, segments ++ ["typescript"]⟩ = "typescript" := by
    rw [Path.name, List.getLast?_concat]
    rfl
  rw [Path.suffix, hname]
  decide

theorem scriptPath_install {p : Path} (hp : p.IsClean) :
    Compiler.scriptPath (p.child "typescript").toString =
      ⟨p.root, p.segments ++ ["typescript", "lib", "tsc.js"]⟩ := by
  rw [Compiler.scriptPath, Path.ofString_toString (hp.child "typescript"),
    Path.child_segment p (s := "typescript") (by decide), suffix_install, if_neg (by decide),
    Path.child_segment _ (s := "lib") (by decide), Path.child_segment _ (s := "tsc.js") (by decide),
    List.append_assoc, List.append_assoc]
  rfl

/-- Where the compiler of a release that is not built locally has its script. -/
theorem script_eq {r : Release} (hr : r ≠ localBuild) :
    script w directory r = (installsDirectory w).map fun installs =>
      ⟨installs.root,
        installs.segments ++ [r.installFolder, "node_modules", "typescript", "lib", "tsc.js"]⟩ := by
  rw [script, installPath_eq hr]
  rcases hi : installsDirectory w with e | installs
  · simp only [Except.map]
  · have hclean := isClean_installsDirectory hi
    simp only [Except.map, Except.ok.injEq]
    rw [scriptPath_install ((hclean.child r.installFolder).child "node_modules"),
      Path.child_segment _ (s := "node_modules") (by decide),
      Path.child_segment installs (isSegment_installFolder r), List.append_assoc, List.append_assoc]
    rfl

theorem script_injective {r s : Release} {p : Path} (hr : r ≠ localBuild) (hs : s ≠ localBuild)
    (hrp : script w directory r = .ok p) (hsp : script w directory s = .ok p) : r = s := by
  rw [script_eq hr] at hrp
  rw [script_eq hs] at hsp
  obtain ⟨installs, hi, rfl⟩ := Except.map_eq_ok_iff.mp hrp
  obtain ⟨installs', hi', hp⟩ := Except.map_eq_ok_iff.mp hsp
  obtain rfl : installs = installs' := Except.ok.inj (hi.symm.trans hi')
  have htail := List.append_cancel_left (Path.mk.inj hp).2
  exact (installFolder_injective (List.cons.inj htail).1).symm

/-- **The compilers of a range are different**: no two of its releases share a script. -/
theorem nodup_scripts {low high : VersionArg} {rs : List Release} {scripts : List Path}
    (hrange : rangeOf low high = .ok rs)
    (h : rs.mapM (script w directory) = .ok scripts) : scripts.Nodup := by
  obtain ⟨a, -, hrange⟩ := Except.bind_eq_ok_iff.mp hrange
  obtain ⟨b, -, hrange⟩ := Except.bind_eq_ok_iff.mp hrange
  rcases range_eq_ok (Except.mapError_eq_ok_iff.mp hrange) with rfl | ⟨hlocal, hnodup⟩
  -- a local build is alone in its range
  · obtain ⟨x, xs, -, hxs, rfl⟩ := Except.mapM_cons_eq_ok_iff.mp h
    obtain rfl := Except.ok.inj hxs
    exact List.nodup_singleton x
  · have hne : ∀ r ∈ rs, r ≠ localBuild := fun r hr e => hlocal (e ▸ hr)
    exact Except.nodup_of_mapM h hnodup fun r hr s hs p =>
      script_injective (hne r hr) (hne s hs)

end DeclLint.Release
