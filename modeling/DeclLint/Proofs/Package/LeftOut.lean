/-
DeclLint/Proofs/Package/LeftOut.lean

The files that the pass in the root of a package leaves to others.  Which files
these are is read off the texts of their paths; which version folders there are
is read off a listing, before the first pass.  In a tree with plain names the two
agree (`exists_folder_of_leftOut`): a file that is left out lies in the tree below
an entry of the root that is named like a version folder, which is a directory
since something lies below it, so the listing has it.

The passes of a package run one after the other as long as they end clean
(`startedPasses`), and the one in the root comes last.  When it is run, the passes
of all folders have ended clean (`passes_before_root`).
-/
import DeclLint.Proofs.Files.Walk
import DeclLint.Proofs.Package.Plan
import DeclLint.Proofs.Pass.Clean

namespace DeclLint

/-! ### The files of a program -/

theorem Files.exists_bytes_of_readSource {w : Workspace} {p : Path} {text : String}
    (h : (Files.readSource w p).result = .ok (some text)) :
    ∃ bytes, w.readBytes p = .ok bytes := by
  unfold Files.readSource at h
  split at h
  · next bytes hbytes => exact ⟨bytes, hbytes⟩
  · cases h
  · cases h
  · cases h

theorem Workspace.isFile_of_readBytes {w : Workspace} {p : Path} {bytes : List UInt8}
    (h : w.readBytes p = .ok bytes) : w.isFile p = .ok true := by
  unfold Workspace.readBytes at h
  split at h
  · cases h
  · next place hplace =>
    split at h
    · next bytes hnode => exact Workspace.isFile_eq_ok_true_iff.mpr ⟨place, bytes, hplace, hnode⟩
    · cases h
    · cases h

/-- The sources that are read are files of the tree, named by their paths. -/
theorem Project.exists_path_of_readSources {w : Workspace} {ps : List Path}
    {files : List SourceFile} (h : (readSources w ps).result = .ok files) {file : SourceFile}
    (hfile : file ∈ files) : ∃ p, file.name = p.toString ∧ w.isFile p = .ok true := by
  induction ps generalizing files with
  | nil =>
    obtain rfl := Except.ok.inj h
    cases hfile
  | cons p ps ih =>
    obtain ⟨text, htext, h⟩ := Traced.result_bind_eq_ok_iff.mp h
    obtain ⟨more, hmore, h⟩ := Traced.result_bind_eq_ok_iff.mp h
    obtain rfl := Except.ok.inj h
    cases text with
    | none => exact ih hmore hfile
    | some text =>
      rcases List.mem_cons.mp hfile with rfl | hfile
      · obtain ⟨bytes, hbytes⟩ := Files.exists_bytes_of_readSource htext
        exact ⟨p, rfl, Workspace.isFile_of_readBytes hbytes⟩
      · exact ih hmore hfile

theorem Project.isFile_of_build {w : Workspace} (hplain : w.tree.HasPlainNames) {description : Path}
    {p : Program} (h : (build w description).result = .ok p) {file : SourceFile}
    (hfile : file ∈ p.files) : w.isFile (.ofString file.name) = .ok true := by
  obtain ⟨document, -, h⟩ := Traced.result_bind_eq_ok_iff.mp h
  obtain ⟨selection, -, h⟩ := Traced.result_bind_eq_ok_iff.mp h
  obtain ⟨paths, -, h⟩ := Traced.result_bind_eq_ok_iff.mp h
  obtain ⟨files, hfiles, h⟩ := Traced.result_bind_eq_ok_iff.mp h
  rw [Traced.result_log_bind] at h
  obtain rfl := Except.ok.inj h
  obtain ⟨path, hname, hpath⟩ := exists_path_of_readSources hfiles hfile
  -- a path that leads to a file is clean, so it is read back from the name
  have hclean : path.IsClean := by
    obtain ⟨place, bytes, hplace, -⟩ := Workspace.isFile_eq_ok_true_iff.mp hpath
    obtain ⟨-, -, hwalk⟩ := Workspace.locate_eq_ok_iff.mp hplace
    exact fun s hs => Workspace.isClean_of_walk hplain hwalk s (Workspace.mem_segments_absolute hs)
  rw [hname, Path.ofString_toString hclean]
  exact hpath

/-! ### Version folders that are found -/

theorem Release.name_of_ofName? {s : String} {r : Release} (h : ofName? s = some r) :
    r.name = s := by
  unfold ofName? at h
  split at h
  · next hs => exact Option.some.inj h ▸ hs.symm
  · split at h
    · next hs => exact Option.some.inj h ▸ hs.symm
    · obtain ⟨i, hi, rfl⟩ := Option.map_eq_some_iff.mp h
      have hname := List.find?_some hi
      exact of_decide_eq_true hname

theorem Release.name_of_release? {version : String} {r : Release}
    (h : (VersionArg.value (.text version)).release? = .ok r) : r.name = version := by
  unfold VersionArg.release? at h
  dsimp only at h
  split at h
  · next r' hr =>
    obtain rfl := Except.ok.inj h
    rw [Json.str?_text] at hr
    exact name_of_ofName? hr
  · cases h

namespace Package

variable {w : Workspace} {directory : Path}

/-- What is known of the entries of a directory once its version folders have been found: they are
releases that entries are named for, and whatever is named so could be looked at, and is one of
them if it is a directory. -/
theorem entries_of_folderReleases {names : List String} {rs : List Release}
    (h : folderReleases w directory names = .ok rs) :
    (∀ r ∈ rs, ∃ name, Path.folderVersion? name = some r.name) ∧
    ∀ name ∈ names, ∀ version, Path.folderVersion? name = some version →
      ∃ isFolder, w.isDir (directory.child name) = .ok isFolder ∧
        (isFolder = true → ∃ r ∈ rs, r.name = version) := by
  induction names generalizing rs with
  | nil =>
    obtain rfl := Except.ok.inj h
    exact ⟨by simp, by simp⟩
  | cons name names ih =>
    rcases hversion : Path.folderVersion? name with - | version
    · rw [folderReleases_cons_none names hversion] at h
      obtain ⟨hrs, hnames⟩ := ih h
      refine ⟨hrs, List.forall_mem_cons.mpr ⟨?_, hnames⟩⟩
      intro version hsome
      rw [hversion] at hsome
      cases hsome
    · simp only [folderReleases, hversion] at h
      obtain ⟨isFolder, hfolder, h⟩ := Except.bind_eq_ok_iff.mp h
      have hisDir := Except.mapError_eq_ok_iff.mp hfolder
      cases isFolder with
      | false =>
        obtain ⟨hrs, hnames⟩ := ih h
        refine ⟨hrs, List.forall_mem_cons.mpr ⟨?_, hnames⟩⟩
        exact fun _ _ => ⟨false, hisDir, fun hfalse => absurd hfalse Bool.false_ne_true⟩
      | true =>
        obtain ⟨r, hr, h⟩ := Except.bind_eq_ok_iff.mp h
        obtain ⟨more, hmore, h⟩ := Except.bind_eq_ok_iff.mp h
        obtain rfl := Except.ok.inj h
        obtain ⟨hrs, hnames⟩ := ih hmore
        have hname := Release.name_of_release? hr
        refine ⟨List.forall_mem_cons.mpr ⟨⟨name, hname ▸ hversion⟩, hrs⟩,
          List.forall_mem_cons.mpr ⟨?_, ?_⟩⟩
        · intro version' hsome
          obtain rfl := Option.some.inj (hversion.symm.trans hsome)
          exact ⟨true, hisDir, fun _ => ⟨r, List.mem_cons_self, hname⟩⟩
        · intro name' hname' version' hsome
          obtain ⟨isFolder, hisDir', hfound⟩ := hnames name' hname' version' hsome
          refine ⟨isFolder, hisDir', fun htrue => ?_⟩
          obtain ⟨r', hr', hr''⟩ := hfound htrue
          exact ⟨r', List.mem_cons_of_mem r hr', hr''⟩

/-- The releases that are found have folders of their names, so none is the unreleased one. -/
theorem ne_latest_of_folderVersion? {name : String} {r : Release}
    (h : Path.folderVersion? name = some r.name) : r ≠ .latest := by
  rintro rfl
  have hname : name = "tslatest" := Path.eq_of_folderVersion? h
  rw [hname] at h
  exact absurd h (by decide)

/-- What finding the version folders of a directory says about the place that it leads to: none of
them is for the unreleased compiler, and whatever is named like a version folder there and is a
directory is found, for the version in its name. -/
theorem place_of_findVersions {folders : List Release}
    (h : findVersions w directory = .ok folders) :
    (∀ r ∈ folders, r ≠ .latest) ∧ ∃ place, w.locate directory = .ok place ∧
      w.tree.node? place = some .dir ∧
      ∀ name version, Path.folderVersion? name = some version →
        w.tree.node? (place ++ [name]) = some .dir →
          ∃ r ∈ folders, r.name = version ∧
            w.locate (directory.child name) = .ok (place ++ [name]) := by
  unfold findVersions at h
  split at h
  · cases h
  · next names hnames =>
    obtain ⟨rs, hrs, rfl⟩ := Except.map_eq_ok_iff.mp h
    obtain ⟨hnamed, hfound⟩ := entries_of_folderReleases hrs
    refine ⟨fun r hr => ?_, ?_⟩
    · obtain ⟨name, hname⟩ := hnamed r (List.mem_mergeSort.mp hr)
      exact ne_latest_of_folderVersion? hname
    unfold Workspace.list at hnames
    split at hnames
    · cases hnames
    · next place hplace =>
      split at hnames
      · next hdir =>
        obtain rfl := Except.ok.inj hnames
        refine ⟨place, hplace, hdir, fun name version hversion hnode => ?_⟩
        obtain ⟨isFolder, hisDir, hrelease⟩ :=
          hfound name (FileTree.mem_children hnode) version hversion
        obtain ⟨hsegment, hdots⟩ := Path.isSegment_of_folderVersion? hversion
        rcases Workspace.locate_child hplace hsegment hdots
          (Path.notMem_nul_of_folderVersion? hversion) hnode with hlocate | hlocate
        · rw [Workspace.isDir, Workspace.node?, hlocate] at hisDir
          obtain rfl : true = isFolder := by simpa [hnode, Except.map] using hisDir
          obtain ⟨r, hr, hname⟩ := hrelease rfl
          exact ⟨r, List.mem_mergeSort.mpr hr, hname, hlocate⟩
        -- a path that is too long would have ended the search
        · rw [Workspace.isDir, Workspace.node?, hlocate] at hisDir
          cases hisDir
      · cases hnames
      · cases hnames

/-! ### The passes that are run -/

/-- The ranges of the passes that are run: each with its lower end, up to the first that has none,
and up to the first that does not end clean. -/
def startedPasses (host : Host) (o : PackageOptions) :
    List (Release × Release) → List (Release × Release)
  | [] => []
  | (bound, high) :: more =>
    match lowerEnd o bound high with
    | .error _ => []
    | .ok low =>
      (low, high) ::
        if Traced.IsClean (Pass.run host (passOptions o low high)).result then
          startedPasses host o more
        else []

/-- The ranges of the passes that linting a package with its version folders runs. -/
def passesRun (host : Host) (o : PackageOptions) : List (Release × Release) :=
  match findVersions host.workspace o.directory >>= bounds with
  | .ok passes => startedPasses host o passes
  | .error _ => []

variable {host : Host} {o : PackageOptions}

theorem startedPasses_cons_error {bound high : Release} {e : LintError}
    (h : lowerEnd o bound high = .error e) (ps : List (Release × Release)) :
    startedPasses host o ((bound, high) :: ps) = [] := by
  simp only [startedPasses, h]

theorem startedPasses_cons_clean {bound high low : Release} (h : lowerEnd o bound high = .ok low)
    (hclean : Traced.IsClean (Pass.run host (passOptions o low high)).result = true)
    (ps : List (Release × Release)) :
    startedPasses host o ((bound, high) :: ps) = (low, high) :: startedPasses host o ps := by
  simp only [startedPasses, h, hclean, if_true]

theorem startedPasses_cons_stop {bound high low : Release} (h : lowerEnd o bound high = .ok low)
    (hclean : Traced.IsClean (Pass.run host (passOptions o low high)).result = false)
    (ps : List (Release × Release)) :
    startedPasses host o ((bound, high) :: ps) = [(low, high)] := by
  simp only [startedPasses, h, hclean, Bool.false_eq_true, if_false]

/-- What happens is what the passes that are run do. -/
theorem events_runPasses (announce : Bool) (ps : List (Release × Release)) :
    (runPasses host o announce ps).events =
      (startedPasses host o ps).flatMap fun p => (announcedPass host o announce p).events := by
  induction ps with
  | nil => rfl
  | cons p ps ih =>
    obtain ⟨bound, high⟩ := p
    rcases hlow : lowerEnd o bound high with e | low
    · rw [startedPasses_cons_error hlow, runPasses, hlow]
      rfl
    · rw [runPasses_cons announce ps hlow]
      have hresult := result_announcedPass host o announce (low, high)
      cases hclean : Traced.IsClean (Pass.run host (passOptions o low high)).result with
      | false =>
        rw [startedPasses_cons_stop hlow hclean, Traced.orNext_stop (by rw [hresult]; exact hclean),
          List.flatMap_singleton]
      | true =>
        rw [startedPasses_cons_clean hlow hclean,
          Traced.orNext_clean (by rw [hresult]; exact hclean), List.flatMap_cons, ← ih]

/-- The upper ends of the passes that are run are the first ones. -/
theorem map_startedPasses_prefix (host : Host) (o : PackageOptions)
    (ps : List (Release × Release)) :
    (startedPasses host o ps).map (·.2) <+: ps.map (·.2) := by
  induction ps with
  | nil => exact List.prefix_refl []
  | cons p ps ih =>
    obtain ⟨bound, high⟩ := p
    rcases hlow : lowerEnd o bound high with e | low
    · rw [startedPasses_cons_error hlow]
      exact List.nil_prefix
    · cases hclean : Traced.IsClean (Pass.run host (passOptions o low high)).result with
      | false =>
        rw [startedPasses_cons_stop hlow hclean]
        exact (List.prefix_cons_inj high).mpr List.nil_prefix
      | true =>
        rw [startedPasses_cons_clean hlow hclean]
        exact (List.prefix_cons_inj high).mpr ih

/-- All passes that are run before another have ended clean. -/
theorem clean_of_startedPasses {ps before after : List (Release × Release)} {p : Release × Release}
    (h : startedPasses host o ps = before ++ p :: after) :
    ∀ q ∈ before, (Pass.run host (passOptions o q.1 q.2)).result = .ok none := by
  induction ps generalizing before with
  | nil =>
    have hnil := congrArg List.length h
    simp [startedPasses] at hnil
  | cons p' ps ih =>
    obtain ⟨bound, high⟩ := p'
    intro q hq
    cases before with
    | nil => cases hq
    | cons q' before =>
      rcases hlow : lowerEnd o bound high with e | low
      · rw [startedPasses_cons_error hlow] at h
        cases h
      · cases hclean : Traced.IsClean (Pass.run host (passOptions o low high)).result with
        | false =>
          rw [startedPasses_cons_stop hlow hclean] at h
          have hlength := congrArg List.length h
          simp at hlength
        | true =>
          rw [startedPasses_cons_clean hlow hclean] at h
          obtain ⟨rfl, hrest⟩ := List.cons.inj h
          rcases List.mem_cons.mp hq with rfl | hq
          · exact Traced.eq_of_isClean hclean
          · exact ih hrest q hq

/-- Linting a package with its version folders is running these passes. -/
theorem exists_events_lint (hlocal : Release.localDirectory? o.localBuild = none)
    (hnewest : o.onlyNewest = false) :
    ∃ announce, (lint host o).events =
      (passesRun host o).flatMap fun p => (announcedPass host o announce p).events := by
  have hlint : lint host o = Traced.ofExcept (findVersions host.workspace o.directory) >>=
      fun folders => Traced.ofExcept (bounds folders) >>= fun passes =>
        runPasses host o (decide (1 < passes.length)) passes := by
    rw [lint, hlocal, hnewest]
    rfl
  rw [hlint, passesRun]
  rcases findVersions host.workspace o.directory with e | folders
  · exact ⟨false, rfl⟩
  · rw [Traced.ofExcept_ok_bind]
    show ∃ announce, _ = List.flatMap _ (match bounds folders with
      | .ok passes => startedPasses host o passes
      | .error _ => [])
    rcases bounds folders with e | passes
    · exact ⟨false, rfl⟩
    · exact ⟨_, events_runPasses _ passes⟩

theorem map_snd_of_bounds {folders : List Release} {ps : List (Release × Release)}
    (h : bounds folders = .ok ps) : ps.map (·.2) = folders ++ [.latest] := by
  obtain ⟨starts, hstarts, h⟩ := Except.bind_eq_ok_iff.mp h
  obtain rfl := Except.ok.inj h
  have hlength : starts.length = folders.length := by
    have hmap : starts.map (fun _ => ()) = folders.map fun _ => () :=
      Except.map_eq_of_mapM (fun _ _ _ => rfl) hstarts
    simpa using congrArg List.length hmap
  exact List.map_snd_zip (by simp [hlength])

/-- **The pass in the root comes last**: when it is run, there has been a pass in each version
folder that was found, and all of them have ended clean. -/
theorem passes_before_root {low : Release} (h : (low, .latest) ∈ passesRun host o) :
    ∃ before, passesRun host o = before ++ [(low, .latest)] ∧
      findVersions host.workspace o.directory = .ok (before.map (·.2)) ∧
      ∀ q ∈ before, (Pass.run host (passOptions o q.1 q.2)).result = .ok none := by
  unfold passesRun at h ⊢
  split at h
  · next passes hpasses =>
    obtain ⟨folders, hfolders, hbounds⟩ := Except.bind_eq_ok_iff.mp hpasses
    obtain ⟨before, after, hstarted⟩ := List.append_of_mem h
    have hclean := clean_of_startedPasses hstarted
    -- no folder is for the unreleased compiler, so its pass is the last one of all
    obtain ⟨rest, hrest⟩ := map_startedPasses_prefix host o passes
    have hne : Release.latest ∉ folders :=
      fun hmem => (place_of_findVersions hfolders).1 _ hmem rfl
    have hsplit : before.map (·.2) ++ .latest :: (after.map (·.2) ++ rest) =
        folders ++ [.latest] := by
      rw [hstarted, map_snd_of_bounds hbounds] at hrest
      simpa using hrest
    obtain ⟨hbefore, -, hafter⟩ :=
      (List.append_cons_inj_of_notMem hne List.not_mem_nil).mp hsplit.symm
    obtain rfl : after = [] :=
      List.map_eq_nil_iff.mp (List.append_eq_nil_iff.mp hafter.symm).1
    exact ⟨before, hstarted, hbefore ▸ hfolders, hclean⟩
  · cases h

/-! ### Files that are left out -/

/-- The file lies in the directory that a path leads to, or deeper. -/
def LiesBelow (w : Workspace) (folder : Path) (file : SourceFile) : Prop :=
  ∃ place more, w.locate folder = .ok place ∧ w.tree.node? place = some .dir ∧
    w.locate (.ofString file.name) = .ok (place ++ more) ∧ more ≠ []

/-- A file of the tree that is named as one in a version folder lies in a folder that is found. -/
theorem exists_folder_of_leftOut (hplain : w.tree.HasPlainNames) {folders : List Release}
    (hfolders : findVersions w directory = .ok folders) {file : SourceFile}
    (hfile : w.isFile (.ofString file.name) = .ok true)
    (h : Path.isVersionPinned file.name (w.absolute directory).toString = true) :
    ∃ r ∈ folders, LiesBelow w (directory.child ("ts" ++ r.name)) file := by
  obtain ⟨-, root, hroot, -, hfound⟩ := place_of_findVersions hfolders
  obtain ⟨place, bytes, hplace, hnode⟩ := Workspace.isFile_eq_ok_true_iff.mp hfile
  obtain ⟨-, -, hrootWalk⟩ := Workspace.locate_eq_ok_iff.mp hroot
  obtain ⟨-, -, hwalk⟩ := Workspace.locate_eq_ok_iff.mp hplace
  -- the text of the root is that of an absolute path, which leads where the root does
  have habs := Workspace.isAbsolute_absolute w directory
  have hread := Path.ofString_toString (Workspace.isClean_of_walk hplain hrootWalk)
  have htextWalk : w.tree.walk []
      (w.absolute (.ofString (w.absolute directory).toString)).segments = .ok root := by
    rw [hread, Workspace.absolute_of_isAbsolute habs]
    exact hrootWalk
  have htextAbs : (Path.resolution (w.absolute directory).toString).isAbsolute = true := by
    rw [Workspace.resolution_of_walk hplain htextWalk, hread]
    exact habs
  obtain ⟨hfileAbs, name, version, more, hversion, hmore, hsegments⟩ :=
    Path.exists_folder_of_isVersionPinned htextAbs h
  -- so the file lies behind the root, in a folder that is named for a version
  have hsplit : place = (root ++ [name]) ++ more := by
    rw [← Workspace.segments_resolution_of_walk hplain hwalk hfileAbs, hsegments,
      Workspace.segments_resolution_of_walk hplain htextWalk htextAbs]
    simp
  rw [hsplit] at hnode hplace
  have hdir := FileTree.node?_of_append hnode hmore
  obtain ⟨r, hr, rfl, hlocate⟩ := hfound name version hversion hdir
  rw [Path.eq_of_folderVersion? hversion] at hlocate hdir hplace
  exact ⟨r, hr, _, more, hlocate, hdir, hplace, hmore⟩

/-- **No file is skipped that no folder's pass has linted.**  In a tree with plain names, a file
that the pass in the root leaves out lies below a version folder that was found in the same run, and
the pass in that folder has ended clean before the one in the root, which is the last one. -/
theorem leftOut_below_lintedFolder (hplain : host.workspace.tree.HasPlainNames)
    (hlocal : Release.localDirectory? o.localBuild = none) (hnewest : o.onlyNewest = false)
    (hprogram : ∀ p, o.program = some p → ∀ file ∈ p.files,
      host.workspace.isFile (.ofString file.name) = .ok true) :
    (∃ announce, (lint host o).events =
      (passesRun host o).flatMap fun p => (announcedPass host o announce p).events) ∧
    ∀ low p file, (low, .latest) ∈ passesRun host o →
      (Pass.programOf host (passOptions o low .latest)).result = .ok p → file ∈ p.files →
      Pass.isLeftOut true (Pass.rootOf host (passOptions o low .latest)) file = true →
      ∃ before, passesRun host o = before ++ [(low, .latest)] ∧
        findVersions host.workspace o.directory = .ok (before.map (·.2)) ∧
        ∃ q ∈ before, (Pass.run host (passOptions o q.1 q.2)).result = .ok none ∧
          LiesBelow host.workspace (o.directory.child ("ts" ++ q.2.name)) file := by
  refine ⟨exists_events_lint hlocal hnewest, ?_⟩
  intro low p file hroot hp hfile hleftOut
  obtain ⟨before, hpasses, hfolders, hclean⟩ := passes_before_root hroot
  -- whichever way the program is given, its files are files of the tree
  have hisFile : host.workspace.isFile (.ofString file.name) = .ok true := by
    unfold Pass.programOf at hp
    split at hp
    · next p' hp' =>
      obtain rfl := Except.ok.inj hp
      exact hprogram p' hp' file hfile
    · exact Project.isFile_of_build hplain hp hfile
  have hdirectory : (passOptions o low .latest).directory = o.directory := rfl
  rw [Pass.isLeftOut, Bool.true_and, Pass.rootOf, hdirectory] at hleftOut
  obtain ⟨r, hr, hbelow⟩ := exists_folder_of_leftOut hplain hfolders hisFile hleftOut
  obtain ⟨q, hq, rfl⟩ := List.mem_map.mp hr
  exact ⟨before, hpasses, hfolders, q, hq, hclean q hq, hbelow⟩

/-- A package with a folder for 5.5 whose file the project in the root lists, too, by a path that
leaves the folder and enters it again. -/
def sharedFile : Workspace where
  tree :=
    [(["p", "tsconfig.json"], "\x7b\"files\": [\"a.d.ts\", \"ts5.5/../ts5.5/b.d.ts\"]\x7d"),
      (["p", "tslint.json"], "\x7b\"rules\": \x7b\"expect\": true\x7d\x7d"),
      (["p", "a.d.ts"], ""),
      (["p", "ts5.5", "tsconfig.json"], "\x7b\"files\": [\"b.d.ts\"]\x7d"),
      (["p", "ts5.5", "tslint.json"], "\x7b\"extends\": \"../tslint.json\"\x7d"),
      (["p", "ts5.5", "b.d.ts"], ""),
      (["i", "5.5", "node_modules", "typescript", "lib", "tsc.js"], "")
    ].foldl (fun t e => t.writeFile e.1 e.2.toUTF8.toList) FileTree.empty
  cwd := []
  environment := [(Release.installsVariable, "/i")]

/-- The options for linting it from 5.5 on. -/
def sharedFileOptions : PackageOptions :=
  { twoFoldersOptions with minimum := .value (.text "5.5"), expectOnly := false }

/-- The host of the linting, whose compilers find nothing. -/
def sharedFileHost : Host := ⟨sharedFile, fun _ => .finished "" "" 0⟩

/-- The lowest release of the pass in the root. -/
def sharedFileLow : Release := .shipped ⟨36, by decide⟩

theorem leftOut_sharedFile :
    sharedFile.tree.HasPlainNames ∧
    (sharedFileLow, .latest) ∈ passesRun sharedFileHost sharedFileOptions ∧
    Pass.isLeftOut true
      (Pass.rootOf sharedFileHost (passOptions sharedFileOptions sharedFileLow .latest))
      ⟨"/p/ts5.5/../ts5.5/b.d.ts", ""⟩ = true ∧
    ∃ before, passesRun sharedFileHost sharedFileOptions = before ++ [(sharedFileLow, .latest)] ∧
      findVersions sharedFile (Path.ofString "/p") = .ok (before.map (·.2)) ∧
      ∃ q ∈ before,
        (Pass.run sharedFileHost (passOptions sharedFileOptions q.1 q.2)).result = .ok none ∧
        LiesBelow sharedFile ((Path.ofString "/p").child ("ts" ++ q.2.name))
          ⟨"/p/ts5.5/../ts5.5/b.d.ts", ""⟩ := by
  have hplain : sharedFile.tree.HasPlainNames := by decide +kernel
  have hroot : (sharedFileLow, .latest) ∈ passesRun sharedFileHost sharedFileOptions := by
    decide +kernel
  have hprogram : (Pass.programOf sharedFileHost
      (passOptions sharedFileOptions sharedFileLow .latest)).result =
      .ok ⟨[⟨"/p/a.d.ts", ""⟩, ⟨"/p/ts5.5/../ts5.5/b.d.ts", ""⟩], []⟩ :=
    Except.toOption_eq_some_iff.mp (by decide +kernel)
  have hleftOut : Pass.isLeftOut true
      (Pass.rootOf sharedFileHost (passOptions sharedFileOptions sharedFileLow .latest))
      ⟨"/p/ts5.5/../ts5.5/b.d.ts", ""⟩ = true := by decide +kernel
  have hnone : ∀ p, sharedFileOptions.program = some p → ∀ file ∈ p.files,
      sharedFile.isFile (.ofString file.name) = .ok true := by
    intro p hp
    cases hp
  have hlocal : Release.localDirectory? sharedFileOptions.localBuild = none := rfl
  obtain ⟨-, hbelow⟩ :=
    @leftOut_below_lintedFolder sharedFileHost sharedFileOptions hplain hlocal rfl hnone
  refine ⟨hplain, hroot, hleftOut, hbelow _ _ _ hroot hprogram ?_ hleftOut⟩
  exact List.mem_cons_of_mem _ List.mem_cons_self

end Package

end DeclLint
