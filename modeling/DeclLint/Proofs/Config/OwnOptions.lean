/-
DeclLint/Proofs/Config/OwnOptions.lean

The options that configuration files give to `expect` are of no account.  Loading a
file from two workspaces that differ in nothing else does the same, and gives tables
that differ in nothing but the arguments of `expect` (`related_rulesAt`): the
induction is that of the recursion, and each step keeps it because merging tables
does.  The configuration of a pass replaces these arguments, so it is the same
(`activeWith_same`), and so is what is logged.

Which install belongs to a version is a parameter (`Resolver`); the configuration
of a pass is the case of the usual installs (`active_eq`).

The files have to be within the limits of the reader.  An option that goes beyond one
ends the loading of its file (`not_all_same`).
-/
import DeclLint.Proofs.Config.Variant
import DeclLint.Proofs.Release.Install

namespace DeclLint.Config

open Traced (Related)

variable {w w' : Workspace} {chain : List Place} {p start : Place}

/-! ### Loading -/

/-- Two tables of rules differ in nothing but arguments of `expect`. -/
def SameTable (t t' : RuleTable) : Prop :=
  withoutOptions t = withoutOptions t'

theorem SameTable.merge {t t' u u' : RuleTable} (h : SameTable t t') (hu : SameTable u u') :
    SameTable (t.merge u) (t'.merge u') := by
  have hmerge : ∀ t u : RuleTable,
      withoutOptions (t.merge u) = (withoutOptions t).merge (withoutOptions u) :=
    fun t u => Table.mapValues_merge t u
  rw [SameTable, hmerge, hmerge, h, hu]

theorem related_ownRules {d d' : Json} (h : SameDocument d d') (p : Place) {t t' : RuleTable}
    (ht : SameTable t t') :
    Related SameTable
      (match ownRules d with
        | .ok own => (return Table.merge t own : Traced RuleTable)
        | .error fault => Traced.fail (refusal p fault))
      (match ownRules d' with
        | .ok own => (return Table.merge t' own : Traced RuleTable)
        | .error fault => Traced.fail (refusal p fault)) := by
  have hown := ownRules_same h
  generalize ownRules d = x, ownRules d' = x' at hown
  rcases x with fault | own <;> rcases x' with fault' | own'
  · obtain rfl := Except.error.inj hown
    exact .error [] _
  · cases hown
  · cases hown
  · exact .ok [] (ht.merge (Except.ok.inj hown))

/-- Files that differ in nothing but options give tables that do, if what they extend does. -/
theorem related_rulesIn {bytes bytes' : List UInt8} (h : SameButOptions w w')
    (hfound : ∃ n, w.node? (pathOf p) = .ok n) (hfile : w.tree.node? p = some (.file bytes))
    (hfile' : w'.tree.node? p = some (.file bytes'))
    (hfits : w.tree.node? p ≠ w'.tree.node? p →
      FitsReader w p (w.room.documents - chain.length) ∧
        FitsReader w' p (w.room.documents - chain.length))
    (hparents : ∀ q, Extends w p q →
      Related SameTable (rulesAt w (chain ++ [p]) q) (rulesAt w' (chain ++ [p]) q)) :
    Related SameTable (rulesIn w chain p bytes) (rulesIn w' chain p bytes') := by
  rw [rulesIn, rulesIn, ← h.room]
  rcases (h.nodes p).documentOf hfile hfile' hfits with ⟨e, he, he'⟩ | ⟨d, d', hd, hd', hsame⟩
  · rw [he, he']
    exact .error [] e
  obtain ⟨⟨cs, hcs, htext, -⟩, hobject⟩ := documentOf_eq_ok_iff.mp hd
  have hholds : Holds w p d := ⟨hfound, ⟨bytes, cs, hfile, hcs, htext⟩, hobject⟩
  rw [hd, hd', Traced.ofExcept_ok_bind, Traced.ofExcept_ok_bind, ← parentEntries_same hsame]
  refine (Related.refl (fun _ => rfl) _).results.bind ?_
  rintro entries _ ⟨rfl, hentries, -⟩
  have hempty : SameTable [] [] := rfl
  refine (Related.foldlM (fun entry hentry t t' ht => ?_) hempty).bind fun t t' ht =>
    related_ownRules hsame p ht
  -- an entry names the same file, whose rules are merged into those before
  refine (Related.refl (fun _ => rfl) _).results.bind ?_
  rintro file _ ⟨rfl, hparent, -⟩
  obtain ⟨name, q, rfl, hq, rfl⟩ := parentFile_eq_ok_iff.mp hparent
  have hextends : Extends w p q :=
    ⟨d, entries, name, hholds, parentEntries_eq_ok_iff.mp hentries, hentry, hq⟩
  refine (Related.refl (fun _ => rfl) _).bind fun _ _ _ => ?_
  exact (hparents q hextends).bind fun u u' hu => .ok [] (ht.merge hu)

/-- **Loading a place does the same**, whatever options the files give to `expect`. -/
theorem related_rulesAt (h : SameButOptions w w') (hfits : FitsWhereChanged w w' start)
    (chain : List Place) (p : Place) (hasked : AsksFor w start chain p) :
    Related SameTable (rulesAt w chain p) (rulesAt w' chain p) := by
  induction chain, p using rulesAt.induct w with
  | case1 chain p hfull =>
    rw [rulesAt_of_full hfull, rulesAt_of_full (h.room ▸ hfull)]
    exact .error [] _
  | case2 chain p hroom hp =>
    rw [rulesAt_of_mem hroom hp, rulesAt_of_mem (h.room ▸ hroom) hp]
    exact .error [] _
  | case3 chain p hroom hp ih =>
    rw [rulesAt_of_notMem hroom hp, rulesAt_of_notMem (h.room ▸ hroom) hp]
    have hlook : Related (fun _ _ => True)
        (Traced.ofExcept (LintError.atPath (pathOf p) (w.node? (pathOf p))))
        (Traced.ofExcept (LintError.atPath (pathOf p) (w'.node? (pathOf p)))) := by
      have hnode := h.node?_same (pathOf p)
      generalize w.node? (pathOf p) = n, w'.node? (pathOf p) = n' at hnode
      rcases n with f | n <;> rcases n' with f' | n'
      · obtain rfl := Except.error.inj hnode
        exact .error [] _
      · cases hnode
      · cases hnode
      · exact .ok [] trivial
    refine hlook.results.bind ?_
    rintro n - ⟨-, hn, -⟩
    have hfound : ∃ n, w.node? (pathOf p) = .ok n := ⟨n, Except.mapError_eq_ok_iff.mp hn⟩
    have hnode := h.nodes p
    rcases hn : w.tree.node? p with - | ⟨bytes | -⟩
    · rw [hn] at hnode
      generalize w'.tree.node? p = n' at hnode
      cases hnode
      exact .error [] _
    · rw [hn] at hnode
      obtain ⟨bytes', hn'⟩ := hnode.exists_file
      rw [hn']
      refine related_rulesIn h hfound hn hn' (hfits chain p hasked hp (Nat.lt_of_not_le hroom))
        fun q hq => ih bytes hn (pathOf q) (hasked.further hp hq)
    · rw [hn] at hnode
      generalize w'.tree.node? p = n' at hnode
      cases hnode
      exact .error [] _

/-- Two configurations from the same file differ in nothing but arguments of `expect`. -/
structure SameConfig (config config' : LintConfig) : Prop where
  rules : SameTable config.rules config'.rules
  source : config.source = config'.source

theorem related_load (h : SameButOptions w w') (file : Path)
    (hfits : FitsWhereChanged w w' (w.resolve file).segments) :
    Related SameConfig (load w file) (load w' file) := by
  unfold load
  split
  · exact .error [] _
  · rw [← h.resolve_eq]
    exact (related_rulesAt h hfits [] _ .start).bind fun t t' ht => .ok [] ⟨ht, rfl⟩

/-! ### The configuration of a pass -/

/-- A way to find installs: the path for the name of a version and a local build. -/
abbrev Resolver := String → Option String → Except LintError String

/-- The usual installs. -/
def installs (w : Workspace) : Resolver := fun version localBuild =>
  (Release.installPath w version localBuild).map Path.toString

/-- The compiler of a release.  An empty path is refused. -/
def versionOf (resolve : Resolver) (localBuild : Option String) (r : Release) :
    Except LintError VersionToTest := do
  let path ← resolve r.name localBuild
  if path = "" then .error (.rules [⟨[.key "path"], .emptyText⟩]) else return ⟨r.name, path⟩

/-- The configuration of a pass, with any way to find installs. -/
def activeWith (resolve : Resolver) (w : Workspace) (preferred tsconfig : Path)
    (low high : VersionArg) (localBuild : Option String) : Traced LintConfig := do
  let isThere ← Traced.ofExcept (LintError.atPath preferred (w.pathExists preferred))
  let file := if isThere then preferred else Bundled.default.path
  Traced.log .info .activeConfig ("Using lint config " ++ file.toString)
  let config ← load w file
  if enforcesExpect config.rules then
    let releases ← Traced.ofExcept (Release.rangeOf low high)
    Traced.log .info .activeConfig
      ("Testing TypeScript versions: " ++ ", ".intercalate (releases.map Release.name))
    let versions ← Traced.ofExcept (releases.mapM (versionOf resolve localBuild))
    return ⟨withOptions config.rules ⟨tsconfig.toString, versions⟩, config.source⟩
  else
    Traced.fail (.expect .notEnforced)

theorem intercalate_concat_ne_empty (segments : List String) {name : String} (h : name ≠ "") :
    String.intercalate "/" (segments ++ [name]) ≠ "" := by
  cases segments with
  | nil => simpa using h
  | cons s segments =>
    obtain ⟨t, ts, ht⟩ := List.exists_cons_of_ne_nil (List.append_ne_nil_of_right_ne_nil segments
      (List.cons_ne_nil name []))
    rw [List.cons_append, ht, String.intercalate_cons_cons]
    simp

/-- A path that ends in a name is not empty. -/
theorem toString_child_ne_empty (q : Path) {name : String} (h : Path.IsSegment name) :
    (q.child name).toString ≠ "" := by
  have hname : name ≠ "" := by
    rintro rfl
    exact absurd h.1 (by decide)
  rw [Path.child_segment q h, Path.toString, if_neg (by simp)]
  intro hempty
  exact intercalate_concat_ne_empty q.segments hname (String.append_eq_empty_iff.mp hempty).2

theorem installPath_ne_empty {version : String} {localBuild : Option String} {q : Path}
    (h : Release.installPath w version localBuild = .ok q) : q.toString ≠ "" := by
  unfold Release.installPath at h
  split at h
  · split at h
    · cases h
    · rw [← Except.ok.inj h]
      exact toString_child_ne_empty _ (by decide)
  · obtain ⟨directory, -, rfl⟩ := Except.map_eq_ok_iff.mp h
    exact toString_child_ne_empty _ (by decide)

theorem versionOf_installs (w : Workspace) (localBuild : Option String) (r : Release) :
    versionOf (installs w) localBuild r =
      (Release.installPath w r.name localBuild).map fun p => ⟨r.name, p.toString⟩ := by
  rw [versionOf, installs]
  rcases hpath : Release.installPath w r.name localBuild with e | q
  · rfl
  · exact if_neg (installPath_ne_empty hpath)

theorem active_eq (w : Workspace) (preferred tsconfig : Path) (low high : VersionArg)
    (localBuild : Option String) :
    active w preferred tsconfig low high localBuild =
      activeWith (installs w) w preferred tsconfig low high localBuild := by
  have hversions : versionsToTest w localBuild = (·.mapM (versionOf (installs w) localBuild)) := by
    funext releases
    rw [versionsToTest, funext (versionOf_installs w localBuild)]
  unfold active activeWith
  rw [hversions]

/-- **A configuration is the same whatever options its files gave to `expect`.** -/
theorem activeWith_same (h : SameButOptions w w') (resolve : Resolver) {preferred : Path}
    (hfits : ∀ isThere, w.pathExists preferred = .ok isThere → FitsWhereChanged w w'
      (w.resolve (if isThere then preferred else Bundled.default.path)).segments)
    (tsconfig : Path) (low high : VersionArg) (localBuild : Option String) :
    activeWith resolve w preferred tsconfig low high localBuild =
      activeWith resolve w' preferred tsconfig low high localBuild := by
  refine Related.eq ?_
  unfold activeWith
  have hthere : w.pathExists preferred = w'.pathExists preferred := h.node?_same preferred
  rw [← hthere]
  refine (Related.refl (fun _ => rfl) _).results.bind ?_
  rintro isThere _ ⟨rfl, hisThere, -⟩
  have hfile := hfits isThere (Except.mapError_eq_ok_iff.mp hisThere)
  refine (Related.refl (fun _ => rfl) _).bind fun _ _ _ => ?_
  refine (related_load h _ hfile).results.bind ?_
  rintro config config' ⟨hsame, hload, hload'⟩
  have henforces : enforcesExpect config.rules = enforcesExpect config'.rules := by
    rw [← enforcesExpect_withoutOptions, hsame.rules, enforcesExpect_withoutOptions]
  have hoptions : ∀ options,
      withOptions config.rules options = withOptions config'.rules options := by
    intro options
    rw [← withOptions_withoutOptions (nodup_keys_of_load hload), hsame.rules,
      withOptions_withoutOptions (nodup_keys_of_load hload')]
  rw [henforces, hsame.source]
  simp only [hoptions]
  exact Related.refl (fun _ => rfl) _

/-- A configuration is a loaded one in which `expect` was pointed at the compilers of some
releases. -/
structure FilledIn (resolve : Resolver) (localBuild : Option String) (tsconfig : Path)
    (rs : List Release) (loaded config : LintConfig) : Prop where
  /-- The rule is an error, and its only argument has the compilers of the releases in order. -/
  expect : ∃ vs, config.rules.get? expectKey = some ⟨.error, [.expect ⟨tsconfig.toString, vs⟩]⟩ ∧
    List.Forall₂ (fun r v => v.versionName = r.name ∧ resolve r.name localBuild = .ok v.path) rs vs
  names : config.rules.keys = loaded.rules.keys
  others : ∀ name, name ≠ expectKey → config.rules.get? name = loaded.rules.get? name
  source : config.source = loaded.source

theorem forall₂_of_versionOf {resolve : Resolver} {localBuild : Option String} {rs : List Release}
    {vs : List VersionToTest} (h : rs.mapM (versionOf resolve localBuild) = .ok vs) :
    List.Forall₂ (fun r v => v.versionName = r.name ∧ resolve r.name localBuild = .ok v.path)
      rs vs := by
  induction rs generalizing vs with
  | nil =>
    obtain rfl := Except.ok.inj h
    exact .nil
  | cons r rs ih =>
    obtain ⟨v, vs, hv, hvs, rfl⟩ := Except.mapM_cons_eq_ok_iff.mp h
    obtain ⟨path, hpath, hv⟩ := Except.bind_eq_ok_iff.mp hv
    split at hv
    · cases hv
    · rw [← Except.ok.inj hv]
      exact .cons ⟨rfl, hpath⟩ (ih hvs)

theorem exists_filledIn {resolve : Resolver} {preferred tsconfig : Path}
    {low high : VersionArg} {localBuild : Option String} {config : LintConfig}
    (h : (activeWith resolve w preferred tsconfig low high localBuild).result = .ok config) :
    ∃ isThere loaded rs, w.pathExists preferred = .ok isThere ∧
      (load w (if isThere then preferred else Bundled.default.path)).result = .ok loaded ∧
      Release.rangeOf low high = .ok rs ∧
      FilledIn resolve localBuild tsconfig rs loaded config := by
  obtain ⟨isThere, hthere, h⟩ := Traced.result_bind_eq_ok_iff.mp h
  rw [Traced.result_log_bind] at h
  obtain ⟨loaded, hloaded, h⟩ := Traced.result_bind_eq_ok_iff.mp h
  split at h
  · next henforces =>
    obtain ⟨rs, hrs, h⟩ := Traced.result_bind_eq_ok_iff.mp h
    rw [Traced.result_log_bind] at h
    obtain ⟨vs, hvs, h⟩ := Traced.result_bind_eq_ok_iff.mp h
    obtain rfl := Except.ok.inj h
    have hmem : expectKey ∈ loaded.rules.keys := by
      by_contra hnot
      rw [enforcesExpect, ← expectKey, Table.get?_eq_none_iff.mpr hnot] at henforces
      cases henforces
    refine ⟨isThere, loaded, rs, Except.mapError_eq_ok_iff.mp hthere, hloaded, hrs, ?_⟩
    exact {
      expect := ⟨vs, Table.get?_put_self _ _ _, forall₂_of_versionOf hvs⟩
      names := (Table.keys_put _ _ _).trans (if_pos hmem)
      others := fun name hname => Table.get?_put_of_ne hname _
      source := rfl }
  · cases h

theorem SameButOptions.installs_eq (h : SameButOptions w w') : installs w = installs w' := by
  funext version localBuild
  simp only [installs, Release.installPath, Release.installsDirectory, Release.homeDirectory,
    Workspace.setting?, h.environment, h.accountHome]

/-- **The options that a project gives to `expect` are of no account.**  Workspaces that differ in
nothing else, where these are within the limits of the reader, have the same configuration, or end
in the same error, and log the same.  The rule `expect` of a configuration is an error and has the
compilers of the range as its only argument, and every other rule is as it was loaded; this is so
for any way to find installs, of which the configuration of a pass takes the usual one. -/
theorem options_ofNoAccount (h : SameButOptions w w') (preferred tsconfig : Path)
    (hfits : ∀ isThere, w.pathExists preferred = .ok isThere → FitsWhereChanged w w'
      (w.resolve (if isThere then preferred else Bundled.default.path)).segments)
    (low high : VersionArg) (localBuild : Option String) :
    active w preferred tsconfig low high localBuild =
      active w' preferred tsconfig low high localBuild ∧
    active w preferred tsconfig low high localBuild =
      activeWith (installs w) w preferred tsconfig low high localBuild ∧
    ∀ resolve,
      activeWith resolve w preferred tsconfig low high localBuild =
        activeWith resolve w' preferred tsconfig low high localBuild ∧
      ∀ config, (activeWith resolve w preferred tsconfig low high localBuild).result = .ok config →
        ∃ isThere loaded rs, w.pathExists preferred = .ok isThere ∧
          (load w (if isThere then preferred else Bundled.default.path)).result = .ok loaded ∧
          Release.rangeOf low high = .ok rs ∧
          FilledIn resolve localBuild tsconfig rs loaded config := by
  refine ⟨?_, active_eq w preferred tsconfig low high localBuild, fun resolve =>
    ⟨activeWith_same h resolve hfits tsconfig low high localBuild, fun config hconfig =>
      exists_filledIn hconfig⟩⟩
  rw [active_eq, active_eq, h.installs_eq]
  exact activeWith_same h _ hfits tsconfig low high localBuild

theorem sameNode_of_entries {t t' : FileTree} (h : List.Forall₂
    (fun e e' => e.1 = e'.1 ∧ SameNode (some e.2) (some e'.2)) t.entries t'.entries)
    (place : Place) : SameNode (t.node? place) (t'.node? place) := by
  rw [FileTree.node?, FileTree.node?]
  split
  · exact .refl _
  · generalize t.entries = es, t'.entries = es' at h
    induction h with
    | nil => exact .refl _
    | @cons e e' es es' he _ ih =>
      obtain ⟨q, n⟩ := e
      obtain ⟨q', n'⟩ := e'
      obtain ⟨rfl : q = q', hn⟩ := he
      rw [Table.get?_cons, Table.get?_cons]
      split
      · exact hn
      · exact ih

/-- A project with a configuration that extends another one. -/
def extendingProject (base own : String) : Workspace where
  tree := (FileTree.empty.writeFile ["p", "base.json"] base.toUTF8.toList).writeFile
    ["p", "tslint.json"] own.toUTF8.toList
  cwd := []
  environment := [(Release.installsVariable, "/i")]

theorem entries_extendingProject (base own : String) :
    (extendingProject base own).tree.entries = [(["p"], .dir),
      (["p", "base.json"], .file base.toUTF8.toList),
      (["p", "tslint.json"], .file own.toUTF8.toList)] := by
  rfl

theorem sameButOptions_extendingProject {base base' own own' : String}
    (hbase : SameNode (some (.file base.toUTF8.toList)) (some (.file base'.toUTF8.toList)))
    (hown : SameNode (some (.file own.toUTF8.toList)) (some (.file own'.toUTF8.toList))) :
    SameButOptions (extendingProject base own) (extendingProject base' own') := by
  refine ⟨rfl, rfl, rfl, rfl, sameNode_of_entries ?_⟩
  rw [entries_extendingProject, entries_extendingProject]
  exact .cons ⟨rfl, .refl _⟩ (.cons ⟨rfl, hbase⟩ (.cons ⟨rfl, hown⟩ .nil))

/-- A configuration without options for `expect`. -/
def plainBase : String := "\x7b\"rules\": \x7b\"expect\": \x7b\x7d\x7d\x7d"

/-- One with an option. -/
def optionsBase : String := "\x7b\"rules\": \x7b\"expect\": \x7b\"options\": 1\x7d\x7d\x7d"

/-- One that extends them. -/
def plainOwn : String :=
  "\x7b\"extends\": \"base.json\", \"rules\": \x7b\"expect\": true\x7d\x7d"

/-- One that extends them, and gives an option itself. -/
def optionsOwn : String :=
  "\x7b\"extends\": \"base.json\", \"rules\": \x7b\"expect\": [true, null]\x7d\x7d"

/-- A table with a value for `expect`. -/
def expectTable (v : Json) : Json :=
  .obj [(expectKey, v)]

theorem sameRules_expectTable {v v' : Json} (h : SameSetting v v') :
    SameRules (expectTable v) (expectTable v') :=
  .table (.cons ⟨rfl, Or.inr ⟨rfl, h⟩⟩ .nil)

theorem valueOf?_cons_of_ne {name key : String} (h : key ≠ name) (v : Json)
    (fields : List (LooseText × Json)) :
    Json.valueOf? ((LooseText.ofString name, v) :: fields) key = Json.valueOf? fields key :=
  if_neg fun heq => h (LooseText.ofString_injective heq).symm

theorem valueOf?_cons_congr {fields fields' : List (LooseText × Json)} {key : String}
    (h : Json.valueOf? fields key = Json.valueOf? fields' key) (e : LooseText × Json) :
    Json.valueOf? (e :: fields) key = Json.valueOf? (e :: fields') key := by
  obtain ⟨name, v⟩ := e
  show (if name = LooseText.ofString key then some v else Json.valueOf? fields key) = _
  rw [h]
  rfl

/-- The text of a file is read as the document, with little nesting. -/
def IsShallow (text : String) (d : Json) : Prop :=
  Files.utf8Text text.toUTF8.toList = .ok text.toList ∧ Json.read 4 text.toList = .ok d

theorem isShallow_plainBase :
    IsShallow plainBase (Json.object [("rules", expectTable (.obj []))]) :=
  ⟨Except.toOption_eq_some_iff.mp (by decide +kernel), by with_unfolding_all rfl⟩

theorem isShallow_optionsBase :
    IsShallow optionsBase (Json.object
      [("rules", expectTable (Json.object [("options", .int 1)]))]) :=
  ⟨Except.toOption_eq_some_iff.mp (by decide +kernel), by with_unfolding_all rfl⟩

theorem isShallow_plainOwn :
    IsShallow plainOwn (Json.object
      [("extends", Json.text "base.json"), ("rules", expectTable (.bool true))]) :=
  ⟨Except.toOption_eq_some_iff.mp (by decide +kernel), by with_unfolding_all rfl⟩

theorem isShallow_optionsOwn :
    IsShallow optionsOwn (Json.object
      [("extends", Json.text "base.json"), ("rules", expectTable (.arr [.bool true, .null]))]) :=
  ⟨Except.toOption_eq_some_iff.mp (by decide +kernel), by with_unfolding_all rfl⟩

theorem IsShallow.sameNode {text text' : String} {d d' : Json} (h : IsShallow text d)
    (h' : IsShallow text' d') (hsame : SameDocument d d') :
    SameNode (some (.file text.toUTF8.toList)) (some (.file text'.toUTF8.toList)) :=
  .file h.1 (Json.isText_of_read h.2) h'.1 (Json.isText_of_read h'.2) hsame

theorem sameNode_base : SameNode (some (.file plainBase.toUTF8.toList))
    (some (.file optionsBase.toUTF8.toList)) := by
  refine isShallow_plainBase.sameNode isShallow_optionsBase ?_
  refine .object (fun key hkey => ?_) rfl rfl (sameRules_expectTable (.table fun key hkey => ?_))
  · exact (valueOf?_cons_of_ne hkey _ []).trans (valueOf?_cons_of_ne hkey _ []).symm
  · exact (valueOf?_cons_of_ne hkey _ []).symm

theorem sameNode_own : SameNode (some (.file plainOwn.toUTF8.toList))
    (some (.file optionsOwn.toUTF8.toList)) := by
  refine isShallow_plainOwn.sameNode isShallow_optionsOwn ?_
  refine .object (fun key hkey => ?_) rfl rfl (sameRules_expectTable (.accepted rfl rfl rfl))
  refine valueOf?_cons_congr ?_ _
  exact (valueOf?_cons_of_ne hkey _ []).trans (valueOf?_cons_of_ne hkey _ []).symm

/-- Files with little nesting are within the limits of their reader, wherever they are met. -/
theorem fitsReader_extendingProject {base own : String} {d d' : Json} (hbase : IsShallow base d)
    (hown : IsShallow own d') {room : Nat} (hroom : 4 ≤ room) :
    FitsReader (extendingProject base own) p room := by
  have hfits : ∀ {text : String} {v : Json} {cs : List Char}, IsShallow text v →
      Files.utf8Text text.toUTF8.toList = .ok cs → ∀ e, Json.read room cs ≠ .error (.excess e) := by
    rintro text v cs ⟨htext, hread⟩ hcs e
    obtain rfl := Except.ok.inj (htext.symm.trans hcs)
    have hmore : Json.read room text.toList = .ok v :=
      Json.readWithin_mono (fun l hl => ⟨l, hl, Nat.le_refl l⟩) hroom hread
    rw [hmore]
    exact nofun
  intro bytes cs hfile htext
  by_cases hnil : p = []
  · rw [hnil] at hfile
    cases hfile
  rw [FileTree.node?, if_neg hnil,
    Table.get?_eq_some_iff_mem (extendingProject base own).tree.nodup,
    entries_extendingProject] at hfile
  simp only [List.mem_cons, Prod.mk.injEq, Node.file.injEq, reduceCtorEq, and_false, false_or,
    List.not_mem_nil, or_false] at hfile
  rcases hfile with ⟨-, rfl⟩ | ⟨-, rfl⟩
  · exact hfits hbase htext
  · exact hfits hown htext

theorem fitsWhereChanged_extendingProject :
    FitsWhereChanged (extendingProject plainBase plainOwn) (extendingProject optionsBase optionsOwn)
      start := by
  intro chain q hasked _ _ _
  -- there are no more than three places
  have hlength : chain.length ≤ 3 := by
    have hle := hasked.length_le
    rwa [entries_extendingProject] at hle
  have hroom : 4 ≤ usualDepth - chain.length := by
    unfold usualDepth
    omega
  exact ⟨fitsReader_extendingProject isShallow_plainBase isShallow_plainOwn hroom,
    fitsReader_extendingProject isShallow_optionsBase isShallow_optionsOwn hroom⟩

/-- The projects with these files have the same configuration. -/
theorem options_ofNoAccount_extendingProject :
    SameButOptions (extendingProject plainBase plainOwn)
      (extendingProject optionsBase optionsOwn) ∧
    (∀ isThere, (extendingProject plainBase plainOwn).pathExists
        (Path.ofString "/p/tslint.json") = .ok isThere →
      FitsWhereChanged (extendingProject plainBase plainOwn)
        (extendingProject optionsBase optionsOwn)
        ((extendingProject plainBase plainOwn).resolve
          (if isThere then Path.ofString "/p/tslint.json"
            else Bundled.default.path)).segments) ∧
    active (extendingProject plainBase plainOwn)
        (Path.ofString "/p/tslint.json") (Path.ofString "/p/tsconfig.json")
        (.value (Json.text "5.5")) (.value (Json.text "5.6")) none =
      active (extendingProject optionsBase optionsOwn)
        (Path.ofString "/p/tslint.json") (Path.ofString "/p/tsconfig.json")
        (.value (Json.text "5.5")) (.value (Json.text "5.6")) none := by
  have h := sameButOptions_extendingProject sameNode_base sameNode_own
  exact ⟨h, fun _ _ => fitsWhereChanged_extendingProject, (options_ofNoAccount h _ _
    (fun _ _ => fitsWhereChanged_extendingProject) _ _ _).1⟩

-- `expect` is the only rule, and loading it from both files gives a configuration
example : (active (extendingProject plainBase plainOwn)
    (Path.ofString "/p/tslint.json") (Path.ofString "/p/tsconfig.json")
    (.value (Json.text "5.5")) (.value (Json.text "5.6")) none).result.toOption.map
      (fun config => config.rules.keys) = some [expectKey] := by
  decide +kernel

/-! ### Options that are not read -/

/-- A project whose configuration gives `expect` one option: arrays in arrays, so many of them. -/
def nestedProject (depth : Nat) : Workspace where
  tree := FileTree.empty.writeFile ["p", "tslint.json"]
    ("\x7b\"rules\": \x7b\"expect\": [true, [".toUTF8.toList ++
      List.replicate depth '['.toUInt8 ++ List.replicate depth ']'.toUInt8 ++
      "]]\x7d\x7d".toUTF8.toList)
  cwd := []
  environment := [(Release.installsVariable, "/i")]

/-- An option that is nested too deep for the reader ends the loading of its file, so projects that
differ in nothing but an option may differ in whether they have a configuration. -/
theorem not_all_same : ¬ ∀ (depth depth' : Nat) (preferred tsconfig : Path)
    (low high : VersionArg) (localBuild : Option String),
    active (nestedProject depth) preferred tsconfig low high localBuild =
      active (nestedProject depth') preferred tsconfig low high localBuild := by
  intro hall
  have h := congrArg (fun x => x.result.toOption.isSome) (hall 0 1200
    (Path.ofString "/p/tslint.json") (Path.ofString "/p/tsconfig.json")
    (.value (Json.text "5.6")) (.value (Json.text "5.6")) none)
  have hflat : (active (nestedProject 0) (Path.ofString "/p/tslint.json")
      (Path.ofString "/p/tsconfig.json") (.value (Json.text "5.6"))
      (.value (Json.text "5.6")) none).result.toOption.isSome = true := by
    decide +kernel
  have hdeep : (active (nestedProject 1200) (Path.ofString "/p/tslint.json")
      (Path.ofString "/p/tsconfig.json") (.value (Json.text "5.6"))
      (.value (Json.text "5.6")) none).result.toOption.isSome = false := by
    decide +kernel
  rw [hflat, hdeep] at h
  cases h

end DeclLint.Config
