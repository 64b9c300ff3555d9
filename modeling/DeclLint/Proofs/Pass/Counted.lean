/-
DeclLint/Proofs/Pass/Counted.lean

What a pass counts.  A pass comes across every file of a program once, and visits
those that are not the compiler's own.  A visit moves two counters: one for whose
the file is (`ownershipCounter`), before the search for banned directives, and one for
what becomes of it (`treatmentCounter`), after it.  So the counters agree with each
other once a file has been dealt with, but not in the middle, where a banned directive
stops the pass.

A pass shows its counts in the last thing that it logs, if it reaches its end
(`Finishes`).  It does so exactly if no error ends it and no banned directive stops it,
and then every counter is the number of the files that it is about (`finishes_iff`).
Hence the balance of the counters, and that of the files that the rules were applied to
with the calls of the engine (`accounts_of_finishes`).
-/
import DeclLint.Proofs.Metrics
import DeclLint.Proofs.Pass.Calls

namespace DeclLint.Pass

variable {σ : Type} {isLatest : Bool} {root : Path}

/-! ### Visits -/

/-- The counter for whose a file is that is visited. -/
def ownershipCounter (file : SourceFile) : Counter :=
  if Path.isDependency file.name then .dependencyFiles else .filesScanned

/-- The counter for what becomes of a file that is visited. -/
def treatmentCounter (isLatest : Bool) (root : Path) (file : SourceFile) : Counter :=
  if isLeftOut isLatest root file then .pinnedFilesSkipped else .filesLinted

/-- What a pass logs that is stopped at a file. -/
def stopRecord (file : SourceFile) : LogRecord :=
  ⟨.info, Component.passes.logger, "Banned directive in " ++ file.name ++ ", stopping"⟩

/-- The counts with those of visited files added. -/
def addVisited (isLatest : Bool) (root : Path) (files : List SourceFile) (c : Counts) : Counts :=
  { c with
    dependencyFiles := c.dependencyFiles + (files.filter fun f => Path.isDependency f.name).length
    filesScanned := c.filesScanned + (files.filter fun f => !Path.isDependency f.name).length
    pinnedFilesSkipped := c.pinnedFilesSkipped + (files.filter (isLeftOut isLatest root)).length
    filesLinted := c.filesLinted + (linted isLatest root files).length }

section Visits

variable {lintFile : SourceFile → Run σ Unit} {file : SourceFile} {files : List SourceFile}
  {s s' : State σ} {es : List Event}

theorem addVisited_nil (c : Counts) : addVisited isLatest root [] c = c := by
  simp [addVisited, linted]

theorem addVisited_cons (c : Counts) :
    addVisited isLatest root (file :: files) c =
      addVisited isLatest root files
        ((c.add (ownershipCounter file) 1).add (treatmentCounter isLatest root file) 1) := by
  unfold addVisited ownershipCounter treatmentCounter
  simp only [linted_eq]
  cases hdependency : Path.isDependency file.name <;>
    cases hleftOut : isLeftOut isLatest root file <;>
      simp [Counts.add, hdependency, hleftOut] <;> omega

/-- The search for banned directives, with all that it does. -/
theorem run_checkDirectives_eq (file : SourceFile) (s : State σ) :
    (checkDirectives file).run s =
      (⟨(banned? file).toList.map fun _ => .logged (stopRecord file),
          .ok ((banned? file).map (bannedLine file))⟩,
        ⟨s.engine, s.counts.add (ownershipCounter file) 1⟩) := by
  unfold checkDirectives banned? ownershipCounter
  split
  · rfl
  · rcases Directive.scan file.text.toList with - | o
    · rfl
    · rfl

theorem counts_applyRules {u : Unit}
    (h : (applyRules lintFile isLatest root file).run s = (⟨es, .ok u⟩, s')) :
    s'.counts = s.counts.add (treatmentCounter isLatest root file) 1 := by
  unfold applyRules at h
  unfold treatmentCounter
  split at h
  · next hleftOut =>
    obtain ⟨es₁, u, s₁, es₂, hcount, hlog, -⟩ := Run.run_bind_eq_ok_iff.mp h
    obtain ⟨rfl, -⟩ := Run.run_modify_eq_ok_iff.mp hcount
    obtain ⟨-, rfl⟩ := Run.run_lift_eq_ok_iff.mp hlog
    rw [if_pos hleftOut]
  · next hkept =>
    obtain ⟨es₁, u, s₁, es₂, hengine, hcount, -⟩ := Run.run_bind_eq_ok_iff.mp h
    obtain ⟨engine, -, rfl⟩ := Run.run_zoom_eq_ok_iff.mp hengine
    obtain ⟨rfl, -⟩ := Run.run_modify_eq_ok_iff.mp hcount
    rw [if_neg hkept]

/-- **Every file that is visited is counted for whose it is and for what becomes of it**, and for
nothing else. -/
theorem counts_visit (h : (visit lintFile isLatest root files).run s = (⟨es, .ok none⟩, s')) :
    s'.counts = addVisited isLatest root files s.counts := by
  induction files generalizing s es with
  | nil =>
    obtain ⟨-, rfl, -⟩ := Run.run_pure_eq_ok_iff.mp h
    exact (addVisited_nil _).symm
  | cons file files ih =>
    rw [visit] at h
    obtain ⟨es₁, found, s₁, es₂, hcheck, hgoOn, -⟩ := Run.run_bind_eq_ok_iff.mp h
    rw [run_checkDirectives_eq] at hcheck
    obtain ⟨-, rfl⟩ := Prod.mk.inj hcheck
    cases found with
    | some report =>
      obtain ⟨hnone, -⟩ := Run.run_pure_eq_ok_iff.mp hgoOn
      cases hnone
    | none =>
      obtain ⟨es₃, u, s₂, es₄, happly, hrest, -⟩ := Run.run_bind_eq_ok_iff.mp hgoOn
      rw [ih hrest, counts_applyRules happly, addVisited_cons]

/-- What a banned directive stops has logged that last. -/
theorem last_of_visit {report : String}
    (h : (visit lintFile isLatest root files).run s = (⟨es, .ok (some report)⟩, s')) :
    ∃ file, es.getLast? = some (.logged (stopRecord file)) := by
  induction files generalizing s es with
  | nil =>
    obtain ⟨hnone, -⟩ := Run.run_pure_eq_ok_iff.mp h
    cases hnone
  | cons file files ih =>
    rw [visit] at h
    obtain ⟨es₁, found, s₁, es₂, hcheck, hgoOn, rfl⟩ := Run.run_bind_eq_ok_iff.mp h
    cases found with
    | some found =>
      obtain ⟨-, -, rfl⟩ := Run.run_pure_eq_ok_iff.mp hgoOn
      rw [run_checkDirectives_eq] at hcheck
      obtain ⟨ht, -⟩ := Prod.mk.inj hcheck
      obtain ⟨rfl, hfound⟩ := Traced.mk.inj ht
      obtain ⟨o, hbanned, -⟩ := Option.map_eq_some_iff.mp (Except.ok.inj hfound)
      refine ⟨file, ?_⟩
      rw [hbanned]
      rfl
    | none =>
      obtain ⟨es₃, u, s₂, es₄, happly, hrest, rfl⟩ := Run.run_bind_eq_ok_iff.mp hgoOn
      obtain ⟨stop, hstop⟩ := ih hrest
      refine ⟨stop, ?_⟩
      rw [List.getLast?_append, List.getLast?_append, hstop]
      rfl

theorem eq_bannedReport?_of_visit {found : Option String}
    (h : (visit lintFile isLatest root files).run s = (⟨es, .ok found⟩, s')) :
    found = bannedReport? files := by
  rcases hrun : ((linted isLatest root (examined files)).forM lintFile).run s.engine
    with ⟨⟨es', r⟩, engine⟩
  obtain ⟨es₁, counts, -, hvisit⟩ := run_visit hrun
  obtain ⟨ht, -⟩ := Prod.mk.inj (hvisit.symm.trans h)
  obtain ⟨u, -, hfound⟩ := Except.map_eq_ok_iff.mp (Traced.mk.inj ht).2
  exact hfound.symm

end Visits

/-! ### All files of a program -/

theorem foldl_countSeen (p : Program) (files : List SourceFile) (c : Counts) :
    files.foldl (countSeen p) c =
      { c with
        filesSeen := c.filesSeen + files.length
        defaultLibraryFiles := c.defaultLibraryFiles + (files.filter p.isDefaultLibrary).length } := by
  induction files generalizing c with
  | nil => simp
  | cons file files ih =>
    rw [List.foldl_cons, ih]
    cases hlibrary : p.isDefaultLibrary file <;>
      simp [countSeen, hlibrary, Counts.add] <;> omega

/-- Coming across the files of a program counts each of them. -/
theorem initialCounts_eq (p : Program) :
    initialCounts p = { Counts.zero with
      filesSeen := p.files.length
      defaultLibraryFiles := (p.files.filter p.isDefaultLibrary).length } := by
  rw [initialCounts, foldl_countSeen]
  simp [Counts.zero]

/-- The counts of a pass that gets through a program: each counter is the number of the files that
it is about. -/
def finalCounts (isLatest : Bool) (root : Path) (p : Program) : Counts where
  filesSeen := p.files.length
  defaultLibraryFiles := (p.files.filter p.isDefaultLibrary).length
  dependencyFiles := ((ownFiles p).filter fun f => Path.isDependency f.name).length
  filesScanned := ((ownFiles p).filter fun f => !Path.isDependency f.name).length
  pinnedFilesSkipped := ((ownFiles p).filter (isLeftOut isLatest root)).length
  filesLinted := (linted isLatest root (ownFiles p)).length

theorem addVisited_initialCounts (p : Program) :
    addVisited isLatest root (ownFiles p) (initialCounts p) = finalCounts isLatest root p := by
  rw [initialCounts_eq]
  simp [addVisited, finalCounts, Counts.zero]

/-! ### The end of a pass -/

/-- What a pass logs that has reached its end. -/
def finishRecord (root : Path) (c : Counts) : LogRecord :=
  ⟨.info, Component.passes.logger, finishText root c⟩

/-- A pass has reached its end with counts: no error has ended it, and the last that it has done was
to log them. -/
structure Finishes (pass : Traced (Option String)) (root : Path) (c : Counts) : Prop where
  ended : ∃ report, pass.result = .ok report
  last : pass.events.getLast? = some (.logged (finishRecord root c))

theorem finishRecord_inj {c d : Counts} (h : finishRecord root c = finishRecord root d) :
    c = d := by
  have htext : finishText root c = finishText root d := congrArg LogRecord.text h
  exact Counts.text_inj ((String.append_right_inj _).mp htext)

theorem stopRecord_ne_finishRecord (file : SourceFile) (c : Counts) :
    stopRecord file ≠ finishRecord root c := by
  intro h
  have htext := congrArg (fun r : LogRecord => r.text.toList.head?) h
  unfold stopRecord finishRecord finishText at htext
  -- the two texts have different first letters
  simp [String.toList_append] at htext

section Ends

variable {runner : Runner σ} {config : LintConfig} {p : Program} {e e' : σ} {es : List Event}
  {c : Counts}

theorem run_countingFrom_eq_ok_iff {α : Type} {x : Run (State σ) α} {counts : Counts} {a : α} :
    (countingFrom counts x).run e = (⟨es, .ok (a, c)⟩, e') ↔
      x.run ⟨e, counts⟩ = (⟨es, .ok a⟩, ⟨e', c⟩) := by
  rcases h : x.run ⟨e, counts⟩ with ⟨⟨fs, r⟩, ⟨e₁, c₁⟩⟩
  simp only [countingFrom, h]
  cases r with
  | error f => simp [Except.map]
  | ok b =>
    simp only [Except.map, Prod.mk.injEq, Traced.mk.injEq, Except.ok.injEq, State.mk.injEq]
    tauto

/-- A pass that no error ends is stopped by a banned directive, or reaches its end. -/
theorem last_of_ok {report : Option String}
    (h : (lintProgramWith runner config isLatest root p).run e = (⟨es, .ok report⟩, e')) :
    (bannedReport? (ownFiles p) ≠ none ∧ ∃ file, es.getLast? = some (.logged (stopRecord file))) ∨
    (bannedReport? (ownFiles p) = none ∧
      es.getLast? = some (.logged (finishRecord root (finalCounts isLatest root p)))) := by
  rw [lintProgramWith] at h
  obtain ⟨es₁, ⟨banned, counts⟩, e₁, es₂, hcounting, hrest, rfl⟩ := Run.run_bind_eq_ok_iff.mp h
  have hvisit := run_countingFrom_eq_ok_iff.mp hcounting
  obtain rfl := eq_bannedReport?_of_visit hvisit
  cases hbanned : bannedReport? (ownFiles p) with
  | some text =>
    rw [hbanned] at hvisit hrest
    obtain ⟨-, -, rfl⟩ := Run.run_pure_eq_ok_iff.mp hrest
    rw [List.append_nil]
    exact .inl ⟨Option.some_ne_none text, last_of_visit hvisit⟩
  | none =>
    rw [hbanned] at hvisit hrest
    have hcounts := counts_visit hvisit
    rw [addVisited_initialCounts] at hcounts
    obtain ⟨es₃, result, e₂, es₄, -, hend, rfl⟩ := Run.run_bind_eq_ok_iff.mp hrest
    obtain ⟨es₅, u, e₃, es₆, hlog, hpure, rfl⟩ := Run.run_bind_eq_ok_iff.mp hend
    obtain ⟨-, -, rfl⟩ := Run.run_pure_eq_ok_iff.mp hpure
    obtain ⟨hlog, -⟩ := Run.run_lift_eq_ok_iff.mp hlog
    obtain rfl := Traced.emit_eq_ok_iff.mp hlog
    refine .inr ⟨rfl, ?_⟩
    rw [List.append_nil, ← List.append_assoc, List.getLast?_concat, ← hcounts]
    rfl

/-- **When a pass reaches its end, and what it has counted then.** -/
theorem finishes_iff :
    Finishes ((lintProgramWith runner config isLatest root p).run e).1 root c ↔
      (∃ report, ((lintProgramWith runner config isLatest root p).run e).1.result = .ok report) ∧
        bannedReport? (ownFiles p) = none ∧ c = finalCounts isLatest root p := by
  rcases h : (lintProgramWith runner config isLatest root p).run e with ⟨⟨es, r⟩, e'⟩
  constructor
  · rintro ⟨⟨report, rfl⟩, hlast⟩
    rcases last_of_ok h with ⟨-, file, hstop⟩ | ⟨hbanned, hfinish⟩
    · have hrecord := Event.logged.inj (Option.some.inj (hstop.symm.trans hlast))
      exact absurd hrecord (stopRecord_ne_finishRecord file c)
    · have hrecord := Event.logged.inj (Option.some.inj (hlast.symm.trans hfinish))
      exact ⟨⟨report, rfl⟩, hbanned, finishRecord_inj hrecord⟩
  · rintro ⟨⟨report, rfl⟩, hbanned, rfl⟩
    rcases last_of_ok h with ⟨hstopped, -⟩ | ⟨-, hfinish⟩
    · exact absurd hbanned hstopped
    · exact ⟨⟨report, rfl⟩, hfinish⟩

end Ends

/-! ### The balance of the counters -/

/-- The counters account for every file of a program once, and for every call of the engine. -/
structure Accounts (p : Program) (calls : List (LintConfig × SourceFile)) (c : Counts) : Prop where
  seen : c.filesSeen = p.files.length
  owners : c.filesSeen = c.defaultLibraryFiles + c.dependencyFiles + c.filesScanned
  treatments : c.filesLinted + c.pinnedFilesSkipped = c.dependencyFiles + c.filesScanned
  calls : c.filesLinted = calls.length

theorem owners_finalCounts (isLatest : Bool) (root : Path) (p : Program) :
    (finalCounts isLatest root p).filesSeen =
      (finalCounts isLatest root p).defaultLibraryFiles +
        (finalCounts isLatest root p).dependencyFiles +
          (finalCounts isLatest root p).filesScanned := by
  have hfiles := p.files.length_eq_length_filter_add p.isDefaultLibrary
  have hown := (ownFiles p).length_eq_length_filter_add fun f => Path.isDependency f.name
  have hvisited :
      (p.files.filter fun f => !p.isDefaultLibrary f).length = (ownFiles p).length := rfl
  simp only [finalCounts]
  omega

theorem treatments_finalCounts (isLatest : Bool) (root : Path) (p : Program) :
    (finalCounts isLatest root p).filesLinted + (finalCounts isLatest root p).pinnedFilesSkipped =
      (finalCounts isLatest root p).dependencyFiles +
        (finalCounts isLatest root p).filesScanned := by
  have hown := (ownFiles p).length_eq_length_filter_add fun f => Path.isDependency f.name
  have htreated := (ownFiles p).length_eq_length_filter_add (isLeftOut isLatest root)
  simp only [finalCounts, linted_eq]
  omega

theorem Finishes.accounts {runner : Runner σ} {config : LintConfig} {p : Program} {e : σ}
    {c : Counts} (h : Finishes ((lintProgramWith runner config isLatest root p).run e).1 root c) :
    Accounts p (callsOf runner config isLatest root p e) c := by
  obtain ⟨hok, hbanned, rfl⟩ := finishes_iff.mp h
  refine ⟨rfl, owners_finalCounts isLatest root p, treatments_finalCounts isLatest root p, ?_⟩
  rw [callsOf_eq hbanned hok, List.length_map]
  rfl

/-- A pass that no error ends has loaded a program and a configuration, and then lints the
program. -/
theorem exists_lintProgram_of_run {host : Host} {o : PassOptions} {es : List Event}
    {report : Option String} (h : run host o = ⟨es, .ok report⟩) :
    ∃ p config format es₁ es₂, (programOf host o).result = .ok p ∧
      (Config.active host.workspace (preferredConfig host o) (descriptionOf host o)
        o.low o.high o.localBuild).result = .ok config ∧ formatOf o.format = .ok format ∧
      lintProgram host config o.isLatest (rootOf host o) format p = ⟨es₂, .ok report⟩ ∧
      es = es₁ ++ es₂ := by
  rw [run_eq] at h
  obtain ⟨es₁, p, es₂, hprogram, hrest₁, rfl⟩ := Traced.bind_eq_ok_iff.mp h
  obtain ⟨es₃, format, es₄, hformat, hrest₃, rfl⟩ := Traced.bind_eq_ok_iff.mp hrest₁
  obtain ⟨es₅, config, es₆, hactive, hlint, rfl⟩ := Traced.bind_eq_ok_iff.mp hrest₃
  refine ⟨p, config, format, es₁ ++ (es₃ ++ es₅), es₆, congrArg Traced.result hprogram,
    congrArg Traced.result hactive, (Traced.ofExcept_eq_ok_iff.mp hformat).1, hlint, ?_⟩
  rw [List.append_assoc, List.append_assoc]

/-- What comes before the files of a pass leaves its end as it is. -/
theorem Finishes.lintProgram {host : Host} {o : PassOptions} {c : Counts}
    (h : Finishes (run host o) (rootOf host o) c) :
    ∃ p config format, (programOf host o).result = .ok p ∧
      (Config.active host.workspace (preferredConfig host o) (descriptionOf host o)
        o.low o.high o.localBuild).result = .ok config ∧ formatOf o.format = .ok format ∧
      Finishes (lintProgram host config o.isLatest (rootOf host o) format p) (rootOf host o) c := by
  obtain ⟨⟨report, hok⟩, hlast⟩ := h
  obtain ⟨es, hrun⟩ := Traced.result_eq_ok_iff.mp hok
  obtain ⟨p, config, format, es₁, es₂, hp, hconfig, hformat, hlint, rfl⟩ :=
    exists_lintProgram_of_run hrun
  refine ⟨p, config, format, hp, hconfig, hformat, ⟨report, congrArg Traced.result hlint⟩, ?_⟩
  rw [hrun, List.getLast?_append] at hlast
  rw [hlint]
  -- linting a program logs something at its end, whichever end that is
  rw [lintProgram_eq_builtin] at hlint
  obtain ⟨e, hpass⟩ : ∃ e, (lintProgramWith (builtin host format) config o.isLatest (rootOf host o)
      p).run (Engine.start Expect.Memo.empty) = (⟨es₂, .ok report⟩, e) := ⟨_, Prod.ext hlint rfl⟩
  rcases last_of_ok hpass with ⟨-, file, hstop⟩ | ⟨-, hfinish⟩
  · rw [hstop] at hlast ⊢
    exact hlast
  · rw [hfinish] at hlast ⊢
    exact hlast

/-- **A pass that reaches its end has accounted for every file exactly once**, for any program, any
configuration, newest compilers or not, and any engine: the files seen are all files of the program,
and each is the compiler's own, of a dependency or scanned; of those of the last two kinds each was
linted or left to another pass, and linted were as many as the engine was called for.  That is so in
the pass that is run, with the engine that comes with the linter. -/
theorem accounts_of_finishes :
    (∀ (σ : Type) (runner : Runner σ) (config : LintConfig) (isLatest : Bool) (root : Path)
      (p : Program) (e : σ) (c : Counts),
      Finishes ((lintProgramWith runner config isLatest root p).run e).1 root c →
        Accounts p (callsOf runner config isLatest root p e) c) ∧
    ∀ (host : Host) (o : PassOptions) (c : Counts), Finishes (run host o) (rootOf host o) c →
      ∃ p config format, (programOf host o).result = .ok p ∧
        (Config.active host.workspace (preferredConfig host o) (descriptionOf host o)
          o.low o.high o.localBuild).result = .ok config ∧ formatOf o.format = .ok format ∧
        Accounts p (callsOf (builtin host format) config o.isLatest (rootOf host o) p
          (Engine.start Expect.Memo.empty)) c := by
  constructor
  · intro σ runner config isLatest root p e c h
    exact h.accounts
  · intro host o c h
    obtain ⟨p, config, format, hp, hconfig, hformat, hfinishes⟩ := h.lintProgram
    -- from here on it is a pass with an engine like any other
    rw [lintProgram_eq_builtin] at hfinishes
    exact ⟨p, config, format, hp, hconfig, hformat, hfinishes.accounts⟩

/-- A program with a library file, a file of the package, and two dependencies, one of which lies in
a version folder. -/
def everyKind : Program where
  files :=
    [⟨"/lib.d.ts", "// @ts-ignore"⟩, ⟨"/p/a.ts", ""⟩, ⟨"/p/node_modules/d.ts", "// @ts-ignore"⟩,
      ⟨"/p/ts5.5/node_modules/d.ts", ""⟩]
  defaultLibrary := ["/lib.d.ts"]

/-- The options for a pass over it for the newest compilers. -/
def everyKindOptions : PassOptions :=
  { sampleOptions with isLatest := true, program := some everyKind }

theorem accounts_everyKind :
    Finishes (run noFilesHost everyKindOptions) (rootOf noFilesHost everyKindOptions)
      ⟨4, 1, 2, 1, 1, 2⟩ ∧
    ∃ p config format, (programOf noFilesHost everyKindOptions).result = .ok p ∧
      (Config.active noFilesHost.workspace (preferredConfig noFilesHost everyKindOptions)
        (descriptionOf noFilesHost everyKindOptions) everyKindOptions.low everyKindOptions.high
        everyKindOptions.localBuild).result = .ok config ∧
      formatOf everyKindOptions.format = .ok format ∧
      Accounts p (callsOf (builtin noFilesHost format) config true
        (rootOf noFilesHost everyKindOptions) p (Engine.start Expect.Memo.empty))
        ⟨4, 1, 2, 1, 1, 2⟩ := by
  -- the pass is evaluated once for both
  have hends : (run noFilesHost everyKindOptions).result.toOption = some none ∧
      (run noFilesHost everyKindOptions).events.getLast? = some (.logged
        (finishRecord (rootOf noFilesHost everyKindOptions) ⟨4, 1, 2, 1, 1, 2⟩)) := by
    decide +kernel
  have hfinishes : Finishes (run noFilesHost everyKindOptions)
      (rootOf noFilesHost everyKindOptions) ⟨4, 1, 2, 1, 1, 2⟩ :=
    ⟨⟨none, Except.toOption_eq_some_iff.mp hends.1⟩, hends.2⟩
  exact ⟨hfinishes, accounts_of_finishes.2 _ _ _ hfinishes⟩

end DeclLint.Pass
