/-
DeclLint/Proofs/Rule/Session.lean

The calls of the rule `expect`, one after the other, on one memory.  A call
looks at its file with each compiler of its options: these are its *uses*, and
a compiler comes again where the project and the install are the same.

Next to the rule stands one that has no memory: it runs the compiler for each
use anew, and is told which uses are the first ones of their compilers (`plain`).
The rule does the same with one start for each compiler (`session_likePlain`).
The invariant is that what is remembered are the compilers used so far, in the
order of their first uses (`Remembers`); a use keeps it (`exists_run_applyVersion`),
so a call does (`exists_run_rule`), and so do all calls.

This takes outputs that can be read.  Nothing is remembered of a compiler with
an output that cannot, so it is started again (`starts_session_of_unreadable`).
-/
import DeclLint.Proofs.Compiler.Diagnostic
import DeclLint.Proofs.Rule.Expect
import Mathlib.Data.List.Basic

namespace DeclLint

namespace Expect

variable {w : Workspace} {compiler : Compiler}

/-! ### Calls and uses -/

/-- A call of the rule. -/
structure Call where
  file : SourceFile
  arguments : List RuleArgument

/-- A file that is looked at with a compiler. -/
structure Use where
  file : SourceFile
  project : Path
  version : VersionToTest

/-- What the diagnostics of the compiler are kept under. -/
def Use.key (u : Use) : Key :=
  keyOf u.project u.version

/-- The uses that options ask for. -/
def usesOf (file : SourceFile) (options : ExpectOptions) : List Use :=
  options.versionsToTest.map (Use.mk file (Path.ofString options.tsconfigPath))

/-- The uses of a call: none if its arguments hold no options. -/
def Call.uses (c : Call) : List Use :=
  match ExpectOptions.ofArguments c.arguments with
  | .ok options => usesOf c.file options
  | .error _ => []

/-- The calls, one after the other; what one of them remembers is there for the next, also where
it ends in an error. -/
def session (w : Workspace) (compiler : Compiler) (m : Memo) :
    List Call → List (Traced (List Failure))
  | [] => []
  | c :: cs =>
    let (t, m') := (rule w compiler c.file c.arguments).run m
    t :: session w compiler m' cs

theorem session_cons {m m' : Memo} {c : Call} {t : Traced (List Failure)}
    (h : (rule w compiler c.file c.arguments).run m = (t, m')) (cs : List Call) :
    session w compiler m (c :: cs) = t :: session w compiler m' cs := by
  rw [session, h]

/-- What the calls return altogether. -/
def returned (ts : List (Traced (List Failure))) : List Failure :=
  ts.flatMap fun t => t.result.toOption.getD []

/-! ### Without a memory -/

/-- Each use, with whether it is the first one of its compiler. -/
def marked (seen : List Key) : List Use → List (Use × Bool)
  | [] => []
  | u :: us => (u, !seen.contains u.key) :: marked (seen ++ [u.key]) us

/-- A use for which the compiler is run. -/
def plainUse (w : Workspace) (compiler : Compiler) (u : Use) (first : Bool) :
    Except LintError (List Failure) :=
  (compiled w compiler u.project u.version.path).map (failuresIn u.file u.version first)

/-- A call of a rule that has no memory, where the compilers `seen` have been used before. -/
def plainCall (w : Workspace) (compiler : Compiler) (seen : List Key) (c : Call) :
    Except LintError (List Failure) := do
  let options ← ExpectOptions.ofArguments c.arguments
  let failures ← (marked seen (usesOf c.file options)).mapM fun (u, first) =>
    plainUse w compiler u first
  return failures.flatten

/-- The calls of a rule that has no memory, one after the other. -/
def plain (w : Workspace) (compiler : Compiler) (seen : List Key) :
    List Call → List (Except LintError (List Failure))
  | [] => []
  | c :: cs => plainCall w compiler seen c :: plain w compiler (seen ++ c.uses.map Use.key) cs

/-- The compiler of a use finishes with an output. -/
def Use.Finishes (w : Workspace) (compiler : Compiler) (u : Use) : Prop :=
  ∃ output, (compiler.check w u.version.path u.project).result = .ok output

/-- The compiler of a use finishes with an output that can be read. -/
def Use.Answers (w : Workspace) (compiler : Compiler) (u : Use) : Prop :=
  ∃ output ds, (compiler.check w u.version.path u.project).result = .ok output ∧
    Diagnostic.read u.project.parent output = .ok ds

theorem Use.answers_iff {u : Use} :
    u.Answers w compiler ↔ ∃ ds, compiled w compiler u.project u.version.path = .ok ds := by
  simp only [compiled, Traced.result_eq_ok_iff, check_eq_ok_iff, Use.Answers]
  constructor
  · rintro ⟨output, ds, ⟨es, hes⟩, hread⟩
    exact ⟨ds, es, output, hes, hread⟩
  · rintro ⟨ds, es, output, hes, hread⟩
    exact ⟨output, ds, ⟨es, hes⟩, hread⟩

theorem Use.Answers.compiled_eq {u : Use} (h : u.Answers w compiler) :
    compiled w compiler u.project u.version.path = .ok (said w compiler u.project u.version) := by
  obtain ⟨ds, hds⟩ := Use.answers_iff.mp h
  rw [hds, said_eq hds]

/-- The failures about the whole project. -/
def Use.projectFailures (w : Workspace) (compiler : Compiler) (u : Use) : List Failure :=
  Expect.projectFailures u.file u.version (said w compiler u.project u.version)

/-- The failures about the file alone. -/
def Use.fileFailures (w : Workspace) (compiler : Compiler) (u : Use) : List Failure :=
  failuresIn u.file u.version false (said w compiler u.project u.version)

/-- What a use comes to. -/
def Use.failures (w : Workspace) (compiler : Compiler) (u : Use) (first : Bool) : List Failure :=
  failuresIn u.file u.version first (said w compiler u.project u.version)

theorem Use.failures_eq (u : Use) (first : Bool) :
    u.failures w compiler first =
      (if first then u.projectFailures w compiler else []) ++ u.fileFailures w compiler :=
  rfl

/-- What uses come to. -/
def failuresOf (w : Workspace) (compiler : Compiler) (seen : List Key) (us : List Use) :
    List Failure :=
  (marked seen us).flatMap fun (u, first) => u.failures w compiler first

theorem marked_append (seen : List Key) (us vs : List Use) :
    marked seen (us ++ vs) = marked seen us ++ marked (seen ++ us.map Use.key) vs := by
  induction us generalizing seen with
  | nil => simp [marked]
  | cons u us ih =>
    rw [List.cons_append, marked, marked, ih, List.cons_append, List.map_cons, List.append_assoc]
    rfl

theorem failuresOf_append (seen : List Key) (us vs : List Use) :
    failuresOf w compiler seen (us ++ vs) =
      failuresOf w compiler seen us ++ failuresOf w compiler (seen ++ us.map Use.key) vs := by
  rw [failuresOf, marked_append, List.flatMap_append]
  rfl

theorem fst_mem_of_mem_marked {seen : List Key} {us : List Use} {p : Use × Bool}
    (h : p ∈ marked seen us) : p.1 ∈ us := by
  induction us generalizing seen with
  | nil => cases h
  | cons u us ih =>
    rcases List.mem_cons.mp h with rfl | h
    · exact List.mem_cons_self
    · exact List.mem_cons_of_mem _ (ih h)

/-- Where every compiler answers, the rule without a memory returns what the uses come to. -/
theorem plainCall_eq_ok {c : Call} {options : ExpectOptions} {seen : List Key}
    (hoptions : ExpectOptions.ofArguments c.arguments = .ok options)
    (h : ∀ u ∈ usesOf c.file options, u.Answers w compiler) :
    plainCall w compiler seen c =
      .ok (failuresOf w compiler seen (usesOf c.file options)) := by
  have hus : (marked seen (usesOf c.file options)).mapM
      (fun p => plainUse w compiler p.1 p.2) =
        .ok ((marked seen (usesOf c.file options)).map fun p =>
          p.1.failures w compiler p.2) := by
    refine Except.mapM_eq_ok fun p hp => ?_
    rw [plainUse, (h p.1 (fst_mem_of_mem_marked hp)).compiled_eq]
    rfl
  refine Except.bind_eq_ok_iff.mpr ⟨options, hoptions, ?_⟩
  exact Except.bind_eq_ok_iff.mpr ⟨_, hus, rfl⟩

/-! ### First uses -/

/-- The first use of each compiler. -/
def firstUses (us : List Use) : List Use :=
  (us.map Use.key).eraseDups.filterMap fun k => us.find? fun u => u.key = k

theorem firstUses_concat (us : List Use) (u : Use) :
    firstUses (us ++ [u]) =
      if u.key ∈ us.map Use.key then firstUses us else firstUses us ++ [u] := by
  -- whatever has been used before is found where it was
  have hbefore : (us.map Use.key).eraseDups.filterMap
      (fun k => (us ++ [u]).find? fun v => v.key = k) = firstUses us := by
    refine List.filterMap_congr fun k hk => ?_
    rw [List.find?_append]
    obtain ⟨v, hv, rfl⟩ := List.mem_map.mp (List.mem_eraseDups.mp hk)
    exact Option.or_of_isSome (List.find?_isSome.mpr ⟨v, hv, by simp⟩)
  rw [firstUses, List.map_append, List.map_singleton, List.eraseDups_concat]
  by_cases hu : u.key ∈ us.map Use.key
  · rw [if_pos hu, if_pos hu, hbefore]
  · have hnone : us.find? (fun v => v.key = u.key) = none := by
      refine List.find?_eq_none.mpr fun v hv hkey => hu ?_
      exact List.mem_map.mpr ⟨v, hv, by simpa using hkey⟩
    have hlast : (us ++ [u]).find? (fun v => v.key = u.key) = some u := by
      rw [List.find?_append, hnone]
      simp
    rw [if_neg hu, if_neg hu, List.filterMap_append, hbefore, List.filterMap_cons, hlast]
    rfl

/-- The failures about the whole project come once for each compiler, those about files with each
use. -/
theorem failuresOf_perm (us : List Use) :
    (failuresOf w compiler [] us).Perm
      ((firstUses us).flatMap (Use.projectFailures w compiler) ++
        us.flatMap (Use.fileFailures w compiler)) := by
  induction us using List.reverseRecOn with
  | nil => exact .refl _
  | append_singleton us u ih =>
    have hlast : failuresOf w compiler ([] ++ us.map Use.key) [u] =
        (if u.key ∈ us.map Use.key then [] else u.projectFailures w compiler) ++
          u.fileFailures w compiler := by
      simp only [failuresOf, marked, List.flatMap_cons, List.flatMap_nil, List.append_nil,
        List.nil_append, Use.failures_eq, Bool.not_eq_true', ← Bool.not_eq_true,
        List.contains_iff_mem, ite_not]
    have hfirst : (firstUses (us ++ [u])).flatMap (Use.projectFailures w compiler) =
        (firstUses us).flatMap (Use.projectFailures w compiler) ++
          (if u.key ∈ us.map Use.key then [] else u.projectFailures w compiler) := by
      rw [firstUses_concat]
      split
      · exact (List.append_nil _).symm
      · rw [List.flatMap_append, List.flatMap_singleton]
    rw [failuresOf_append, hlast, hfirst, List.flatMap_append, List.flatMap_singleton,
      List.append_assoc]
    -- what is about the project moves before what was about files
    refine (ih.append_right _).trans ?_
    rw [List.append_assoc]
    exact (List.perm_append_comm_assoc _ _ _).append_left _

/-! ### One use -/

/-- The start of a compiler. -/
def startOfKey (k : Key) : CompilerStart :=
  startOf k.1 k.2

/-- The memory after the use of some compilers: it is valid, and they are the ones remembered. -/
structure Remembers (w : Workspace) (compiler : Compiler) (seen : List Key) (m : Memo) : Prop where
  valid : m.Valid w compiler
  reported : m.reported = seen.eraseDups

/-- What it comes to that further compilers are used: they are remembered, and the compilers
started are the ones that were not remembered before. -/
structure Looked (w : Workspace) (compiler : Compiler) (seen ks : List Key)
    (starts : List CompilerStart) (m : Memo) : Prop where
  memory : Remembers w compiler (seen ++ ks) m
  starts : seen.eraseDups.map startOfKey ++ starts = (seen ++ ks).eraseDups.map startOfKey

theorem Remembers.looked {seen : List Key} {m : Memo} (h : Remembers w compiler seen m) :
    Looked w compiler seen [] [] m := by
  rw [← List.append_nil seen] at h
  exact ⟨h, by rw [List.append_nil, List.append_nil]⟩

theorem Looked.append {seen ks ls : List Key} {ss ts : List CompilerStart} {m m' : Memo}
    (h : Looked w compiler seen ks ss m) (h' : Looked w compiler (seen ++ ks) ls ts m') :
    Looked w compiler seen (ks ++ ls) (ss ++ ts) m' := by
  refine ⟨?_, ?_⟩
  · rw [← List.append_assoc]
    exact h'.memory
  · rw [← List.append_assoc, ← List.append_assoc, h.starts, h'.starts]

/-- A use of a compiler that answers. -/
theorem exists_run_applyVersion {seen : List Key} {m : Memo} {u : Use}
    (hm : Remembers w compiler seen m) (h : u.Answers w compiler) :
    ∃ es m', (applyVersion w compiler u.project u.file u.version).run m =
        (⟨es, .ok (u.failures w compiler (!seen.contains u.key))⟩, m') ∧
      Looked w compiler seen [u.key] (Event.starts es) m' := by
  have hmem : u.key ∈ m.reported ↔ u.key ∈ seen := by
    rw [hm.reported, List.mem_eraseDups]
  have hds := h.compiled_eq
  by_cases hu : u.key ∈ seen
  -- the compiler is remembered
  · obtain ⟨ds, hds', hrun⟩ := run_applyVersion_of_mem u.file hm.valid (hmem.mpr hu)
    obtain rfl := Except.ok.inj (hds.symm.trans hds')
    have hkeys : (seen ++ [u.key]).eraseDups = seen.eraseDups := by
      rw [List.eraseDups_concat, if_pos hu]
    refine ⟨[], m, ?_, ⟨hm.valid, ?_⟩, ?_⟩
    · rw [List.contains_iff_mem.mpr hu]
      exact hrun
    · rw [hm.reported, hkeys]
    · rw [hkeys]
      exact List.append_nil _
  -- it is run, and remembered
  · have hnew : u.key ∉ m.reported := fun hk => hu (hmem.mp hk)
    have hrun := run_applyVersion_of_notMem u.file hm.valid hnew
    rw [hds] at hrun
    have hkeys : (seen ++ [u.key]).eraseDups = seen.eraseDups ++ [u.key] := by
      rw [List.eraseDups_concat, if_neg hu]
    refine ⟨[.logged (announcement u.project u.version)] ++
        (check w compiler u.project u.version.path).events,
      m.remember u.key (said w compiler u.project u.version), ?_,
      ⟨hm.valid.remember hnew hds, ?_⟩, ?_⟩
    · have hcontains : seen.contains u.key = false := by simpa using hu
      rw [hcontains]
      exact hrun
    · rw [hkeys, ← hm.reported]
      rfl
    · rw [hkeys, List.map_append, Event.starts_append]
      exact congrArg (_ ++ ·) (starts_check hds)

/-- Uses one after the other, repeated compilers among them. -/
theorem exists_run_uses {seen : List Key} {m : Memo} {us : List Use}
    (hm : Remembers w compiler seen m) (h : ∀ u ∈ us, u.Answers w compiler) :
    ∃ es m', (us.mapM fun u => applyVersion w compiler u.project u.file u.version).run m =
        (⟨es, .ok ((marked seen us).map fun (u, first) => u.failures w compiler first)⟩, m') ∧
      Looked w compiler seen (us.map Use.key) (Event.starts es) m' := by
  induction us generalizing seen m with
  | nil => exact ⟨[], m, rfl, hm.looked⟩
  | cons u us ih =>
    obtain ⟨hu, hus⟩ := List.forall_mem_cons.mp h
    obtain ⟨es, m₁, hrun, hlooked⟩ := exists_run_applyVersion hm hu
    obtain ⟨fs, m₂, hruns, hlookeds⟩ := ih hlooked.memory hus
    refine ⟨es ++ fs, m₂, ?_, ?_⟩
    · rw [List.mapM_cons]
      refine Run.run_bind_of_ok hrun ?_
      rw [← List.append_nil fs]
      exact Run.run_bind_of_ok hruns rfl
    · rw [Event.starts_append]
      exact hlooked.append hlookeds

/-! ### One call -/

/-- A call returns what the rule without a memory returns. -/
theorem exists_run_rule {seen : List Key} {m : Memo} {c : Call}
    (hm : Remembers w compiler seen m) (h : ∀ u ∈ c.uses, u.Answers w compiler) :
    ∃ t m', (rule w compiler c.file c.arguments).run m = (t, m') ∧
      t.result = plainCall w compiler seen c ∧
      t.result.toOption.getD [] = failuresOf w compiler seen c.uses ∧
      Looked w compiler seen (c.uses.map Use.key) t.starts m' := by
  rcases hoptions : ExpectOptions.ofArguments c.arguments with e | options
  -- without options nothing is used, and both end in the same error
  · have huses : c.uses = [] := by
      rw [Call.uses, hoptions]
    have hrule : (rule w compiler c.file c.arguments).run m = (⟨[], .error e⟩, m) := by
      rw [rule, hoptions]
      rfl
    have hplain : plainCall w compiler seen c = .error e := by
      rw [plainCall, hoptions]
      rfl
    rw [huses]
    exact ⟨_, m, hrule, hplain.symm, rfl, hm.looked⟩
  · have huses : c.uses = usesOf c.file options := by
      rw [Call.uses, hoptions]
    rw [huses] at h
    obtain ⟨es, m', hrun, hlooked⟩ := exists_run_uses hm h
    rw [usesOf, List.mapM_map] at hrun
    have hrule : (rule w compiler c.file c.arguments).run m =
        (⟨es, .ok (failuresOf w compiler seen (usesOf c.file options))⟩, m') := by
      rw [rule_eq hoptions, ← List.append_nil es]
      exact Run.run_bind_of_ok hrun rfl
    rw [huses]
    exact ⟨_, m', hrule, (plainCall_eq_ok hoptions h).symm, rfl, hlooked⟩

/-! ### All calls -/

/-- The calls do what those of a rule without a memory do, but run each compiler once. -/
structure LikePlain (w : Workspace) (compiler : Compiler) (calls : List Call) : Prop where
  /-- Each call returns the same, or ends in the same error. -/
  results : (session w compiler Memo.empty calls).map (·.result) = plain w compiler [] calls
  /-- Each compiler is started once, in the order of their first uses. -/
  starts : (session w compiler Memo.empty calls).flatMap Traced.starts =
    ((calls.flatMap Call.uses).map Use.key).eraseDups.map startOfKey
  /-- A diagnostic about the whole project is reported once, with the first use of its compiler;
  everything else that is reported is about the file of a use. -/
  reported : (returned (session w compiler Memo.empty calls)).Perm
    ((firstUses (calls.flatMap Call.uses)).flatMap (Use.projectFailures w compiler) ++
      (calls.flatMap Call.uses).flatMap (Use.fileFailures w compiler))

/-- What the calls come to, from any memory on. -/
theorem session_of_remembers {seen : List Key} {m : Memo} {calls : List Call}
    (hm : Remembers w compiler seen m) (h : ∀ u ∈ calls.flatMap Call.uses, u.Answers w compiler) :
    (session w compiler m calls).map (·.result) = plain w compiler seen calls ∧
    returned (session w compiler m calls) =
      failuresOf w compiler seen (calls.flatMap Call.uses) ∧
    seen.eraseDups.map startOfKey ++ (session w compiler m calls).flatMap Traced.starts =
      (seen ++ (calls.flatMap Call.uses).map Use.key).eraseDups.map startOfKey := by
  induction calls generalizing seen m with
  | nil => exact ⟨rfl, rfl, by simp [session]⟩
  | cons c cs ih =>
    rw [List.flatMap_cons, List.forall_mem_append] at h
    obtain ⟨t, m', hrun, hplain, hreturned, hlooked⟩ := exists_run_rule hm h.1
    obtain ⟨hplains, hreturneds, hstarts⟩ := ih hlooked.memory h.2
    rw [session_cons hrun]
    refine ⟨?_, ?_, ?_⟩
    · rw [List.map_cons, plain, hplain, hplains]
    · rw [List.flatMap_cons, failuresOf_append, ← hreturned, ← hreturneds]
      rfl
    · rw [List.flatMap_cons, List.flatMap_cons, List.map_append, ← List.append_assoc,
        ← List.append_assoc, hlooked.starts, hstarts]

/-- **The memory changes nothing but what is run**, over any calls of the rule with any files,
texts and arguments: where the compilers that are used finish with outputs that can be read, each
call returns what a rule without a memory returns, each compiler is started once, in the order of
their first uses, and each diagnostic about a whole project is reported once. -/
theorem session_likePlain {calls : List Call}
    (h : ∀ u ∈ calls.flatMap Call.uses, u.Answers w compiler) : LikePlain w compiler calls := by
  have hempty : Remembers w compiler [] Memo.empty := ⟨Memo.valid_empty, rfl⟩
  obtain ⟨hresults, hreturned, hstarts⟩ := session_of_remembers hempty h
  refine ⟨hresults, hstarts, ?_⟩
  rw [hreturned]
  exact failuresOf_perm _

/-- A workspace with two installed compilers. -/
def twoInstalls : Workspace where
  tree := (FileTree.empty.writeFile ["i", "5.5", "lib", "tsc.js"] []).writeFile
    ["i", "5.6", "lib", "tsc.js"] []
  cwd := []
  environment := []

/-- The first of them finds an error in the project and one in a file, the other finds nothing. -/
def twoCompilers : Compiler := fun s =>
  if s.script = Compiler.scriptPath "/i/5.5" then
    .finished "error TS5055: g\na.ts(1,1): error TS2304: m\n" "" 2
  else .finished "" "" 0

/-- The options with some of their installs. -/
def testedWith (installs : List String) : RuleArgument :=
  .expect ⟨"/p/tsconfig.json", installs.map fun i => ⟨i, "/i/" ++ i⟩⟩

/-- Two files, the first one with the same compiler twice; in between no options are given. -/
def mixedCalls : List Call :=
  [⟨⟨"/p/a.ts", "f();"⟩, [testedWith ["5.6", "5.5", "5.5"]]⟩, ⟨⟨"/p/b.ts", ""⟩, []⟩,
    ⟨⟨"/p/b.ts", "g(); // $ExpectError"⟩, [testedWith ["5.5", "5.6"]]⟩]

theorem session_likePlain_mixed :
    (∀ u ∈ mixedCalls.flatMap Call.uses, u.Answers twoInstalls twoCompilers) ∧
      LikePlain twoInstalls twoCompilers mixedCalls := by
  have hanswers : ∀ u ∈ mixedCalls.flatMap Call.uses, u.Answers twoInstalls twoCompilers := by
    intro u hu
    have hsome : ∀ u ∈ mixedCalls.flatMap Call.uses,
        (compiled twoInstalls twoCompilers u.project u.version.path).toOption.isSome := by
      decide +kernel
    obtain ⟨ds, hds⟩ := Option.isSome_iff_exists.mp (hsome u hu)
    exact Use.answers_iff.mpr ⟨ds, Except.toOption_eq_some_iff.mp hds⟩
  exact ⟨hanswers, session_likePlain hanswers⟩

-- the second call starts nothing, and neither does the repeated install or the last call
example : (session twoInstalls twoCompilers Memo.empty mixedCalls).flatMap Traced.starts =
    [startOf (Path.ofString "/p/tsconfig.json") "/i/5.6",
      startOf (Path.ofString "/p/tsconfig.json") "/i/5.5"] := by
  decide +kernel

/-! ### An output that cannot be read -/

/-- The compiler of a use finishes with an output that cannot be read. -/
def Use.Unreadable (w : Workspace) (compiler : Compiler) (u : Use) : Prop :=
  ∃ output excess, (compiler.check w u.version.path u.project).result = .ok output ∧
    Diagnostic.read u.project.parent output = .error excess

/-- Such a compiler is started, and nothing of it is remembered. -/
theorem exists_run_applyVersion_of_unreadable {m : Memo} (hm : m.Valid w compiler) {u : Use}
    (hu : u.key ∉ m.reported) (h : u.Unreadable w compiler) :
    ∃ es e, (applyVersion w compiler u.project u.file u.version).run m = (⟨es, .error e⟩, m) ∧
      Event.starts es = [startOfKey u.key] := by
  obtain ⟨output, excess, houtput, hread⟩ := h
  obtain ⟨es, hes⟩ := Traced.result_eq_ok_iff.mp houtput
  refine ⟨[.logged (announcement u.project u.version)] ++ es, .excess excess, ?_, ?_⟩
  · rw [run_applyVersion_of_notMem u.file hm hu, compiled, check_of_unreadable hes hread]
    rfl
  · rw [Event.starts_append, starts_of_finished hes]
    rfl

/-- A call ends with the first of its uses that cannot be read. -/
theorem exists_run_rule_of_unreadable {m : Memo} (hm : m.Valid w compiler) {c : Call} {u : Use}
    {us : List Use} (huses : c.uses = u :: us) (hu : u.key ∉ m.reported)
    (h : u.Unreadable w compiler) :
    ∃ t, (rule w compiler c.file c.arguments).run m = (t, m) ∧
      t.starts = [startOfKey u.key] := by
  rcases hoptions : ExpectOptions.ofArguments c.arguments with e | options
  · rw [Call.uses, hoptions] at huses
    cases huses
  · rw [Call.uses, hoptions] at huses
    obtain ⟨v, vs, hversions, rfl, rfl⟩ := List.map_eq_cons_iff.mp huses
    obtain ⟨es, e, hrun, hstarts⟩ := exists_run_applyVersion_of_unreadable hm hu h
    refine ⟨⟨es, .error e⟩, ?_, hstarts⟩
    rw [rule_eq hoptions, hversions, List.mapM_cons]
    exact Run.run_bind_error (Run.run_bind_error hrun)

/-- Each call starts the compiler again. -/
theorem starts_session_of_unreadable {m : Memo} (hm : m.Valid w compiler) {c : Call} {u : Use}
    {us : List Use} (huses : c.uses = u :: us) (hu : u.key ∉ m.reported)
    (h : u.Unreadable w compiler) (n : Nat) :
    (session w compiler m (List.replicate n c)).flatMap Traced.starts =
      List.replicate n (startOfKey u.key) := by
  obtain ⟨t, hrun, hstarts⟩ := exists_run_rule_of_unreadable hm huses hu h
  induction n with
  | zero => rfl
  | succ n ih =>
    rw [List.replicate_succ, session_cons hrun, List.flatMap_cons, hstarts, ih]
    rfl

/-- An error on a line whose number is too long to be read. -/
def overlong : Diagnostic.Printed where
  file := ['a']
  line := List.replicate (digitLimit + 1) '9'
  character := ['1']
  number := ['1']
  message := ['m']

theorem isPlain_overlong : overlong.IsPlain where
  file_ne_nil := List.cons_ne_nil _ _
  file_paren := by decide
  file_unbroken := by decide
  line := ⟨List.cons_ne_nil _ _, List.all_eq_true.mpr fun c hc => by
    obtain rfl := List.eq_of_mem_replicate hc
    decide⟩
  character := ⟨List.cons_ne_nil _ _, by decide⟩
  number := ⟨List.cons_ne_nil _ _, by decide⟩
  message_unbroken := by decide

/-- A compiler that prints one error. -/
def printing (p : Diagnostic.Printed) : Compiler :=
  fun _ => .finished (String.ofList p.text) "" 2

theorem result_check_printing {p : Diagnostic.Printed} (hp : p.IsPlain) {install : String}
    (h : w.isFile (Compiler.scriptPath install) = .ok true) (project : Path) :
    ((printing p).check w install project).result = .ok (String.ofList p.text) := by
  rw [compilerCheck_of_there h]
  exact Compiler.outputOf_of_occursIn (Diagnostic.Printed.occursIn_text hp) _ "" 2

/-- A call that looks at a file with one compiler. -/
def singleCall : Call :=
  ⟨⟨"/p/a.ts", ""⟩, [testedWith ["5.6"]]⟩

/-- The one use of the call. -/
def singleUse : Use :=
  ⟨⟨"/p/a.ts", ""⟩, Path.ofString "/p/tsconfig.json", ⟨"5.6", "/i/5.6"⟩⟩

theorem result_check_overlong :
    ((printing overlong).check twoInstalls singleUse.version.path singleUse.project).result =
      .ok (String.ofList overlong.text) :=
  result_check_printing isPlain_overlong (by decide +kernel) _

theorem unreadable_printing {u : Use}
    (h : w.isFile (Compiler.scriptPath u.version.path) = .ok true) :
    u.Unreadable w (printing overlong) := by
  have hlong : digitLimit < overlong.line.length := by
    rw [overlong, List.length_replicate]
    exact Nat.lt_succ_self _
  exact ⟨_, _, result_check_printing isPlain_overlong h _,
    Diagnostic.Printed.read_text_of_long isPlain_overlong hlong _⟩

theorem unreadable_overlong : singleUse.Unreadable twoInstalls (printing overlong) :=
  unreadable_printing (by decide +kernel)

/-- It is not enough that the compilers finish: one with an output that cannot be read is started
by each call. -/
theorem not_likePlain_of_finishes : ¬ ∀ (w : Workspace) (compiler : Compiler) (calls : List Call),
    (∀ u ∈ calls.flatMap Call.uses, u.Finishes w compiler) → LikePlain w compiler calls := by
  intro hall
  have huses : singleCall.uses = [singleUse] := rfl
  have hcalls : (List.replicate 2 singleCall).flatMap Call.uses = [singleUse, singleUse] :=
    rfl
  have hfinishes : ∀ u ∈ (List.replicate 2 singleCall).flatMap Call.uses,
      u.Finishes twoInstalls (printing overlong) := by
    rw [hcalls]
    intro u hu
    obtain rfl : u = singleUse := by simpa using hu
    exact ⟨_, result_check_overlong⟩
  have hstarts := (hall twoInstalls (printing overlong) _ hfinishes).starts
  rw [starts_session_of_unreadable Memo.valid_empty huses List.not_mem_nil unreadable_overlong,
    hcalls] at hstarts
  have hlength := congrArg List.length hstarts
  rw [List.length_replicate, List.length_map] at hlength
  exact absurd hlength (by decide +kernel)

end Expect

end DeclLint
