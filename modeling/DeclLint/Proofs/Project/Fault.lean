/-
DeclLint/Proofs/Project/Fault.lean

What building a program fails with.  A tsconfig.json that is absent, that holds no JSON
object, whose lists are none, or that lists a file that is not there makes a fault of
the project, and says so.  Not every tsconfig.json does.  What is in it may be no text
or go beyond a limit of its own, and then this is what building ends in, always
(`EscapesReading`).  Where it can be read, the names and patterns that it selects files
with may still go beyond the limits on paths and patterns, and so may what lies below
the root, which is searched (`EscapesSelecting`).

`build_error_cases` says that there is nothing else.  The parts of a build are gone
through in their order, and each hands on what is known of the one before: a file that
was read lies in a directory that is not too long to be looked up (`locate_parent`), and
what was collected was found, or lies below this directory.
-/
import DeclLint.Proofs.Fault
import DeclLint.Proofs.Path.Pinned
import DeclLint.Proofs.Project.Exclusion
import DeclLint.Proofs.Project.Placed

namespace DeclLint

/-! ### Paths that are read -/

namespace Path

variable {p : Path}

/-- A path without names is its own directory; any other goes on from its directory by a name. -/
theorem parent_cases (p : Path) :
    p.parent = p ∨ ∃ name, p = ⟨p.parent.root, p.parent.segments ++ [name]⟩ := by
  obtain ⟨root, segments⟩ := p
  rcases List.eq_nil_or_concat' segments with rfl | ⟨front, name, rfl⟩
  · exact .inl rfl
  · refine .inr ⟨name, congrArg (Path.mk root) ?_⟩
    rw [parent, List.dropLast_concat]

/-- A path that is not too long lies in a directory that is not, either. -/
theorem toString_parent_le (h : p.toString.utf8ByteSize ≤ pathLimit) :
    p.parent.toString.utf8ByteSize ≤ pathLimit := by
  rcases parent_cases p with hparent | ⟨name, hp⟩
  · rwa [hparent]
  · by_cases hfront : p.parent.segments = []
    -- only the root is left, or a dot
    · have hroot : p.parent = ⟨p.root, []⟩ := congrArg (Path.mk p.root) hfront
      rw [hroot]
      cases p.root <;> decide +kernel
    · have htext : p.toString = p.parent.toString ++ "/" ++ String.intercalate "/" [name] :=
        (congrArg toString hp).trans (toString_append hfront (List.cons_ne_nil name []))
      rw [htext, String.utf8ByteSize_append, String.utf8ByteSize_append] at h
      omega

end Path

namespace Workspace

variable {w : Workspace} {p : Path}

/-- The directory of a path that leads somewhere can be looked up. -/
theorem locate_parent {place : Place} (h : w.locate p = .ok place) :
    w.locate p.parent ≠ .error .nameTooLong := by
  rcases Path.parent_cases p with hparent | ⟨name, hp⟩
  · rw [hparent, h]
    nofun
  · obtain ⟨-, hfits, hwalk⟩ := locate_eq_ok_iff.mp h
    rw [hp, segments_absolute_append, FileTree.walk_append] at hwalk
    obtain ⟨above, habove, -⟩ := Except.bind_eq_ok_iff.mp hwalk
    unfold locate
    rw [if_neg (Nat.not_lt.mpr (Path.toString_parent_le hfits)), habove]
    split <;> nofun

theorem hasNul_of_readBytes (h : w.readBytes p = .error .nulCharacter) :
    hasNul p = true := by
  unfold readBytes at h
  split at h
  · next f hlocate =>
    obtain rfl := Except.error.inj h
    exact locate_eq_nulCharacter_iff.mp hlocate
  · split at h <;> cases h

end Workspace

/-- A source file that cannot be read is left out, unless its path holds a NUL. -/
theorem Files.failsWithin_readSource {w : Workspace} {P : LintError → Prop} {p : Path}
    (h : Workspace.hasNul p = true → P .nulInPath) : (readSource w p).FailsWithin P := by
  unfold readSource
  split
  · split
    split
    · exact (Traced.failsWithin_log _ _ _).bind fun _ _ => Traced.failsWithin_pure _
    · exact Traced.failsWithin_pure _
  · exact (Traced.failsWithin_log _ _ _).bind fun _ _ => Traced.failsWithin_pure _
  · next hnul => exact Traced.failsWithin_fail (h (Workspace.hasNul_of_readBytes hnul))
  · exact (Traced.failsWithin_log _ _ _).bind fun _ _ => Traced.failsWithin_pure _

namespace Project

variable {w : Workspace} {file root : Path} {s : Selection} {segments : Place} {e : LintError}

/-! ### What makes other errors -/

/-- The tsconfig.json itself makes an error that is no fault of the project. -/
inductive EscapesReading (w : Workspace) (file : Path) : LintError → Prop
  /-- Its path holds the character NUL. -/
  | nul (h : Workspace.hasNul file = true) : EscapesReading w file .nulInPath
  /-- Its bytes are no UTF-8. -/
  | undecodable {bytes : List UInt8} {fault : Text.Utf8Fault}
      (hbytes : w.readBytes file = .ok bytes) (h : Files.markedUtf8Text bytes = .error fault) :
      EscapesReading w file (.undecodable fault)
  /-- It holds a number of too many digits, or is nested too deep. -/
  | excess {bytes : List UInt8} {cs : List Char} {excess : Excess}
      (hbytes : w.readBytes file = .ok bytes) (htext : Files.markedUtf8Text bytes = .ok cs)
      (h : Json.read w.room.documents cs = .error (.excess excess)) :
      EscapesReading w file (.excess excess)

/-- What selects the files below a root makes an error that is no fault of the project. -/
inductive EscapesSelecting (w : Workspace) (root : Path) (s : Selection) : LintError → Prop
  /-- A name that is looked up is too long, or the path that it makes. -/
  | overlong {name : LooseText}
      (hname : name ∈ s.listed ∨ name ∈ s.effectiveInclude ∧ hasWildcard name = false)
      (h : w.node? (root.child name.escaped) = .error .nameTooLong) :
      EscapesSelecting w root s (.access (root.child name.escaped) .nameTooLong)
  /-- What lies below the root has a path that is too long to be looked up. -/
  | overlongBelow {segments : Place} {n : Node} (hincludes : s.effectiveInclude ≠ [])
      (hbelow : IsBelow w root segments n)
      (h : pathLimit < (pathBelow root segments).toString.utf8ByteSize) :
      EscapesSelecting w root s (.access (pathBelow root segments) .nameTooLong)
  /-- A directory lies too deep below the root to be searched. -/
  | tooDeep {segments : Place} (hincludes : s.effectiveInclude ≠ [])
      (hbelow : IsBelow w root segments .dir) (h : w.room.directories < segments.length) :
      EscapesSelecting w root s (.excess (.nesting .directory))
  /-- A source file is matched with an include pattern that is nested too deep. -/
  | included {segments : Place} {pattern : LooseText} (hsource : IsSource w root segments)
      (hpattern : pattern ∈ s.effectiveInclude)
      (h : Path.isTooDeep w.room.patterns (Path.globOf (meant w root pattern)) segments = true) :
      EscapesSelecting w root s (.excess (.nesting .pattern))
  /-- A source file, or a directory above it, is matched with an exclude pattern that is. -/
  | excluded {segments : Place} {pattern : LooseText} (hsource : IsSource w root segments)
      (hpattern : pattern ∈ s.effectiveExclude)
      (h : isTooDeepBelow w.room.patterns segments pattern = true) :
      EscapesSelecting w root s (.excess (.nesting .pattern))
  /-- The tree has a source file with a NUL in its name, as no file system does. -/
  | nul {segments : Place} {name : String} (hsource : IsSource w root segments)
      (hname : name ∈ segments) (h : '\x00' ∈ name.toList) : EscapesSelecting w root s .nulInPath

/-- The tsconfig.json can be read and selects this. -/
def Describes (w : Workspace) (file : Path) (s : Selection) : Prop :=
  ∃ document, readDescription w file = .ok document ∧ selectionOf file document = .ok s

/-- The error is a fault of the project, or one that its tsconfig.json makes. -/
def IsBuildError (w : Workspace) (file : Path) (e : LintError) : Prop :=
  (∃ fault, e = .project fault) ∨ EscapesReading w file e ∨
    ∃ s, Describes w file s ∧ EscapesSelecting w file.parent s e

theorem isBuildError_project (fault : ProjectFault) : IsBuildError w file (.project fault) :=
  .inl ⟨fault, rfl⟩

/-! ### Reading the description -/

/-- **What makes a description unreadable is what reading it ends in.** -/
theorem EscapesReading.readDescription_eq (h : EscapesReading w file e) :
    readDescription w file = .error e := by
  unfold readDescription
  cases h with
  | nul h =>
    rw [Workspace.readBytes, Workspace.locate_eq_nulCharacter_iff.mpr h]
  | undecodable hbytes h =>
    rw [hbytes]
    dsimp only
    rw [h]
  | excess hbytes htext h =>
    rw [hbytes]
    dsimp only
    rw [htext]
    dsimp only
    rw [h]

theorem failsWithin_readDescription (w : Workspace) (file : Path) :
    (readDescription w file).FailsWithin (IsBuildError w file) := by
  have hescapes : ∀ {e}, EscapesReading w file e → IsBuildError w file e := fun h => .inr (.inl h)
  unfold readDescription
  rcases hbytes : w.readBytes file with fault | bytes
  · cases fault with
    | nulCharacter =>
      exact Except.failsWithin_error (hescapes (.nul (Workspace.hasNul_of_readBytes hbytes)))
    | _ => exact Except.failsWithin_error (isBuildError_project _)
  dsimp only
  rcases htext : Files.markedUtf8Text bytes with fault | cs
  · exact Except.failsWithin_error (hescapes (.undecodable hbytes htext))
  dsimp only
  rcases hread : Json.read w.room.documents cs with (fault | excess) | document
  · exact Except.failsWithin_error (isBuildError_project _)
  · exact Except.failsWithin_error (hescapes (.excess hbytes htext hread))
  · cases document with
    | obj fields => exact Except.failsWithin_ok _
    | _ => exact Except.failsWithin_error (isBuildError_project _)

/-- A description that was read leaves only faults of the project to its lists. -/
theorem failsWithin_selectionOf (w : Workspace) (file : Path) (document : Json) :
    (selectionOf file document).FailsWithin (IsBuildError w file) := by
  have hstrings : ∀ key, (stringsUnder file document key).FailsWithin (IsBuildError w file) := by
    intro key
    unfold stringsUnder
    split
    · exact Except.failsWithin_ok _
    · split
      · exact Except.failsWithin_ok _
      · exact Except.failsWithin_error (isBuildError_project _)
  exact (hstrings "files").bind fun _ _ => (hstrings "include").bind fun _ _ =>
    (hstrings "exclude").bind fun _ _ => Except.failsWithin_ok _

/-! ### Collecting the files -/

/-- The error is a fault of the project, or one that its selection makes. -/
def IsCollectError (w : Workspace) (root : Path) (s : Selection) (e : LintError) : Prop :=
  (∃ fault, e = .project fault) ∨ EscapesSelecting w root s e

theorem failsWithin_namedNode? {name : LooseText}
    (hname : name ∈ s.listed ∨ name ∈ s.effectiveInclude ∧ hasWildcard name = false) :
    (namedNode? w root name).FailsWithin (EscapesSelecting w root s) := by
  have hlong : (w.node? (root.child name.escaped)).FailsWithin fun fault =>
      EscapesSelecting w root s (.access (root.child name.escaped) fault) := by
    intro fault h
    obtain ⟨rfl, -⟩ := Workspace.isOverlong_of_node? h
    exact .overlong hname h
  unfold namedNode?
  dsimp only
  split
  · exact Except.failsWithin_mapError hlong
  · split
    · exact Except.failsWithin_mapError (hlong.map _)
    · exact Except.failsWithin_ok _

theorem failsWithin_listedFile {name : LooseText} (hname : name ∈ s.listed) :
    (listedFile w root name).FailsWithin (IsCollectError w root s) := by
  refine Except.FailsWithin.bind (fun e he => .inr (failsWithin_namedNode? (.inl hname) e he))
    fun n _ => ?_
  split
  · exact Except.failsWithin_ok _
  · exact Except.failsWithin_error (.inl ⟨_, rfl⟩)

theorem eq_of_isMatched_error {room : Nat} {pattern : LooseText}
    (h : isMatched room segments pattern = .error e) : e = .excess (.nesting .pattern) := by
  unfold isMatched at h
  split at h
  · exact (Except.error.inj h).symm
  · cases h

theorem failsWithin_isIncludedBy (hsource : IsSource w root segments) {pattern : LooseText}
    (hpattern : pattern ∈ s.effectiveInclude) :
    (isIncludedBy w root segments pattern).FailsWithin (EscapesSelecting w root s) := by
  have hmatched : (isMatched w.room.patterns segments (meant w root pattern)).FailsWithin
      (EscapesSelecting w root s) := by
    intro e he
    obtain rfl := eq_of_isMatched_error he
    exact .included hsource hpattern ((gives_isMatched _ segments _).limited he)
  unfold meant at hmatched
  unfold isIncludedBy
  split
  · next hwild =>
    rw [if_neg fun hplain => Bool.false_ne_true (hplain.1.symm.trans hwild)] at hmatched
    exact hmatched
  · next hwild =>
    rw [Bool.not_eq_true] at hwild
    refine (failsWithin_namedNode? (.inr ⟨hpattern, hwild⟩)).bind fun named hnamed => ?_
    obtain rfl := (gives_namedNode? w root pattern).eq_of_ok hnamed
    simpa only [hwild, true_and] using hmatched

theorem failsWithin_isIncluded (hsource : IsSource w root segments) {patterns : List LooseText}
    (hpatterns : ∀ p ∈ patterns, p ∈ s.effectiveInclude) :
    (isIncluded w root segments patterns).FailsWithin (EscapesSelecting w root s) := by
  induction patterns with
  | nil => exact Except.failsWithin_ok _
  | cons p ps ih =>
    obtain ⟨hp, hps⟩ := List.forall_mem_cons.mp hpatterns
    refine (failsWithin_isIncludedBy hsource hp).bind fun included _ => ?_
    split
    · exact Except.failsWithin_ok _
    · exact ih hps

theorem failsWithin_isLeftOut (hsource : IsSource w root segments) :
    (isLeftOut w.room.patterns segments s.effectiveExclude).FailsWithin
      (EscapesSelecting w root s) := by
  intro e he
  obtain ⟨p, hp, hdeep⟩ := (gives_isLeftOut _ segments s.effectiveExclude).limited he
  obtain rfl := error_of_isLeftOut he
  exact .excluded hsource hp hdeep

theorem failsWithin_checkLength (hincludes : s.effectiveInclude ≠ []) {n : Node}
    (hbelow : IsBelow w root segments n) :
    (checkLength root segments).FailsWithin (EscapesSelecting w root s) := by
  unfold checkLength
  dsimp only
  split
  · next hlong => exact Except.failsWithin_error (.overlongBelow hincludes hbelow hlong)
  · exact Except.failsWithin_ok _

/-- Going through files, each of them is the only one that matters for its step. -/
theorem failsWithin_selected (hincludes : s.effectiveInclude ≠ []) {candidates : List Place}
    (hfiles : ∀ c ∈ candidates, ∃ bytes, IsBelow w root c (.file bytes)) :
    (selected w root s.effectiveInclude s.effectiveExclude candidates).FailsWithin
      (EscapesSelecting w root s) := by
  induction candidates with
  | nil => exact Except.failsWithin_ok _
  | cons segments more ih =>
    obtain ⟨⟨bytes, hbelow⟩, hmore⟩ := List.forall_mem_cons.mp hfiles
    refine (failsWithin_checkLength hincludes hbelow).bind fun _ _ => ?_
    cases hname : isSourceName (segments.getLast?.getD "") with
    | false => exact ih hmore
    | true =>
      have hsource : IsSource w root segments := isSource_iff.mpr ⟨hname, bytes, hbelow⟩
      refine (failsWithin_isLeftOut hsource).bind fun leftOut _ => ?_
      split
      · exact ih hmore
      · exact (failsWithin_isIncluded hsource fun _ hp => hp).bind fun _ _ =>
          (ih hmore).bind fun _ _ => Except.failsWithin_ok _

theorem failsWithin_searchDirectory (hincludes : s.effectiveInclude ≠ [])
    (hbelow : IsBelow w root segments .dir) :
    (searchDirectory w root segments).FailsWithin (EscapesSelecting w root s) := by
  unfold searchDirectory
  split
  · next hdeep => exact Except.failsWithin_error (.tooDeep hincludes hbelow hdeep)
  · exact failsWithin_checkLength hincludes hbelow

theorem failsWithin_forM_search (hincludes : s.effectiveInclude ≠ []) {es : List (Place × Node)}
    (h : ∀ e ∈ es, IsBelow w root e.1 e.2) :
    (es.forM fun e => if e.2 = .dir then searchDirectory w root e.1 else .ok ()).FailsWithin
      (EscapesSelecting w root s) := by
  induction es with
  | nil => exact Except.failsWithin_ok _
  | cons e es ih =>
    obtain ⟨hbelow, hes⟩ := List.forall_mem_cons.mp h
    refine Except.FailsWithin.bind ?_ fun _ _ => ih hes
    dsimp only
    split
    · next hdir => exact failsWithin_searchDirectory hincludes (hdir ▸ hbelow)
    · exact Except.failsWithin_ok _

/-- Searching a directory that can be looked up ends at what lies below it, if at all. -/
theorem failsWithin_filesBelow (hincludes : s.effectiveInclude ≠ [])
    (hroot : w.locate root ≠ .error .nameTooLong) :
    (filesBelow w root).FailsWithin (EscapesSelecting w root s) := by
  rcases hplace : w.locate root with f | place
  · rw [filesBelow, hplace]
    cases f with
    | nameTooLong => exact absurd hplace hroot
    | _ => exact Except.failsWithin_ok _
  · have hfound : found w root = (w.tree.below place).mergeSort fun e f => placeLe e.1 f.1 := by
      rw [found, hplace]
    rw [filesBelow, hplace]
    refine (failsWithin_forM_search hincludes fun e he => ?_).bind fun _ _ =>
      Except.failsWithin_ok _
    exact mem_found_iff.mp (hfound ▸ he)

theorem failsWithin_collect (hroot : w.locate root ≠ .error .nameTooLong) (s : Selection) :
    (collect w root s).FailsWithin (IsCollectError w root s) := by
  refine (Except.failsWithin_mapM fun name hname => failsWithin_listedFile hname).bind
    fun listed _ => ?_
  dsimp only
  split
  · exact Except.failsWithin_ok _
  · next hempty =>
    have hincludes : s.effectiveInclude ≠ [] := fun hnil => hempty (List.isEmpty_iff.mpr hnil)
    refine Except.FailsWithin.bind
      (fun e he => .inr (failsWithin_filesBelow hincludes hroot e he)) fun places hplaces => ?_
    obtain rfl := (gives_filesBelow w root).eq_of_ok hplaces
    have hfiles : ∀ c ∈ (files w root).filter fun c =>
        !listed.eraseDups.contains (pathBelow root c), ∃ bytes, IsBelow w root c (.file bytes) :=
      fun c hc => mem_files_iff.mp (List.mem_of_mem_filter hc)
    exact Except.FailsWithin.bind (fun e he => .inr (failsWithin_selected hincludes hfiles e he))
      fun _ _ => Except.failsWithin_ok _

/-! ### Reading the files -/

/-- What was collected has no NUL in its path, unless a source file has one in its name. -/
theorem escapesSelecting_of_hasNul {ps : List Path} {p : Path} (h : collect w root s = .ok ps)
    (hp : p ∈ ps) (hnul : Workspace.hasNul p = true) : EscapesSelecting w root s .nulInPath := by
  obtain ⟨chosen, rfl, -, hchosen⟩ := exists_chosen_of_collect h
  rcases List.mem_append.mp hp with hp | hp
  -- listed names were looked up
  · obtain ⟨name, hname, rfl⟩ := List.mem_map.mp (List.mem_eraseDups.mp hp)
    have hleads := (isCollection_of_collect h).leadsToFile name hname
    obtain ⟨place, hplace⟩ := exists_locate_of_leadsToFile hleads
    rw [(Workspace.locate_eq_ok_iff.mp hplace).1] at hnul
    cases hnul
  · obtain ⟨segments, hsegments, rfl⟩ := List.mem_map.mp hp
    have hsource := (hchosen segments hsegments).1
    obtain ⟨place, -, hplace, -⟩ := hsource.2.2
    obtain ⟨name, hname, hcontains⟩ := List.any_eq_true.mp hnul
    rcases List.mem_append.mp hname with hname | hname
    · have hroot : Workspace.hasNul root = true := List.any_eq_true.mpr ⟨name, hname, hcontains⟩
      rw [(Workspace.locate_eq_ok_iff.mp hplace).1] at hroot
      cases hroot
    · exact .nul hsource hname (List.contains_iff_mem.mp hcontains)

theorem failsWithin_readSources {P : LintError → Prop} {ps : List Path}
    (h : ∀ p ∈ ps, Workspace.hasNul p = true → P .nulInPath) :
    (readSources w ps).FailsWithin P := by
  induction ps with
  | nil => exact Traced.failsWithin_pure _
  | cons p ps ih =>
    obtain ⟨hp, hps⟩ := List.forall_mem_cons.mp h
    exact (Files.failsWithin_readSource hp).bind fun _ _ =>
      (ih hps).bind fun _ _ => Traced.failsWithin_pure _

/-! ### The whole program -/

/-- A description that was read lies in a directory that can be looked up. -/
theorem locate_parent_of_readDescription {document : Json}
    (h : readDescription w file = .ok document) : w.locate file.parent ≠ .error .nameTooLong := by
  obtain ⟨bytes, -, hbytes, -⟩ := exists_text_of_readDescription h
  unfold Workspace.readBytes at hbytes
  split at hbytes
  · cases hbytes
  · next hplace => exact Workspace.locate_parent hplace

theorem failsWithin_build (w : Workspace) (file : Path) :
    (build w file).FailsWithin (IsBuildError w file) := by
  refine (Traced.failsWithin_ofExcept (failsWithin_readDescription w file)).bind
    fun document hdocument => ?_
  have hread : readDescription w file = .ok document := hdocument
  refine (Traced.failsWithin_ofExcept (failsWithin_selectionOf w file document)).bind
    fun s hs => ?_
  have hselecting : ∀ {e}, EscapesSelecting w file.parent s e → IsBuildError w file e :=
    fun h => .inr (.inr ⟨s, ⟨document, hread, hs⟩, h⟩)
  refine Traced.FailsWithin.bind (fun e he => ?_) fun ps hps => ?_
  · rcases failsWithin_collect (locate_parent_of_readDescription hread) s e he with h | h
    · exact .inl h
    · exact hselecting h
  refine (failsWithin_readSources fun p hp hnul =>
    hselecting (escapesSelecting_of_hasNul hps hp hnul)).bind fun files _ => ?_
  exact (Traced.failsWithin_log _ _ _).bind fun _ _ => Traced.failsWithin_pure _

/-- **What makes a tsconfig.json unreadable is what building ends in.** -/
theorem EscapesReading.result_build (h : EscapesReading w file e) :
    (build w file).result = .error e := by
  rw [build, h.readDescription_eq]
  rfl

/-- **What building a program fails with.**  What makes the tsconfig.json unreadable is what the
building ends in.  Any error is that, or a fault of the project, or else the tsconfig.json selects
files with a name or a pattern that goes beyond a limit, or by a search of directories that does. -/
theorem build_error_cases (w : Workspace) (file : Path) :
    (∀ e, EscapesReading w file e → (build w file).result = .error e) ∧
    ∀ e, (build w file).result = .error e → (∃ fault, e = .project fault) ∨
      EscapesReading w file e ∨
      ∃ s, Describes w file s ∧ EscapesSelecting w file.parent s e :=
  ⟨fun _ h => h.result_build, failsWithin_build w file⟩

/-- A project whose tsconfig.json is one byte, which starts no character. -/
def undecodableProject : Workspace where
  tree := FileTree.empty.writeFile ["p", descriptionFile] [0xFF]
  cwd := []
  environment := []

/-- What is wrong with it. -/
def undecodableByte : Text.Utf8Fault := ⟨0, [0xFF], .invalidStart⟩

theorem escapesReading_undecodableProject :
    EscapesReading undecodableProject (.ofString "/p/tsconfig.json")
      (.undecodable undecodableByte) := by
  have hbytes : undecodableProject.readBytes (.ofString "/p/tsconfig.json") = .ok [0xFF] :=
    Except.toOption_eq_some_iff.mp (by decide +kernel)
  have htext : Files.markedUtf8Text [0xFF] = .error undecodableByte := by
    show (Text.decodeUtf8From 0 [0xFF]).map Text.unifyNewlines = _
    rw [Text.decodeUtf8From]
    rfl
  exact .undecodable hbytes htext

theorem build_error_cases_undecodableProject :
    EscapesReading undecodableProject (.ofString "/p/tsconfig.json")
      (.undecodable undecodableByte) ∧
    (build undecodableProject (.ofString "/p/tsconfig.json")).result =
      .error (.undecodable undecodableByte) ∧
    ((∃ fault, LintError.undecodable undecodableByte = .project fault) ∨
      EscapesReading undecodableProject (.ofString "/p/tsconfig.json")
        (.undecodable undecodableByte) ∨
      ∃ s, Describes undecodableProject (.ofString "/p/tsconfig.json") s ∧
        EscapesSelecting undecodableProject (Path.ofString "/p/tsconfig.json").parent s
          (.undecodable undecodableByte)) := by
  have hescapes := escapesReading_undecodableProject
  have hbuild := (build_error_cases undecodableProject (.ofString "/p/tsconfig.json")).1 _ hescapes
  exact ⟨hescapes, hbuild, (build_error_cases _ _).2 _ hbuild⟩

/-- There are projects that make another error than a fault of the project. -/
theorem not_all_project : ¬ ∀ (w : Workspace) (file : Path) (e : LintError),
    (build w file).result = .error e → ∃ fault, e = .project fault := by
  intro hall
  obtain ⟨fault, hfault⟩ := hall _ _ _ escapesReading_undecodableProject.result_build
  cases hfault

end Project

end DeclLint
