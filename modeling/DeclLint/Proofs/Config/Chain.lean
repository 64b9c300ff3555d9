/-
DeclLint/Proofs/Config/Chain.lean

Configurations in a row.  A name alone, if it is no bundled one, stands for the file
beside the extending one (`names_of_isProperName`), and a file in which an object is
printed holds this object (`holds_of_printed`).

`chainProject` is made of such files, each of which extends the next one, the last one
excepted.  Nothing is wrong with any of them (`isSound_link`), they extend no file twice
(`not_cyclic_link`), and the last one is reached in as many steps as there are
(`reaches_link`), which may be more than there is room for.
-/
import DeclLint.Proofs.Config.Document
import DeclLint.Proofs.Files.SourceText
import DeclLint.Proofs.Files.Walk
import DeclLint.Proofs.Json.RoundTrip

namespace DeclLint.Config

open Relation (ReflTransGen TransGen)

variable {w : Workspace} {p directory q : Place} {i k : Nat}

/-! ### Files that are written -/

/-- A name alone stands for the file in the same directory. -/
theorem names_of_isProperName {text : String} (hdirectory : ∀ s ∈ directory, IsProperName s)
    (htext : IsProperName text) (hother : ∀ b, (text, b) ∉ Bundled.names) :
    Names directory (LooseText.ofString text) (directory ++ [text]) := by
  have hspelled : spelled directory (LooseText.ofString text) = directory ++ [text] := by
    rw [spelled, LooseText.escaped_ofString, Path.child_segment _ htext.1]
    rfl
  have hproper : ∀ s ∈ directory ++ [text], IsProperName s :=
    List.forall_mem_append.mpr ⟨hdirectory, List.forall_mem_singleton.mpr htext⟩
  refine .path ?_ ?_ ?_ ?_ ?_
  · rintro b ⟨text', heq, hmem⟩
    rw [← LooseText.ofString_injective heq] at hmem
    exact hother b hmem
  · simp [LooseText.isFileName, LooseText.ofString, Text.CodePoint.toChar?]
  · rw [hspelled]
    exact fun s hs => (hproper s hs).2.2.1
  · rw [hspelled]
  · exact fun hmem => (hproper ".." hmem).2.1 rfl

/-- A file in which an object is printed holds this object. -/
theorem holds_of_printed {document : Json} {fields : List (LooseText × Json)} (depth : Nat)
    (hproper : ∀ s ∈ p, IsProperName s)
    (hlength : (pathOf p).toString.utf8ByteSize ≤ pathLimit)
    (hfile : w.tree.node? p = some (.file (Text.encode (Json.indentedText 0 document))))
    (hexact : Json.Exact none depth document) (hobject : document = .obj fields) :
    Holds w p document := by
  have hlocate : w.locate (pathOf p) = .ok p := by
    refine Workspace.locate_eq_ok_iff.mpr ⟨?_, hlength, ?_⟩
    · simp only [Workspace.hasNul, List.any_eq_false, List.contains_iff_mem]
      exact fun s hs => (hproper s hs).2.2.1
    · rw [Workspace.absolute_of_isAbsolute rfl]
      exact FileTree.walk_of_node? (p := []) hproper hfile
  refine ⟨⟨_, by rw [Workspace.node?, hlocate]⟩, ⟨_, _, hfile, Files.utf8Text_encode ?_, depth,
    hexact.readWithin⟩, fields, hobject⟩
  exact fun hreturn => (hexact.isPrinted 0 '\r' hreturn).2 rfl

/-! ### Files in a row -/

/-- How many of the files extend another one. -/
def links : Nat := 1000

/-- The name of a file in the row. -/
def linkName (i : Nat) : String :=
  String.singleton (Char.ofNat (0x4E00 + i))

/-- What a file in the row says: it extends the next one, if there is one. -/
def linkDocument (i : Nat) : Json :=
  Json.object (if i < links then [("extends", Json.text (linkName (i + 1)))] else [])

theorem toNat_link (h : i ≤ links) : (Char.ofNat (0x4E00 + i)).toNat = 0x4E00 + i :=
  Text.toNat_ofNat_of_isValidChar (.inl (by unfold links at h; omega))

theorem linkName_inj {j : Nat} (hi : i ≤ links) (hj : j ≤ links) (h : linkName i = linkName j) :
    i = j := by
  have hchar : Char.ofNat (0x4E00 + i) = Char.ofNat (0x4E00 + j) := by
    simpa [linkName] using congrArg String.toList h
  have hnumber := congrArg Char.toNat hchar
  rw [toNat_link hi, toNat_link hj] at hnumber
  omega

theorem isProperName_linkName (h : i ≤ links) : IsProperName (linkName i) := by
  have hnumber := toNat_link h
  rw [linkName]
  generalize Char.ofNat (0x4E00 + i) = c at hnumber
  have hne : ∀ d : Char, d.toNat < 0x4E00 → c ≠ d := by
    rintro d hd rfl
    omega
  have hdot : String.singleton c ≠ "." := fun h =>
    hne '.' (by decide) (by simpa using congrArg String.toList h)
  have hsize : (String.singleton c).utf8ByteSize ≤ 4 := by
    rw [String.utf8ByteSize_singleton]
    exact c.utf8Size_le_four
  refine ⟨⟨?_, ?_⟩, ?_, ?_, Nat.le_trans hsize (by decide)⟩
  · simp [Path.isIdle, hdot]
  · simpa using (hne '/' (by decide)).symm
  · intro h
    have hlength : (String.singleton c).length = 2 := congrArg String.length h
    simp at hlength
  · simpa using (hne '\x00' (by decide)).symm

/-- A name in the row stands for the file of this name. -/
theorem names_linkName (h : i ≤ links) :
    Names [] (LooseText.ofString (linkName i)) [linkName i] := by
  refine names_of_isProperName (fun s hs => absurd hs List.not_mem_nil) (isProperName_linkName h) ?_
  -- the names of bundled files are longer
  intro b hmem
  have hlength : ∀ e ∈ Bundled.names, e.1.length ≠ 1 := by decide
  exact hlength _ hmem (by simp [linkName])

/-- The files in a row. -/
def chainTree : FileTree where
  entries := (List.range (links + 1)).map fun i =>
    ([linkName i], .file (Text.encode (Json.indentedText 0 (linkDocument i))))
  nodup := by
    rw [Table.keys, List.map_map]
    refine List.Nodup.map_on (fun i hi j hj h => ?_) List.nodup_range
    have hi : i ≤ links := Nat.le_of_lt_succ (List.mem_range.mp hi)
    have hj : j ≤ links := Nat.le_of_lt_succ (List.mem_range.mp hj)
    exact linkName_inj hi hj (List.cons.inj h).1
  closed := by
    intro p s h
    obtain ⟨e, he, hp⟩ := List.mem_map.mp h
    obtain ⟨i, -, rfl⟩ := List.mem_map.mp he
    -- all files lie at the root
    exact .inl (List.append_eq_singleton_iff.mp hp.symm |>.resolve_right (by simp)).1

/-- A project with as many files. -/
def chainProject : Workspace where
  tree := chainTree
  cwd := []
  environment := []

theorem holds_link (h : i ≤ links) : Holds chainProject [linkName i] (linkDocument i) := by
  have hproper := isProperName_linkName h
  have hsize : (linkName i).utf8ByteSize ≤ segmentLimit := hproper.2.2.2
  refine holds_of_printed 1 (List.forall_mem_singleton.mpr hproper) ?_ ?_ ?_ rfl
  · have htext : (pathOf [linkName i]).toString = "/" ++ linkName i := by
      simp [pathOf, Path.toString, Path.rootText]
    rw [htext, String.utf8ByteSize_append]
    have hslash : "/".utf8ByteSize = 1 := by decide
    rw [hslash]
    simp only [segmentLimit, pathLimit] at hsize ⊢
    omega
  · refine (if_neg (List.cons_ne_nil _ _)).trans ?_
    have hmem : ([linkName i], Node.file (Text.encode (Json.indentedText 0 (linkDocument i)))) ∈
        chainTree.entries := by
      simp only [chainTree, List.mem_map, List.mem_range]
      exact ⟨i, Nat.lt_succ_of_le h, rfl⟩
    exact (Table.get?_eq_some_iff_mem chainTree.nodup).mpr hmem
  · unfold linkDocument
    split
    · refine .obj (by simp) ?_ ?_
      · simp
      · exact List.forall_mem_singleton.mpr (.str 0 (linkName (i + 1)))
    · exact .obj (by simp) (by simp) (by simp)

theorem lists_linkDocument :
    Lists (linkDocument i) (if i < links then [Json.text (linkName (i + 1))] else []) := by
  unfold linkDocument
  split
  · exact .name (if_pos rfl)
  · exact .none rfl

/-- **Nothing is wrong with any file in the row.** -/
theorem isSound_link (h : i ≤ links) : IsSound chainProject [linkName i] := by
  refine ⟨_, holds_link h, ⟨_, lists_linkDocument, ?_⟩, [], .absent ?_⟩
  · split
    · next hlt =>
      exact List.forall_mem_singleton.mpr ⟨_, _, rfl, names_linkName hlt⟩
    · simp
  · unfold linkDocument
    split
    · have hkey : LooseText.ofString "extends" ≠ LooseText.ofString "rules" := by decide
      exact if_neg hkey
    · rfl

/-- Each file in the row extends the next one. -/
theorem extends_link_iff (h : i ≤ links) :
    Extends chainProject [linkName i] q ↔ i < links ∧ q = [linkName (i + 1)] := by
  constructor
  · rintro ⟨document, entries, name, hholds, hlists, hmem, hnames⟩
    obtain rfl := hholds.unique (holds_link h)
    obtain rfl := hlists.unique lists_linkDocument
    split at hmem
    · next hlt =>
      obtain rfl := Json.str.inj (List.mem_singleton.mp hmem)
      exact ⟨hlt, hnames.unique (names_linkName hlt)⟩
    · cases hmem
  · rintro ⟨hlt, rfl⟩
    refine ⟨_, _, _, holds_link h, lists_linkDocument, ?_, names_linkName hlt⟩
    rw [if_pos hlt]
    exact List.mem_singleton.mpr rfl

/-- What comes after a file in the row is further on. -/
theorem exists_of_transGen_link (hi : i ≤ links)
    (h : TransGen (Extends chainProject) [linkName i] q) :
    ∃ j, i < j ∧ j ≤ links ∧ q = [linkName j] := by
  induction h with
  | single hq =>
    obtain ⟨hlt, rfl⟩ := (extends_link_iff hi).mp hq
    exact ⟨i + 1, Nat.lt_succ_self i, hlt, rfl⟩
  | tail _ hr ih =>
    obtain ⟨j, hij, hj, rfl⟩ := ih
    obtain ⟨hlt, rfl⟩ := (extends_link_iff hj).mp hr
    exact ⟨j + 1, Nat.lt_succ_of_lt hij, hlt, rfl⟩

/-- **No file in the row extends itself.** -/
theorem not_cyclic_link (h : i ≤ links) :
    ¬ TransGen (Extends chainProject) [linkName i] [linkName i] := by
  intro hcycle
  obtain ⟨j, hij, hj, heq⟩ := exists_of_transGen_link h hcycle
  exact Nat.ne_of_lt hij (linkName_inj h hj (List.cons.inj heq).1)

/-- Nothing is wrong with what is reached from the first file. -/
theorem sound_chainProject (h : ReflTransGen (Extends chainProject) [linkName 0] q) :
    IsSound chainProject q ∧ ¬ TransGen (Extends chainProject) q q := by
  obtain ⟨i, hi, rfl⟩ : ∃ i ≤ links, q = [linkName i] := by
    rcases Relation.reflTransGen_iff_eq_or_transGen.mp h with rfl | h
    · exact ⟨0, Nat.zero_le _, rfl⟩
    · obtain ⟨i, -, hi, hq⟩ := exists_of_transGen_link (Nat.zero_le _) h
      exact ⟨i, hi, hq⟩
  exact ⟨isSound_link hi, not_cyclic_link hi⟩

/-- **Every file is reached from the first one**, in as many steps as there are. -/
theorem reaches_link (h : k ≤ links) : Reaches chainProject [linkName 0] k [linkName k] := by
  induction k with
  | zero => exact .here _
  | succ k ih =>
    have hk : k < links := h
    exact (ih (Nat.le_of_lt hk)).further ((extends_link_iff (Nat.le_of_lt hk)).mpr ⟨hk, rfl⟩)

end DeclLint.Config
