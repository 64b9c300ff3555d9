/-
DeclLint/Proofs/Directive.lean

Which files hold a banned directive, told from their bytes.  A file that can be
read is scanned as a text, and the text depends on how its bytes were decoded: as
UTF-8 with or without a byte order mark, or as Latin-1.  For the scan this makes
no difference (`scan_readSource_iff`).  Nothing is reported exactly if the bytes of
`ts-ignore` occur nowhere, and those of `tslint:disable` only with a colon or a
hyphen behind (`AllowedIn`).

On texts this is what the two searches say (`scan_eq_none_iff`).  It carries over to
the bytes that spell a text, because the words of the directives are plain.
-/
import DeclLint.Directive
import DeclLint.Proofs.Result
import DeclLint.Proofs.Text.Encoding
import DeclLint.Proofs.Trace

namespace DeclLint

namespace Text

/-! ### Searches that find nothing -/

theorem firstSuffix?_eq_none_iff_append {p : List Char → Bool} {cs : List Char} :
    firstSuffix? p cs = none ↔ ∀ start rest, cs = start ++ rest → p rest = false := by
  rw [firstSuffix?_eq_none_iff]
  constructor
  · rintro h start rest rfl
    simpa using h start.length (by simp)
  · intro h n _
    exact h (cs.take n) (cs.drop n) (List.take_append_drop n cs).symm

theorem find?_eq_none_iff {word cs : List Char} :
    find? word cs = none ↔ ∀ start rest, cs ≠ start ++ word ++ rest := by
  rw [find?, firstSuffix?_eq_none_iff_append]
  constructor
  · rintro h start rest rfl
    have hword := h start (word ++ rest) (List.append_assoc start word rest)
    rw [List.isPrefixOf_iff_prefix.mpr (List.prefix_append word rest)] at hword
    cases hword
  · rintro h start rest rfl
    refine Bool.eq_false_iff.mpr fun hword => ?_
    obtain ⟨rest, rfl⟩ := List.isPrefixOf_iff_prefix.mp hword
    exact h start rest (List.append_assoc start word rest).symm

end Text

namespace Directive

open Text (Spells IsPlain decodeLatin1)

/-! ### Texts -/

theorem isScope_iff {rest : List Char} :
    isScope rest = true ↔ rest.head? = some ':' ∨ rest.head? = some '-' := by
  cases rest <;> simp [isScope]

theorem startsBlanket_eq_false_iff {cs : List Char} :
    startsBlanket cs = false ↔ ∀ rest, cs = tslintDisable.word ++ rest → isScope rest = true := by
  unfold startsBlanket
  constructor
  · rintro h rest hcs
    rw [Text.afterPrefix?_eq_some_iff.mpr hcs] at h
    simpa using h
  · intro h
    split
    · next rest hrest => simpa using h rest (Text.afterPrefix?_eq_some_iff.mp hrest)
    · rfl

/-- What a text without a banned directive looks like. -/
theorem scan_eq_none_iff {cs : List Char} :
    scan cs = none ↔ (∀ start rest, cs ≠ start ++ tsIgnore.word ++ rest) ∧
      ∀ start rest, cs = start ++ tslintDisable.word ++ rest → isScope rest = true := by
  rw [scan, Option.or_eq_none_iff, findIgnore?, findDisable?, Option.map_eq_none_iff,
    Option.map_eq_none_iff, Text.find?_eq_none_iff, Text.firstSuffix?_eq_none_iff_append]
  refine and_congr_right fun _ => ?_
  constructor
  · rintro h start rest rfl
    have hblanket := h start (tslintDisable.word ++ rest) (List.append_assoc ..)
    exact startsBlanket_eq_false_iff.mp hblanket rest rfl
  · rintro h start rest rfl
    refine startsBlanket_eq_false_iff.mpr fun rest' hrest => ?_
    exact h start rest' (by rw [hrest, List.append_assoc])

/-! ### Bytes -/

/-- The byte of an ASCII character. -/
def asciiByte (c : Char) : UInt8 :=
  UInt8.ofNat c.toNat

/-- The words of a directive in ASCII. -/
def bytes (d : Directive) : List UInt8 :=
  d.word.map asciiByte

theorem plain_of_mem_bytes (d : Directive) : ∀ b ∈ d.bytes, IsPlain b.toNat := by
  cases d <;> decide +kernel

theorem bytes_ne_nil (d : Directive) : d.bytes ≠ [] := by
  cases d <;> decide +kernel

theorem decodeLatin1_bytes (d : Directive) : decodeLatin1 d.bytes = d.word := by
  cases d <;> decide +kernel

/-- Bytes that hold no banned directive: no `ts-ignore` at all, and a colon or a hyphen right
behind every `tslint:disable`. -/
structure AllowedIn (bs : List UInt8) : Prop where
  noIgnore : ∀ before after, bs ≠ before ++ tsIgnore.bytes ++ after
  disableScoped : ∀ before after, bs = before ++ tslintDisable.bytes ++ after →
    after.head? = some (asciiByte ':') ∨ after.head? = some (asciiByte '-')

/-- What makes a directive a scoped one is the same in the bytes and in the text. -/
theorem isScope_iff_of_spells {bs : List UInt8} {cs : List Char} (h : Spells bs cs) :
    isScope cs = true ↔
      bs.head? = some (asciiByte ':') ∨ bs.head? = some (asciiByte '-') := by
  have hcolon : IsPlain (asciiByte ':').toNat := by decide +kernel
  have hhyphen : IsPlain (asciiByte '-').toNat := by decide +kernel
  rw [isScope_iff, h.head?_eq_iff hcolon, h.head?_eq_iff hhyphen]
  rfl

/-- The scan of a text tells what the bytes hold that spell it. -/
theorem scan_eq_none_iff_of_spells {bs : List UInt8} {cs : List Char} (h : Spells bs cs) :
    scan cs = none ↔ AllowedIn bs := by
  rw [scan_eq_none_iff]
  constructor
  · rintro ⟨hignore, hdisable⟩
    constructor
    · rintro before after rfl
      obtain ⟨start, rest, rfl, -⟩ :=
        h.word_of_bytes tsIgnore.bytes_ne_nil tsIgnore.plain_of_mem_bytes
      exact hignore start rest (by rw [decodeLatin1_bytes])
    · rintro before after rfl
      obtain ⟨start, rest, rfl, hafter⟩ :=
        h.word_of_bytes tslintDisable.bytes_ne_nil tslintDisable.plain_of_mem_bytes
      exact (isScope_iff_of_spells hafter).mp (hdisable start rest (by rw [decodeLatin1_bytes]))
  · rintro ⟨hignore, hdisable⟩
    constructor
    · rintro start rest rfl
      rw [← decodeLatin1_bytes] at h
      obtain ⟨before, after, hbs, -⟩ :=
        h.word_of_text tsIgnore.bytes_ne_nil tsIgnore.plain_of_mem_bytes
      exact hignore before after hbs
    · rintro start rest rfl
      rw [← decodeLatin1_bytes] at h
      obtain ⟨before, after, hbs, hafter⟩ :=
        h.word_of_text tslintDisable.bytes_ne_nil tslintDisable.plain_of_mem_bytes
      exact (isScope_iff_of_spells hafter).mpr (hdisable before after hbs)

/-! ### Files -/

/-- Where a directive starts behind bytes that are not plain. -/
theorem eq_append_word_of_block {block bs before after : List UInt8} (d : Directive)
    (hblock : ∀ x ∈ block, ¬ IsPlain x.toNat)
    (h : block ++ bs = before ++ d.bytes ++ after) :
    ∃ between, before = block ++ between ∧ bs = between ++ d.bytes ++ after := by
  obtain ⟨b, word, hword⟩ := List.exists_cons_of_ne_nil d.bytes_ne_nil
  have hb : IsPlain b.toNat := d.plain_of_mem_bytes b (hword ▸ List.mem_cons_self)
  rw [hword, List.append_assoc, List.cons_append] at h
  obtain ⟨between, hbefore, hbs⟩ := Text.eq_append_of_block hblock hb h
  exact ⟨between, hbefore, by rw [hword, hbs, List.append_assoc, List.cons_append]⟩

/-- Bytes that are not plain in front, such as a byte order mark, hide nothing. -/
theorem allowedIn_append_iff {block bs : List UInt8} (hblock : ∀ x ∈ block, ¬ IsPlain x.toNat) :
    AllowedIn (block ++ bs) ↔ AllowedIn bs := by
  constructor
  · rintro ⟨hignore, hdisable⟩
    constructor
    · rintro before after rfl
      exact hignore (block ++ before) after (by simp)
    · rintro before after rfl
      exact hdisable (block ++ before) after (by simp)
  · rintro ⟨hignore, hdisable⟩
    constructor
    · intro before after h
      obtain ⟨between, -, hbs⟩ := eq_append_word_of_block .tsIgnore hblock h
      exact hignore between after hbs
    · intro before after h
      obtain ⟨between, -, hbs⟩ := eq_append_word_of_block .tslintDisable hblock h
      exact hdisable between after hbs

theorem result_readSource {w : Workspace} {p : Path} {bs : List UInt8}
    (h : w.readBytes p = .ok bs) :
    (Files.readSource w p).result = .ok (some (String.ofList (Files.sourceText bs).1)) := by
  rw [Files.readSource, h]
  cases hfallback : (Files.sourceText bs).2 with
  | false => simp [hfallback]
  | true => simp [hfallback, Traced.result_log_bind]

/-- **No encoding and no line ending hides a banned directive.**  The text that a file is read as
is free of them exactly if its bytes are. -/
theorem scan_readSource_iff {w : Workspace} {p : Path} {bs : List UInt8}
    (h : w.readBytes p = .ok bs) :
    ∃ text, (Files.readSource w p).result = .ok (some text) ∧
      (scan text.toList = none ↔ AllowedIn bs) := by
  refine ⟨_, result_readSource h, ?_⟩
  rw [String.toList_ofList]
  obtain ⟨mark, body, rfl, hmark, hspells⟩ := Text.exists_spells_sourceText bs
  rw [allowedIn_append_iff hmark]
  exact scan_eq_none_iff_of_spells hspells

/-- A file that is no UTF-8, though it starts with a byte order mark; a carriage return follows
its directive. -/
def accentedBytes : List UInt8 :=
  Text.byteOrderMark ++ [0x2F, 0x2F, 0xE9] ++ tslintDisable.bytes ++ [0x0D, 0x0A]

/-- A workspace with this file only. -/
def accentedWorkspace : Workspace where
  tree := FileTree.empty.writeFile ["a.d.ts"] accentedBytes
  cwd := []
  environment := []

/-- Its directive is found in the text, since the bytes hold it. -/
theorem scan_readSource_accented :
    accentedWorkspace.readBytes (Path.ofString "/a.d.ts") = .ok accentedBytes ∧
      ∃ text, (Files.readSource accentedWorkspace (Path.ofString "/a.d.ts")).result =
          .ok (some text) ∧ scan text.toList ≠ none := by
  have hread : accentedWorkspace.readBytes (Path.ofString "/a.d.ts") = .ok accentedBytes :=
    Except.toOption_eq_some_iff.mp (by decide +kernel)
  obtain ⟨text, htext, hscan⟩ := scan_readSource_iff hread
  refine ⟨hread, text, htext, fun hnone => ?_⟩
  have hscoped := (hscan.mp hnone).disableScoped (Text.byteOrderMark ++ [0x2F, 0x2F, 0xE9])
    [0x0D, 0x0A] rfl
  exact absurd hscoped (by decide +kernel)

end Directive

end DeclLint
