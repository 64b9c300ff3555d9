/-
DeclLint/Proofs/Files/SourceText.lean

The text of a source file, whatever its bytes are.  A file that is there is always
read, and no carriage return is left in its text.  If its bytes are the UTF-8
encoding of a text, this is the text that is read, apart from one mark in front and
from the line endings (`sourceText_encoding`); that a text comes back from its
encoding rests on its characters, one by one (`exists_utf8EncodeChar`).  Bytes that
differ in the line endings alone give the same text (`sourceText_inBytes`), also
where they are no UTF-8 and Latin-1 is assumed for both.

All that is found in a file by looking at its text is then the same as well
(`lineEndings_alike`).
-/
import DeclLint.Proofs.Directive
import DeclLint.Proofs.Text.LineEnding
import DeclLint.Rule.DeadReference
import DeclLint.Rule.Expect
import DeclLint.Rule.TrimFile

namespace DeclLint

namespace Text

open LineEnding (inBytes)

variable {b : UInt8} {bs : List UInt8} {cs : List Char} {n : Nat}

/-! ### Encoding in UTF-8 -/

/-- The bytes of a text in UTF-8. -/
def encode (cs : List Char) : List UInt8 :=
  cs.flatMap String.utf8EncodeChar

theorem toNat_byte {m : Nat} (h : m < 256) : (UInt8.ofNat m).toNat = m :=
  UInt8.toNat_ofNat_of_lt h

/-- One more byte that continues a character, if it is within the bounds. -/
theorem following_cons {code least greatest m v : Nat} (hm : m < 64) (hleast : least ≤ m + 128)
    (hgreatest : m + 128 ≤ greatest) (h : following n (64 * code + m) 0x80 0xBF bs = .ok v) :
    following (n + 1) code least greatest (UInt8.ofNat (m + 128) :: bs) = .ok v := by
  have hbyte : (UInt8.ofNat (m + 128)).toNat = m + 128 := toNat_byte (by omega)
  rw [following, hbyte, if_pos ⟨hleast, hgreatest⟩, Nat.add_sub_cancel, h]

theorem following_zero {code least greatest v : Nat} (h : code = v) :
    following 0 code least greatest bs = .ok v := by
  rw [following, h]

theorem lead?_two {m : Nat} (h : 2 ≤ m ∧ m < 32) :
    lead? (UInt8.ofNat (m + 192)) = some ⟨1, m, 0x80, 0xBF⟩ := by
  rw [lead?, toNat_byte (by omega), if_pos (by omega), Nat.add_sub_cancel]

theorem lead?_three {m : Nat} (h : m < 16) :
    lead? (UInt8.ofNat (m + 224)) =
      some ⟨2, m, if m = 0 then 0xA0 else 0x80, if m = 13 then 0x9F else 0xBF⟩ := by
  rw [lead?, toNat_byte (by omega), if_neg (by omega), if_pos (by omega), Nat.add_sub_cancel]
  simp only [Nat.reduceEqDiff, Nat.add_eq_right]

theorem lead?_four {m : Nat} (h : m < 5) :
    lead? (UInt8.ofNat (m + 240)) =
      some ⟨3, m, if m = 0 then 0x90 else 0x80, if m = 4 then 0x8F else 0xBF⟩ := by
  rw [lead?, toNat_byte (by omega), if_neg (by omega), if_neg (by omega), if_pos (by omega),
    Nat.add_sub_cancel]
  simp only [Nat.reduceEqDiff, Nat.add_eq_right]

theorem firstChar_of_lead {l : Lead} {c : Char} (hl : lead? b = some l)
    (h : following l.follow l.bits l.least l.greatest bs = .ok c.toNat) :
    firstChar b bs = .ok (c, l.follow) := by
  have hb : ¬ b.toNat < 0x80 := by
    unfold lead? at hl
    grind
  rw [firstChar, if_neg hb, hl]
  simp only [h, Char.ofNat_toNat]

/-- The bytes of a character are read as this character, whatever follows. -/
theorem exists_utf8EncodeChar (c : Char) :
    ∃ b bs, String.utf8EncodeChar c = b :: bs ∧
      ∀ rest, firstChar b (bs ++ rest) = .ok (c, bs.length) := by
  have hvalid : c.toNat < 0xD800 ∨ 0xDFFF < c.toNat ∧ c.toNat < 0x110000 := c.valid
  unfold String.utf8EncodeChar
  dsimp only
  rw [show c.val.toNat = c.toNat from rfl]
  split
  · refine ⟨_, [], rfl, fun rest => ?_⟩
    rw [firstChar, toNat_byte (by omega), if_pos (by omega), Char.ofNat_toNat]
    rfl
  · split
    · refine ⟨_, _, rfl, fun rest => firstChar_of_lead (lead?_two ?_) ?_⟩
      · omega
      · refine following_cons (by omega) ?_ ?_ (following_zero ?_)
        · exact Nat.le_add_left 128 _
        · dsimp only
          omega
        · dsimp only
          omega
    · split
      -- the bounds of the second byte leave out what shorter forms write, and the surrogates
      · refine ⟨_, _, rfl, fun rest => firstChar_of_lead (lead?_three ?_) ?_⟩
        · omega
        · refine following_cons (by omega) ?_ ?_
            (following_cons (by omega) (by omega) (by omega) (following_zero ?_))
          · dsimp only
            split <;> omega
          · dsimp only
            split <;> omega
          · dsimp only
            omega
      · refine ⟨_, _, rfl, fun rest => firstChar_of_lead (lead?_four ?_) ?_⟩
        · omega
        · refine following_cons (by omega) ?_ ?_ (following_cons (by omega) (by omega) (by omega)
            (following_cons (by omega) (by omega) (by omega) (following_zero ?_)))
          · dsimp only
            split <;> omega
          · dsimp only
            split <;> omega
          · dsimp only
            omega

/-- A text comes back from its encoding, in front of anything. -/
theorem chars?_encode_append (cs : List Char) (bs : List UInt8) :
    chars? (encode cs ++ bs) = (chars? bs).map (cs ++ ·) := by
  induction cs with
  | nil => exact Option.map_id'.symm
  | cons c cs ih =>
    obtain ⟨b, tail, hencoded, hfirst⟩ := exists_utf8EncodeChar c
    rw [encode, List.flatMap_cons, hencoded, List.append_assoc, List.cons_append,
      chars?_cons_of_ok (hfirst _), List.drop_left]
    refine (congrArg (Option.map (c :: ·)) ih).trans ?_
    rw [Option.map_map]
    rfl

theorem chars?_encode (cs : List Char) : chars? (encode cs) = some cs := by
  have h := chars?_encode_append cs []
  rw [List.append_nil, chars?_nil] at h
  simpa using h

/-! ### Marks -/

/-- A text without the mark in front. -/
def withoutMark : List Char → List Char
  | '\uFEFF' :: cs => cs
  | cs => cs

theorem encode_mark (cs : List Char) : encode ('\uFEFF' :: cs) = byteOrderMark ++ encode cs := rfl

theorem dropMark_append (bs : List UInt8) : dropMark (byteOrderMark ++ bs) = bs := by
  rw [dropMark, if_pos (List.isPrefixOf_iff_prefix.mpr (List.prefix_append _ _))]
  rfl

theorem dropMark_of_not_isPrefix (h : ¬ byteOrderMark <+: bs) (h' : ¬ bs <+: byteOrderMark) :
    dropMark bs = bs := by
  rw [dropMark, if_neg (mt List.isPrefixOf_iff_prefix.mp h),
    if_neg (mt List.isPrefixOf_iff_prefix.mp h')]

theorem dropMark_of_isPrefix (h : ¬ byteOrderMark <+: bs) (h' : bs <+: byteOrderMark) :
    dropMark bs = [] := by
  rw [dropMark, if_neg (mt List.isPrefixOf_iff_prefix.mp h),
    if_pos (List.isPrefixOf_iff_prefix.mpr h')]

/-- The mark of a text is cut off from its encoding, which is not a mere part of a mark. -/
theorem dropMark_encode (cs : List Char) : dropMark (encode cs) = encode (withoutMark cs) := by
  have hchars := chars?_encode cs
  by_cases hmark : byteOrderMark <+: encode cs
  · obtain ⟨rest, hrest⟩ := hmark
    -- then the text starts with a mark
    have hcons := chars?_encode_append ['\uFEFF'] rest
    rw [show encode ['\uFEFF'] = byteOrderMark from rfl, hrest, hchars] at hcons
    obtain ⟨ds, -, rfl⟩ := Option.map_eq_some_iff.mp hcons.symm
    rw [List.singleton_append, encode_mark, dropMark_append]
    rfl
  · have hstart : withoutMark cs = cs := by
      unfold withoutMark
      split
      · exact absurd (List.prefix_append _ _) hmark
      · rfl
    rw [hstart]
    by_cases hpart : encode cs <+: byteOrderMark
    · -- of the parts of a mark only the empty one can be decoded
      rcases List.prefix_cons_iff.mp hpart with hbytes | ⟨_, hbytes, hpart₁⟩
      · rw [hbytes]
        rfl
      rcases List.prefix_cons_iff.mp hpart₁ with rfl | ⟨_, rfl, hpart₂⟩
      · rw [hbytes, chars?_cons] at hchars
        cases hchars
      rcases List.prefix_cons_iff.mp hpart₂ with rfl | ⟨_, rfl, -⟩
      · rw [hbytes, chars?_cons] at hchars
        cases hchars
      · exact absurd ⟨_, hbytes.symm⟩ hmark
    · exact dropMark_of_not_isPrefix hmark hpart

/-! ### Marks and line endings -/

variable {e : LineEnding} {word : List UInt8}

/-- A word of other bytes stands in front of both or of neither. -/
theorem prefix_inBytes_iff (h : ∀ b ∈ word, b ≠ 0x0A ∧ b ≠ 0x0D) :
    word <+: inBytes e bs ↔ word <+: bs := by
  induction word generalizing bs with
  | nil => exact iff_of_true List.nil_prefix List.nil_prefix
  | cons b word ih =>
    obtain ⟨⟨hnewline, hreturn⟩, hword⟩ := List.forall_mem_cons.mp h
    cases bs with
    | nil => rfl
    | cons x bs =>
      by_cases hx : x = 0x0A
      · subst hx
        obtain ⟨rest, hrest⟩ := e.exists_bytes
        rw [inBytes_newline, hrest, List.cons_append, List.cons_prefix_cons, List.cons_prefix_cons]
        exact iff_of_false (fun h => hreturn h.1) (fun h => hnewline h.1)
      · rw [inBytes_cons_of_ne hx, List.cons_prefix_cons, List.cons_prefix_cons, ih hword]

/-- Bytes are a part of such a word with any line endings or with none. -/
theorem inBytes_prefix_iff (h : ∀ b ∈ word, b ≠ 0x0A ∧ b ≠ 0x0D) :
    inBytes e bs <+: word ↔ bs <+: word := by
  induction bs generalizing word with
  | nil => rfl
  | cons b bs ih =>
    by_cases hb : b = 0x0A
    · subst hb
      obtain ⟨rest, hrest⟩ := e.exists_bytes
      rw [inBytes_newline, hrest, List.cons_append]
      refine iff_of_false (fun hp => ?_) (fun hp => ?_)
      · exact (h _ (hp.subset List.mem_cons_self)).2 rfl
      · exact (h _ (hp.subset List.mem_cons_self)).1 rfl
    · rw [inBytes_cons_of_ne hb]
      cases word with
      | nil => exact iff_of_false (by simp) (by simp)
      | cons x word =>
        rw [List.cons_prefix_cons, List.cons_prefix_cons, ih (List.forall_mem_cons.mp h).2]

theorem dropMark_inBytes (bs : List UInt8) : dropMark (inBytes e bs) = inBytes e (dropMark bs) := by
  have hmark : ∀ b ∈ byteOrderMark, b ≠ 0x0A ∧ b ≠ 0x0D := by simp [byteOrderMark]
  by_cases h : byteOrderMark <+: bs
  · obtain ⟨rest, rfl⟩ := h
    rw [dropMark_append]
    exact dropMark_append (inBytes e rest)
  · have hbytes := mt (prefix_inBytes_iff (e := e) hmark).mp h
    by_cases h' : bs <+: byteOrderMark
    · rw [dropMark_of_isPrefix h h', dropMark_of_isPrefix hbytes ((inBytes_prefix_iff hmark).mpr h')]
      rfl
    · rw [dropMark_of_not_isPrefix h h',
        dropMark_of_not_isPrefix hbytes (mt (inBytes_prefix_iff hmark).mp h')]

end Text

/-! ### The text of a file -/

namespace Files

open Text (LineEnding)

theorem sourceText_eq (bytes : List UInt8) :
    (sourceText bytes).1 =
      Text.unifyNewlines ((Text.chars? (Text.dropMark bytes)).getD (Text.decodeLatin1 bytes)) := by
  unfold sourceText markedUtf8Text utf8Text Text.chars?
  cases Text.decodeUtf8 (Text.dropMark bytes) with
  | ok cs => rfl
  | error fault => rfl

theorem return_notMem_sourceText (bytes : List UInt8) : '\r' ∉ (sourceText bytes).1 := by
  rw [sourceText_eq]
  exact Text.return_notMem_unifyNewlines _

theorem utf8Text_encode {cs : List Char} (h : '\r' ∉ cs) : utf8Text (Text.encode cs) = .ok cs := by
  have hdecode : Text.decodeUtf8 (Text.encode cs) = .ok cs :=
    Except.toOption_eq_some_iff.mp (Text.chars?_encode cs)
  rw [utf8Text, hdecode]
  exact congrArg Except.ok (Text.unifyNewlines_of_notMem h)

/-- **The text of a file in UTF-8** is the one that its bytes encode. -/
theorem sourceText_encode (cs : List Char) :
    (sourceText (Text.encode cs)).1 = Text.unifyNewlines (Text.withoutMark cs) := by
  rw [sourceText_eq, Text.dropMark_encode, Text.chars?_encode, Option.getD_some]

/-- **Bytes that differ in their line endings give the same text**, whatever the encoding. -/
theorem sourceText_inBytes {bytes : List UInt8} (h : 0x0D ∉ bytes) (e : LineEnding) :
    (sourceText (e.inBytes bytes)).1 = (sourceText bytes).1 := by
  rw [sourceText_eq, sourceText_eq, Text.dropMark_inBytes, Text.chars?_inBytes,
    Text.decodeLatin1_inBytes]
  rcases hchars : Text.chars? (Text.dropMark bytes) with - | cs
  · exact Text.unifyNewlines_inText (Text.return_notMem_decodeLatin1 h)
  · have hdrop : 0x0D ∉ Text.dropMark bytes := by
      obtain ⟨mark, hbytes, -⟩ := Text.exists_dropMark bytes
      exact fun hmem => h (hbytes ▸ List.mem_append_right mark hmem)
    exact Text.unifyNewlines_inText (Text.return_notMem_of_chars? hchars hdrop)

end Files

/-- What is found in a source file by looking at its text alone. -/
structure TextFindings where
  directive : Option Directive.Occurrence
  edges : List Failure
  deadReferences : List Failure
  expectedLines : List Nat
deriving DecidableEq, Repr

namespace SourceFile

/-- The banned directive of a file, the failures of the rules on blank edges and on reference
directives, and the lines that errors are expected on. -/
def textFindings (file : SourceFile) : TextFindings where
  directive := Directive.scan file.text.toList
  edges := TrimFile.failures file
  deadReferences := DeadReference.failures file
  expectedLines := Expect.expectedLines file.text.toList

end SourceFile

namespace Files

open Text (LineEnding)

/-- **Line endings do not matter.**  A file that is there is read, as a text without carriage
returns; if it is in UTF-8, as the text that it encodes, without a mark; and a file with other line
endings is read as the same text, so that the same is found in it. -/
theorem lineEndings_alike {w : Workspace} {p : Path} {bytes : List UInt8}
    (h : w.readBytes p = .ok bytes) :
    ∃ text, (readSource w p).result = .ok (some text) ∧ '\r' ∉ text.toList ∧
      (∀ cs, bytes = Text.encode cs →
        text = String.ofList (Text.unifyNewlines (Text.withoutMark cs))) ∧
      (0x0D ∉ bytes → ∀ (e : LineEnding) (w' : Workspace) (p' : Path),
        w'.readBytes p' = .ok (e.inBytes bytes) →
          ∃ text', (readSource w' p').result = .ok (some text') ∧ text' = text ∧
            ∀ name, SourceFile.textFindings ⟨name, text'⟩ =
              SourceFile.textFindings ⟨name, text⟩) := by
  refine ⟨_, Directive.result_readSource h, ?_, ?_, ?_⟩
  · rw [String.toList_ofList]
    exact return_notMem_sourceText bytes
  · rintro cs rfl
    rw [sourceText_encode]
  · intro hreturn e w' p' h'
    have htext := congrArg String.ofList (sourceText_inBytes hreturn e)
    exact ⟨_, Directive.result_readSource h', htext, fun name => by rw [htext]⟩

/-- A text with a mark in front, a blank line at its end, and a letter that ASCII lacks. -/
def markedText : List Char := "\uFEFF// $ExpectError é\n\n".toList

/-- A workspace with two files of this text, which differ in their line endings. -/
def twoEndings : Workspace where
  tree := (FileTree.empty.writeFile ["a.d.ts"] (Text.encode markedText)).writeFile ["b.d.ts"]
    (LineEnding.returnAndNewline.inBytes (Text.encode markedText))
  cwd := []
  environment := []

/-- Both files are read as one text, in which the mark is missing. -/
theorem lineEndings_alike_twoEndings :
    twoEndings.readBytes (Path.ofString "/a.d.ts") = .ok (Text.encode markedText) ∧
      (0x0D : UInt8) ∉ Text.encode markedText ∧
      twoEndings.readBytes (Path.ofString "/b.d.ts") =
        .ok (LineEnding.returnAndNewline.inBytes (Text.encode markedText)) ∧
      (readSource twoEndings (Path.ofString "/a.d.ts")).result =
        .ok (some "// $ExpectError é\n\n") ∧
      (readSource twoEndings (Path.ofString "/b.d.ts")).result =
        .ok (some "// $ExpectError é\n\n") := by
  have hread : twoEndings.readBytes (Path.ofString "/a.d.ts") = .ok (Text.encode markedText) :=
    Except.toOption_eq_some_iff.mp (by decide +kernel)
  have hread' : twoEndings.readBytes (Path.ofString "/b.d.ts") =
      .ok (LineEnding.returnAndNewline.inBytes (Text.encode markedText)) :=
    Except.toOption_eq_some_iff.mp (by decide +kernel)
  have hreturn : (0x0D : UInt8) ∉ Text.encode markedText := by decide +kernel
  obtain ⟨text, htext, -, hencoded, hendings⟩ := lineEndings_alike hread
  have hplain : text = "// $ExpectError é\n\n" :=
    (hencoded markedText rfl).trans (by decide +kernel)
  obtain ⟨text', htext', rfl, -⟩ := hendings hreturn _ _ _ hread'
  exact ⟨hread, hreturn, hread', hplain ▸ htext, hplain ▸ htext'⟩

end Files

end DeclLint
