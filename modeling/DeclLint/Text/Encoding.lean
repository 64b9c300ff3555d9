/-
DeclLint/Text/Encoding.lean

From bytes to text.  `decodeUtf8` is strict: it refuses overlong forms,
surrogates and code points beyond U+10FFFF, and tells where the first fault
is and which bytes it covers.  `dropMark` removes a byte order mark in front
of a UTF-8 text; Latin-1 gives every byte the character of its number.
-/

namespace DeclLint.Text

/-- Why bytes are no UTF-8. -/
inductive Utf8Cause where
  | invalidStart
  | invalidContinuation
  | unexpectedEnd
deriving Repr, DecidableEq

/-- The first fault of a byte sequence: its offset, the bytes it covers and its cause. -/
structure Utf8Fault where
  start : Nat
  bytes : List UInt8
  cause : Utf8Cause
deriving Repr, DecidableEq

/-- What the first byte of a character announces: how many bytes follow, the bits it
contributes, and the bounds of the second byte. -/
structure Lead where
  follow : Nat
  bits : Nat
  least : Nat
  greatest : Nat

/-- The announcement of a byte that may start a character of more than one byte. -/
def lead? (b : UInt8) : Option Lead :=
  let n := b.toNat
  if 0xC2 ≤ n ∧ n ≤ 0xDF then some ⟨1, n - 0xC0, 0x80, 0xBF⟩
  else if 0xE0 ≤ n ∧ n ≤ 0xEF then
    some ⟨2, n - 0xE0, if n = 0xE0 then 0xA0 else 0x80, if n = 0xED then 0x9F else 0xBF⟩
  else if 0xF0 ≤ n ∧ n ≤ 0xF4 then
    some ⟨3, n - 0xF0, if n = 0xF0 then 0x90 else 0x80, if n = 0xF4 then 0x8F else 0xBF⟩
  else none

/-- Reads `n` following bytes, the first of them within the given bounds: the code point they
complete, or how many of them are sound and what is wrong after those. -/
def following : Nat → Nat → Nat → Nat → List UInt8 → Except (Nat × Utf8Cause) Nat
  | 0, code, _, _, _ => .ok code
  | _ + 1, _, _, _, [] => .error (0, .unexpectedEnd)
  | n + 1, code, least, greatest, b :: bs =>
    if least ≤ b.toNat ∧ b.toNat ≤ greatest then
      match following n (64 * code + (b.toNat - 0x80)) 0x80 0xBF bs with
      | .ok c => .ok c
      | .error (k, cause) => .error (k + 1, cause)
    else .error (0, .invalidContinuation)

/-- The first character of a non-empty byte sequence and the number of bytes after its first
one, or the number of bytes that the fault covers after the first one. -/
def firstChar (b : UInt8) (bs : List UInt8) : Except (Nat × Utf8Cause) (Char × Nat) :=
  if b.toNat < 0x80 then .ok (Char.ofNat b.toNat, 0)
  else
    match lead? b with
    | none => .error (0, .invalidStart)
    | some l =>
      match following l.follow l.bits l.least l.greatest bs with
      | .ok code => .ok (Char.ofNat code, l.follow)
      | .error fault => .error fault

/-- Decodes the bytes from offset `start` on. -/
def decodeUtf8From (start : Nat) : List UInt8 → Except Utf8Fault (List Char)
  | [] => .ok []
  | b :: bs =>
    match firstChar b bs with
    | .ok (c, n) =>
      match decodeUtf8From (start + 1 + n) (bs.drop n) with
      | .ok cs => .ok (c :: cs)
      | .error fault => .error fault
    | .error (n, cause) => .error ⟨start, b :: bs.take n, cause⟩
termination_by bs => bs.length
decreasing_by
  simp only [List.length_drop, List.length_cons]
  omega

/-- The text that bytes write in UTF-8. -/
def decodeUtf8 (bs : List UInt8) : Except Utf8Fault (List Char) :=
  decodeUtf8From 0 bs

/-- The byte order mark. -/
def byteOrderMark : List UInt8 := [0xEF, 0xBB, 0xBF]

/-- The bytes after a byte order mark in front; a file that holds no more than the beginning of
a mark counts as empty. -/
def dropMark (bs : List UInt8) : List UInt8 :=
  if byteOrderMark.isPrefixOf bs then bs.drop 3
  else if bs.isPrefixOf byteOrderMark then []
  else bs

/-- The text that bytes write in Latin-1. -/
def decodeLatin1 (bs : List UInt8) : List Char :=
  bs.map fun b => Char.ofNat b.toNat

end DeclLint.Text
