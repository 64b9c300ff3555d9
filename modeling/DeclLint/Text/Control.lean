/-
DeclLint/Text/Control.lean

Control sequences of terminals.  A sequence is an escape character and an
opening bracket, any number of parameter characters, any number of
intermediate ones, and a final one.  `withoutControls` leaves out all
sequences of a text, from left to right; what looks like the start of one and
does not end in a final character stays.
-/

namespace DeclLint.Text

/-- A character whose number lies between two others. -/
def isBetween (least greatest : Nat) (c : Char) : Bool :=
  decide (least ≤ c.toNat) && decide (c.toNat ≤ greatest)

/-- What follows the parameters, the intermediate characters and the final one of a sequence. -/
def afterControl? (cs : List Char) : Option (List Char) :=
  match (cs.dropWhile (isBetween 0x30 0x3F)).dropWhile (isBetween 0x20 0x2F) with
  | c :: rest => if isBetween 0x40 0x7E c then some rest else none
  | [] => none

theorem length_afterControl?_lt {cs rest : List Char} (h : afterControl? cs = some rest) :
    rest.length < cs.length := by
  unfold afterControl? at h
  split at h
  · next c t ht =>
    split at h
    · cases h
      have h₁ := (List.dropWhile_sublist (l := cs) (isBetween 0x30 0x3F)).length_le
      have h₂ := (List.dropWhile_sublist (l := cs.dropWhile (isBetween 0x30 0x3F))
        (isBetween 0x20 0x2F)).length_le
      rw [ht, List.length_cons] at h₂
      omega
    · cases h
  · cases h

/-- The text without its control sequences. -/
def withoutControls : List Char → List Char
  | [] => []
  | '\x1b' :: '[' :: cs =>
    match _h : afterControl? cs with
    | some rest => withoutControls rest
    | none => '\x1b' :: withoutControls ('[' :: cs)
  | c :: cs => c :: withoutControls cs
termination_by cs => cs.length
decreasing_by
  · have := length_afterControl?_lt _h
    simp only [List.length_cons]
    omega
  · simp only [List.length_cons]
    omega
  · simp only [List.length_cons]
    omega

end DeclLint.Text
