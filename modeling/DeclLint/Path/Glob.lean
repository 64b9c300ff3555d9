/-
DeclLint/Path/Glob.lean

Patterns for paths.  A pattern is a list of segments; `**` stands for any
number of path segments and every other one for exactly one, which it
matches as a wildcard: `*` for any characters, `?` for one character, and
brackets for one character of a set, of its complement after `!`, or of a
range.  A bracket that is never closed stands for itself.
-/
import DeclLint.Limit
import DeclLint.Path.Basic
import DeclLint.Text.Loose

namespace DeclLint.Path

open Text (CodePoint)

/-! ### One segment -/

/-- What a set between brackets lists: a code point or a closed range of them. -/
inductive SetItem where
  | one (p : CodePoint)
  | range (lo hi : CodePoint)
deriving Repr, DecidableEq

/-- The item lists the character. -/
def SetItem.accepts (c : Char) : SetItem → Bool
  | .one p => p.toNat = c.toNat
  | .range lo hi => decide (lo.toNat ≤ c.toNat) && decide (c.toNat ≤ hi.toNat)

/-- The items that the text between brackets lists.  A hyphen between two code points makes a
range; a range that runs backwards is dropped. -/
def setItems : LooseText → List SetItem
  | lo :: .char '-' :: hi :: ps =>
    if lo.toNat ≤ hi.toNat then .range lo hi :: setItems ps else setItems ps
  | p :: ps => .one p :: setItems ps
  | [] => []

/-- One element of a wildcard pattern. -/
inductive Wild where
  | literal (p : CodePoint)
  | anyOne
  | anyMany
  | set (complement : Bool) (items : List SetItem)
deriving Repr, DecidableEq

/-- What stands between a bracket and the next closing one, and the text after it.  A closing
bracket that comes first, or first after `!`, belongs to the set. -/
def bracket? (ps : LooseText) : Option (LooseText × LooseText) :=
  let (mark, ps) := match ps with
    | .char '!' :: r => ([CodePoint.char '!'], r)
    | r => ([], r)
  let (first, ps) := match ps with
    | .char ']' :: r => ([CodePoint.char ']'], r)
    | r => ([], r)
  match ps.dropWhile (· != CodePoint.char ']') with
  | [] => none
  | _ :: rest => some (mark ++ first ++ ps.takeWhile (· != CodePoint.char ']'), rest)

/-- The element that the text between brackets writes.  The `!` in front makes it a complement
also where only dropped ranges stand before it; the hyphen behind such a one is a plain
character. -/
def setOf : LooseText → Wild
  | .char '!' :: ps => .set true (setItems ps)
  | ps =>
    match setItems ps with
    | .one (.char '!') :: items => .set true items
    | .range (.char '!') hi :: items => .set true (.one (.char '-') :: .one hi :: items)
    | items => .set false items

theorem length_bracket?_le {ps body rest : LooseText} (h : bracket? ps = some (body, rest)) :
    rest.length ≤ ps.length := by
  unfold bracket? at h
  split at h
  next mark t₁ h₁ =>
  have l₁ : t₁.length ≤ ps.length := by
    split at h₁ <;> cases h₁ <;> simp
  split at h
  next first t₂ h₂ =>
  have l₂ : t₂.length ≤ t₁.length := by
    split at h₂ <;> cases h₂ <;> simp
  split at h
  · cases h
  · next x r h₃ =>
    cases h
    have := (List.dropWhile_sublist (l := t₂) (· != CodePoint.char ']')).length_le
    rw [h₃] at this
    simp at this
    omega

/-- The elements of the pattern for one segment; neighbouring stars count as one. -/
def wilds : LooseText → List Wild
  | [] => []
  | .char '*' :: ps =>
    match wilds ps with
    | .anyMany :: ws => .anyMany :: ws
    | ws => .anyMany :: ws
  | .char '?' :: ps => .anyOne :: wilds ps
  | .char '[' :: ps =>
    match _h : bracket? ps with
    | some (body, rest) => setOf body :: wilds rest
    | none => .literal (.char '[') :: wilds ps
  | p :: ps => .literal p :: wilds ps
termination_by ps => ps.length
decreasing_by
  all_goals simp
  have := length_bracket?_le _h
  omega

/-- The element matches the single character. -/
def Wild.accepts (c : Char) : Wild → Bool
  | .literal p => p.toNat = c.toNat
  | .anyOne => true
  | .anyMany => false
  | .set complement items => (items.any (·.accepts c)) != complement

/-- For every entry of a list, whether it or one behind it is true. -/
def someBehind (bs : List Bool) : List Bool :=
  bs.foldr (fun b acc => (b || acc.headD false) :: acc) []

/-- For every end of a text, from the whole text to the empty one: whether the pattern matches
it. -/
def endsMatched : List Wild → List Char → List Bool
  | [], cs => cs.map (fun _ => false) ++ [true]
  | .anyMany :: ws, cs => someBehind (endsMatched ws cs)
  | w :: ws, cs =>
    (List.zipWith (fun c b => w.accepts c && b) cs (endsMatched ws cs).tail) ++ [false]

/-- The pattern matches the whole text. -/
def wildMatches (ws : List Wild) (cs : List Char) : Bool :=
  (endsMatched ws cs).headD false

/-- The wildcard pattern matches the segment. -/
def segmentMatches (pattern : LooseText) (segment : String) : Bool :=
  wildMatches (wilds pattern) segment.toList

theorem someBehind_cons (b : Bool) (bs : List Bool) :
    someBehind (b :: bs) = (b || (someBehind bs).headD false) :: someBehind bs := rfl

theorem endsMatched_eq_cons (ws : List Wild) (cs : List Char) :
    endsMatched ws cs = wildMatches ws cs :: (endsMatched ws cs).tail := by
  have h : endsMatched ws cs ≠ [] := by
    induction ws with
    | nil => simp [endsMatched]
    | cons w ws ih =>
      cases w with
      | anyMany =>
        obtain ⟨b, bs, hb⟩ := List.exists_cons_of_ne_nil ih
        simp [endsMatched, hb, someBehind_cons]
      | _ => simp [endsMatched]
  obtain ⟨b, bs, hb⟩ := List.exists_cons_of_ne_nil h
  simp [wildMatches, hb]

/-- The table of a text is that of its tail with one more entry in front. -/
theorem tail_endsMatched_cons (ws : List Wild) (c : Char) (cs : List Char) :
    (endsMatched ws (c :: cs)).tail = endsMatched ws cs := by
  induction ws with
  | nil => rfl
  | cons w ws ih =>
    cases w with
    | anyMany =>
      rw [endsMatched, endsMatched_eq_cons ws (c :: cs), someBehind_cons, List.tail_cons, ih,
        endsMatched]
    | _ =>
      simp only [endsMatched, ih]
      rw [endsMatched_eq_cons ws cs]
      rfl

/-- The empty pattern matches the empty text only. -/
theorem wildMatches_nil (cs : List Char) : wildMatches [] cs = cs.isEmpty := by
  cases cs <;> rfl

/-- A star matches nothing, or one character and whatever a star matches. -/
theorem wildMatches_anyMany_cons (ws : List Wild) (c : Char) (cs : List Char) :
    wildMatches (.anyMany :: ws) (c :: cs) =
      (wildMatches ws (c :: cs) || wildMatches (.anyMany :: ws) cs) := by
  rw [wildMatches, endsMatched, endsMatched_eq_cons ws (c :: cs), someBehind_cons,
    List.headD_cons, tail_endsMatched_cons]
  rfl

/-- Every element but a star matches exactly one character. -/
theorem wildMatches_cons {w : Wild} (h : w ≠ .anyMany) (ws : List Wild) (c : Char)
    (cs : List Char) :
    wildMatches (w :: ws) (c :: cs) = (w.accepts c && wildMatches ws cs) := by
  cases w with
  | anyMany => exact absurd rfl h
  | _ =>
    rw [wildMatches, endsMatched, tail_endsMatched_cons, endsMatched_eq_cons ws cs]
    · rfl
    · simp

/-! ### Whole paths -/

/-- One segment of a pattern for paths. -/
inductive GlobSegment (π : Type) where
  /-- Any number of path segments. -/
  | deep
  /-- Exactly one path segment. -/
  | one (pattern : π)
deriving Repr, DecidableEq

/-- The pattern matches the segments, where `accepts` decides about a single one. -/
def globMatches {π σ : Type} (accepts : π → σ → Bool) : List (GlobSegment π) → List σ → Bool
  | [], ss => ss.isEmpty
  | .deep :: ps, ss => (List.range (ss.length + 1)).any fun i => globMatches accepts ps (ss.drop i)
  | .one _ :: _, [] => false
  | .one p :: ps, s :: ss => accepts p s && globMatches accepts ps ss

/-- The first result that is not false, from left to right. -/
def firstResult {α : Type} (f : α → Option Bool) : List α → Option Bool
  | [] => some false
  | x :: xs =>
    match f x with
    | some false => firstResult f xs
    | r => r

/-- Matching with a bound on its nesting: a `**` takes three levels, every other segment one.
There is no result where the bound is too low. -/
def globWithin {π σ : Type} (accepts : π → σ → Bool) :
    Nat → List (GlobSegment π) → List σ → Option Bool
  | 0, _, _ => none
  | _ + 1, [], ss => some ss.isEmpty
  | n + 1, .deep :: ps, ss =>
    firstResult (fun i => globWithin accepts (n - 2) ps (ss.drop i)) (List.range (ss.length + 1))
  | _ + 1, .one _ :: _, [] => some false
  | n + 1, .one p :: ps, s :: ss => if accepts p s then globWithin accepts n ps ss else some false

theorem firstResult_eq_any {α : Type} {f : α → Option Bool} {g : α → Bool} {xs : List α} {b : Bool}
    (hf : ∀ x c, f x = some c → g x = c) (h : firstResult f xs = some b) : xs.any g = b := by
  induction xs with
  | nil => simpa [firstResult] using h
  | cons x xs ih =>
    rw [firstResult] at h
    split at h
    · next hx => rw [List.any_cons, hf x false hx, ih h, Bool.false_or]
    · next hx =>
      cases b with
      | true => rw [List.any_cons, hf x true h, Bool.true_or]
      | false => exact absurd h hx

/-- Where bounded matching has a result, it is the right one. -/
theorem globMatches_of_globWithin {π σ : Type} {accepts : π → σ → Bool} {n : Nat}
    {ps : List (GlobSegment π)} {ss : List σ} {b : Bool}
    (h : globWithin accepts n ps ss = some b) : globMatches accepts ps ss = b := by
  induction ps generalizing n ss b with
  | nil =>
    cases n with
    | zero => cases h
    | succ n => simpa [globWithin, globMatches] using h
  | cons p ps ih =>
    cases n with
    | zero => cases h
    | succ n =>
      cases p with
      | deep =>
        rw [globWithin] at h
        rw [globMatches]
        exact firstResult_eq_any (fun i c hi => ih hi) h
      | one p =>
        cases ss with
        | nil => simpa [globWithin, globMatches] using h
        | cons s ss =>
          rw [globWithin] at h
          rw [globMatches]
          split at h
          · next ha => rw [ha, ih h, Bool.true_and]
          · next ha => simpa [ha] using h

/-- The segments of the pattern that a text writes with either kind of slash. -/
def globOf (pattern : LooseText) : List (GlobSegment LooseText) :=
  let slashed := pattern.map fun p => if p = .char '\\' then .char '/' else p
  let slashes := slashed.takeWhile (· = .char '/')
  let root := rootText (rootOf (slashes.map fun _ => '/'))
  let segments := (Text.pieces (.char '/') slashed).filter fun ps =>
    ps ≠ [] && ps ≠ [.char '.']
  (if root = "" then segments else LooseText.ofString root :: segments).map fun ps =>
    if ps = LooseText.ofString "**" then .deep else .one ps

/-- Matching the path with the pattern is nested too deep for the room that there is. -/
def isTooDeep (room : Nat) (g : List (GlobSegment LooseText)) (parts : List String) : Bool :=
  decide (room ≤ 3 * g.length) && (globWithin segmentMatches room g parts).isNone

/-- The pattern matches the whole path. -/
def matchesGlob (parts : List String) (pattern : LooseText) : Bool :=
  globMatches segmentMatches (globOf pattern) parts

/-- The pattern without a `**` at its end. -/
def withoutTail (g : List (GlobSegment LooseText)) : List (GlobSegment LooseText) :=
  if g.getLast? = some .deep then g.dropLast else g

/-- The non-empty beginnings of a list, from the shortest to the whole. -/
def beginnings {α : Type} (xs : List α) : List (List α) :=
  (List.range xs.length).map fun i => xs.take (i + 1)

/-- The pattern matches the path or a directory that it lies in. -/
def isExcludedBy (parts : List String) (pattern : LooseText) : Bool :=
  (beginnings parts).any (globMatches segmentMatches (withoutTail (globOf pattern)))

/-- Some pattern matches the path or a directory that it lies in. -/
def isExcluded (parts : List String) (patterns : List LooseText) : Bool :=
  patterns.any (isExcludedBy parts)

end DeclLint.Path
