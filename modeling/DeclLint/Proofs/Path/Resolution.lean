/-
DeclLint/Proofs/Path/Resolution.lean

The lexical resolution of paths, without the stack that computes it.  To cancel a
double dot is a rewriting step (`CancelsDot`): it goes together with the name in
front of it, or by itself at a root.  What no step applies to is *resolved*: double
dots stand only at the start of a relative path.  Each step leaves the result of
`cancelDots` as it is, and it is reached by steps; so it is the one resolved list
that the segments come to, in whatever order the double dots are cancelled
(`cancelDots_eq_iff`).

`Resolves` says in these terms which path a text stands for, and `resolves_iff` that
it is its resolution.

Names whose double dots cancel among themselves are resolved alike wherever they are
followed from (`cancelDots_append_of_notMem`).
-/
import DeclLint.Proofs.Path.Role
import Mathlib.Data.List.Basic
import Mathlib.Data.List.Induction
import Mathlib.Logic.Relation

namespace DeclLint.Path

variable {rooted : Bool} {xs ys names stack : List String} {s t : String}

/-! ### Names in front of others -/

theorem foldl_push_of_notMem (h : ".." ∉ names) (stack : List String) :
    names.foldl (push rooted) stack = names.reverse ++ stack := by
  induction names generalizing stack with
  | nil => rfl
  | cons s names ih =>
    obtain ⟨hs, hnames⟩ := not_or.mp (mt List.mem_cons.mpr h)
    rw [List.foldl_cons, push_of_ne _ _ (Ne.symm hs), ih hnames]
    simp

/-- Names without double dots are kept behind what the others come to. -/
theorem cancelDots_append (h : ".." ∉ names) (segments : List String) :
    cancelDots rooted (segments ++ names) = cancelDots rooted segments ++ names := by
  rw [cancelDots, cancelDots, List.foldl_append, foldl_push_of_notMem h]
  simp

theorem resolveDots_of_notMem {p : Path} (h : ".." ∉ p.segments) : p.resolveDots = p := by
  have hsegments : cancelDots p.isAbsolute ([] ++ p.segments) = p.segments :=
    cancelDots_append h []
  rw [resolveDots]
  exact congrArg (Path.mk p.root) hsegments

/-! ### Cancelling double dots -/

/-- A double dot is cancelled: with the name in front of it, or at a root. -/
inductive CancelsDot (rooted : Bool) : List String → List String → Prop where
  | name (before : List String) {s : String} (after : List String) (hs : s ≠ "..") :
      CancelsDot rooted (before ++ s :: ".." :: after) (before ++ after)
  | root (after : List String) (hroot : rooted = true) :
      CancelsDot rooted (".." :: after) after

/-- Double dots stand in front of all names, and at a root there are none. -/
def IsResolved (rooted : Bool) (segments : List String) : Prop :=
  ∃ n names, ".." ∉ names ∧ (rooted = true → n = 0) ∧
    segments = List.replicate n ".." ++ names

/-- What one more segment does to a stack. -/
theorem push_cases (rooted : Bool) (stack : List String) (s : String) :
    (s ≠ ".." ∧ push rooted stack s = s :: stack) ∨
    (s = ".." ∧ ∃ t rest, t ≠ ".." ∧ stack = t :: rest ∧ push rooted stack s = rest) ∨
    (s = ".." ∧ rooted = true ∧ stack = [] ∧ push rooted stack s = []) ∨
    (s = ".." ∧ (rooted = false ∨ stack ≠ []) ∧ (∀ t ∈ stack.head?, t = "..") ∧
      push rooted stack s = ".." :: stack) := by
  by_cases hs : s = ".."
  · subst hs
    rcases stack with - | ⟨top, rest⟩
    · cases rooted with
      | true => exact Or.inr (Or.inr (Or.inl ⟨rfl, rfl, rfl, rfl⟩))
      | false => exact Or.inr (Or.inr (Or.inr ⟨rfl, Or.inl rfl, nofun, rfl⟩))
    · by_cases htop : top = ".."
      · subst htop
        refine Or.inr (Or.inr (Or.inr ⟨rfl, Or.inr (List.cons_ne_nil _ _), ?_, rfl⟩))
        rintro t ⟨⟩
        rfl
      · refine Or.inr (Or.inl ⟨rfl, top, rest, htop, rfl, ?_⟩)
        simp [push, htop]
  · exact Or.inl ⟨hs, push_of_ne rooted stack hs⟩

theorem cancelDots_concat (rooted : Bool) (xs : List String) (s : String) :
    cancelDots rooted (xs ++ [s]) = (push rooted (cancelDots rooted xs).reverse s).reverse := by
  rw [cancelDots, cancelDots, List.foldl_append, List.reverse_reverse]
  rfl

theorem CancelsDot.append_right (h : CancelsDot rooted xs ys) (zs : List String) :
    CancelsDot rooted (xs ++ zs) (ys ++ zs) := by
  cases h with
  | name before after hs =>
    rw [List.append_assoc, List.append_assoc]
    exact .name before (after ++ zs) hs
  | root after hroot => exact .root (ys ++ zs) hroot

/-- The segments come to what the stack says. -/
theorem reduces_cancelDots (rooted : Bool) (xs : List String) :
    Relation.ReflTransGen (CancelsDot rooted) xs (cancelDots rooted xs) := by
  induction xs using List.reverseRecOn with
  | nil => exact .refl
  | append_singleton xs s ih =>
    have hlifted := ih.lift (· ++ [s]) fun _ _ h => h.append_right [s]
    refine hlifted.trans ?_
    rw [cancelDots_concat]
    rcases push_cases rooted (cancelDots rooted xs).reverse s with
      ⟨-, h⟩ | ⟨rfl, t, rest, ht, hstack, h⟩ | ⟨rfl, hroot, hstack, h⟩ | ⟨rfl, -, -, h⟩
    · rw [h, List.reverse_cons, List.reverse_reverse]
    · rw [List.reverse_eq_cons_iff] at hstack
      have hstep : CancelsDot rooted (rest.reverse ++ [t, ".."]) (rest.reverse ++ []) :=
        .name rest.reverse [] ht
      rw [h, hstack]
      simpa using Relation.ReflTransGen.single hstep
    · rw [h, List.reverse_eq_nil_iff.mp hstack]
      exact .single (.root [] hroot)
    · rw [h, List.reverse_cons, List.reverse_reverse]

/-- A step leaves the result as it is. -/
theorem cancelDots_of_cancelsDot (h : CancelsDot rooted xs ys) :
    cancelDots rooted xs = cancelDots rooted ys := by
  cases h with
  | @name before s after hs =>
    have hpush : push rooted (push rooted (before.foldl (push rooted) []) s) ".." =
        before.foldl (push rooted) [] := by
      rw [push_of_ne _ _ hs]
      simp [push, hs]
    rw [cancelDots, cancelDots, List.foldl_append, List.foldl_append, List.foldl_cons,
      List.foldl_cons, hpush]
  | root after hroot =>
    rw [hroot]
    rfl

theorem cancelDots_of_reduces (h : Relation.ReflTransGen (CancelsDot rooted) xs ys) :
    cancelDots rooted xs = cancelDots rooted ys := by
  induction h with
  | refl => rfl
  | tail _ hstep ih => exact ih.trans (cancelDots_of_cancelsDot hstep)

theorem isResolved_cancelDots (rooted : Bool) (xs : List String) :
    IsResolved rooted (cancelDots rooted xs) := by
  induction xs using List.reverseRecOn with
  | nil => exact ⟨0, [], List.not_mem_nil, fun _ => rfl, rfl⟩
  | append_singleton xs s ih =>
    obtain ⟨n, names, hnames, hn, heq⟩ := ih
    rw [cancelDots_concat]
    rcases push_cases rooted (cancelDots rooted xs).reverse s with
      ⟨hs, h⟩ | ⟨rfl, t, rest, ht, hstack, h⟩ | ⟨rfl, -, -, h⟩ | ⟨rfl, hopen, htop, h⟩
    -- a name stands behind the others
    · refine ⟨n, names ++ [s], ?_, hn, ?_⟩
      · simpa [hnames] using Ne.symm hs
      · rw [h, List.reverse_cons, List.reverse_reverse, heq, List.append_assoc]
    -- the last name is cancelled
    · rw [List.reverse_eq_cons_iff] at hstack
      rw [h]
      rcases List.eq_nil_or_concat' names with rfl | ⟨names, t', rfl⟩
      · have hmem : t ∈ List.replicate n ".." := by
          rw [List.append_nil] at heq
          rw [← heq, hstack]
          simp
        exact absurd (List.eq_of_mem_replicate hmem) ht
      · have hconcat : rest.reverse ++ [t] = (List.replicate n ".." ++ names) ++ [t'] := by
          rw [← hstack, heq, List.append_assoc]
        rw [(List.append_inj' hconcat rfl).1]
        exact ⟨n, names, fun hmem => hnames (List.mem_append_left _ hmem), hn, rfl⟩
    · rw [h]
      exact ⟨0, [], List.not_mem_nil, fun _ => rfl, rfl⟩
    -- there is no name to cancel, so there are none
    · rcases List.eq_nil_or_concat' names with rfl | ⟨names, t', rfl⟩
      · rw [List.append_nil] at heq
        refine ⟨n + 1, [], List.not_mem_nil, fun hroot => ?_, ?_⟩
        · rw [heq, hn hroot, hroot] at hopen
          simp at hopen
        · rw [h, List.reverse_cons, List.reverse_reverse, heq, List.append_nil,
            List.replicate_succ']
      · have ht' : t' = ".." := htop t' (by rw [heq]; simp)
        exact absurd (ht' ▸ by simp) hnames

theorem cancelDots_of_isResolved (h : IsResolved rooted xs) : cancelDots rooted xs = xs := by
  obtain ⟨n, names, hnames, hn, rfl⟩ := h
  have hdots : (List.replicate n "..").foldl (push rooted) [] = List.replicate n ".." := by
    cases rooted with
    | true =>
      rw [hn rfl]
      rfl
    | false =>
      clear hn
      induction n with
      | zero => rfl
      | succ n ih =>
        rw [List.replicate_succ', List.foldl_append, ih]
        cases n with
        | zero => rfl
        | succ n =>
          show ".." :: ".." :: List.replicate n ".." = _
          rw [← List.replicate_succ, ← List.replicate_succ, List.replicate_succ']
  rw [cancelDots, List.foldl_append, hdots, foldl_push_of_notMem hnames]
  simp

/-- **Cancelling double dots gives the one resolved list that the segments come to.** -/
theorem cancelDots_eq_iff :
    cancelDots rooted xs = ys ↔
      Relation.ReflTransGen (CancelsDot rooted) xs ys ∧ IsResolved rooted ys := by
  constructor
  · rintro rfl
    exact ⟨reduces_cancelDots rooted xs, isResolved_cancelDots rooted xs⟩
  · rintro ⟨hreduces, hresolved⟩
    rw [cancelDots_of_reduces hreduces, cancelDots_of_isResolved hresolved]

/-- Names that come to names without double dots by themselves come to the same on a stack. -/
theorem foldl_push_of_cancelled (h : ".." ∉ names.foldl (push false) []) (stack : List String) :
    names.foldl (push rooted) stack = names.foldl (push false) [] ++ stack := by
  induction names using List.reverseRecOn with
  | nil => rfl
  | append_singleton names s ih =>
    rw [List.foldl_append, List.foldl_cons, List.foldl_nil] at h
    rw [List.foldl_append, List.foldl_append, List.foldl_cons, List.foldl_cons, List.foldl_nil,
      List.foldl_nil]
    rcases push_cases false (names.foldl (push false) []) s with
      ⟨hs, hpush⟩ | ⟨rfl, t, rest, ht, hnames, hpush⟩ | ⟨-, hroot, -⟩ | ⟨rfl, -, -, hpush⟩
    · rw [hpush] at h ⊢
      rw [ih fun hmem => h (List.mem_cons_of_mem s hmem), push_of_ne _ _ hs]
      rfl
    -- the double dot cancels one of these names, not one of the stack
    · rw [hpush] at h ⊢
      have hdots : ".." ∉ t :: rest := by
        simpa [h] using Ne.symm ht
      rw [ih (hnames ▸ hdots), hnames]
      simp [push, ht]
    · cases hroot
    · rw [hpush] at h
      exact absurd List.mem_cons_self h

/-- Names whose double dots cancel among themselves are resolved alike behind others. -/
theorem cancelDots_append_of_notMem (h : ".." ∉ cancelDots false names)
    (segments : List String) :
    cancelDots rooted (segments ++ names) =
      cancelDots rooted segments ++ cancelDots false names := by
  have hnames : ".." ∉ names.foldl (push false) [] := mt List.mem_reverse.mpr h
  rw [cancelDots, cancelDots, cancelDots, List.foldl_append, foldl_push_of_cancelled hnames,
    List.reverse_append]

/-! ### What a text stands for -/

/-- Either slash. -/
def isSlash (c : Char) : Bool :=
  c = '/' || c = '\\'

/-- The names in a text, between slashes of either kind. -/
def named (s : String) : List String :=
  ((s.toList.splitOnP isSlash).map String.ofList).filter (!isIdle ·)

/-- The root that so many slashes in front stand for: two are a root of their own, any other number
is one slash. -/
def rootOfCount : Nat → PathRoot
  | 0 => .relative
  | 2 => .double
  | _ => .single

/-- The path is what the text stands for: the root is read off the slashes in front, and double
dots are cancelled until none is left that can be. -/
structure Resolves (s : String) (p : Path) : Prop where
  root : p.root = rootOfCount (s.toList.takeWhile isSlash).length
  reduces : Relation.ReflTransGen (CancelsDot p.isAbsolute) (named s) p.segments
  resolved : IsResolved p.isAbsolute p.segments

theorem pieces_forwardSlashes (cs : List Char) :
    Text.pieces '/' (forwardSlashes cs) = cs.splitOnP isSlash := by
  induction cs with
  | nil => rfl
  | cons c cs ih =>
    have hc : (if c = '\\' then '/' else c) = '/' ↔ isSlash c = true := by
      by_cases hback : c = '\\' <;> simp [isSlash, hback]
    rw [List.splitOnP_cons_eq_if_modifyHead, ← ih]
    show Text.pieces '/' ((if c = '\\' then '/' else c) :: forwardSlashes cs) = _
    rw [Text.pieces]
    by_cases hslash : isSlash c = true
    · rw [if_pos (hc.mpr hslash), if_pos hslash]
    · have hback : c ≠ '\\' := by
        rintro rfl
        exact hslash rfl
      rw [if_neg (mt hc.mp hslash), if_neg hslash, if_neg hback]

theorem rootOf_eq (cs : List Char) :
    rootOf cs = rootOfCount (cs.takeWhile (· = '/')).length := by
  rcases cs with - | ⟨a, - | ⟨b, - | ⟨c, cs⟩⟩⟩
  · rfl
  · by_cases ha : a = '/' <;> simp [rootOf, rootOfCount, ha]
  · by_cases ha : a = '/' <;> by_cases hb : b = '/' <;> simp [rootOf, rootOfCount, ha, hb]
  · by_cases ha : a = '/' <;> by_cases hb : b = '/' <;> by_cases hc : c = '/' <;>
      simp [rootOf, rootOfCount, ha, hb, hc]

theorem rootOf_forwardSlashes (cs : List Char) :
    rootOf (forwardSlashes cs) = rootOfCount (cs.takeWhile isSlash).length := by
  have hslash : (fun c : Char => decide (c = '/')) ∘ (fun c => if c = '\\' then '/' else c) =
      isSlash := by
    funext c
    by_cases hback : c = '\\' <;> simp [isSlash, hback]
  rw [rootOf_eq, forwardSlashes, List.takeWhile_map, hslash, List.length_map]

theorem resolution_eq_mk (s : String) :
    resolution s = resolveDots ⟨rootOfCount (s.toList.takeWhile isSlash).length, named s⟩ := by
  rw [resolution, ofString, String.toList_ofList, rootOf_forwardSlashes, segmentsOf,
    pieces_forwardSlashes]
  rfl

/-- **A text stands for one path, its resolution.** -/
theorem resolves_iff {p : Path} : Resolves s p ↔ p = resolution s := by
  rw [resolution_eq_mk]
  constructor
  · rintro ⟨hroot, hreduces, hresolved⟩
    have hsegments := cancelDots_eq_iff.mpr ⟨hreduces, hresolved⟩
    obtain ⟨root, segments⟩ := p
    subst hroot
    exact congrArg (Path.mk _) hsegments.symm
  · rintro rfl
    exact ⟨rfl, reduces_cancelDots _ _, isResolved_cancelDots _ _⟩

end DeclLint.Path
