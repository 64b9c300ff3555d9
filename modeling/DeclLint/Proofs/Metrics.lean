/-
DeclLint/Proofs/Metrics.lean

What the line with the counts of a pass tells.  It shows the counters in a fixed
order, each with its name in front.  An integer ends where no digit follows, and
behind each counter there is a comma or the end of the row; so the line is read
from left to right, one counter after the other (`shown_inj`), and two passes with
the same line have counted the same (`text_inj`).
-/
import DeclLint.Metrics
import DeclLint.Proofs.Json.Scalar

namespace DeclLint.Counts

variable {c d : Counts} {ks : List Counter}

theorem eq_of_get (h : ∀ k, c.get k = d.get k) : c = d := by
  cases c
  cases d
  congr
  · exact h .filesSeen
  · exact h .defaultLibraryFiles
  · exact h .dependencyFiles
  · exact h .filesScanned
  · exact h .pinnedFilesSkipped
  · exact h .filesLinted

/-- A row of counters, as the line shows it. -/
def shown (c : Counts) (ks : List Counter) : List Char :=
  ks.flatMap fun k => (", '" ++ k.name ++ "': " ++ toString (c.get k)).toList

theorem shown_cons (c : Counts) (k : Counter) (ks : List Counter) :
    c.shown (k :: ks) =
      (", '" ++ k.name ++ "': ").toList ++ (Json.intText (c.get k) ++ c.shown ks) := by
  rw [shown, List.flatMap_cons, String.toList_append, Json.toList_toString, List.append_assoc]
  rfl

theorem isBehind_shown (c : Counts) (ks : List Counter) : Json.IsBehind (c.shown ks) := by
  cases ks with
  | nil => exact fun _ h => nomatch h
  | cons k ks =>
    intro x hx
    simp [shown_cons, String.toList_append] at hx
    exact .inl hx.symm

/-- The counters of a row are known from what is shown of them. -/
theorem shown_inj (h : c.shown ks = d.shown ks) : ∀ k ∈ ks, c.get k = d.get k := by
  induction ks with
  | nil => exact fun _ h => nomatch h
  | cons k ks ih =>
    rw [shown_cons, shown_cons] at h
    obtain ⟨hk, hks⟩ := Json.intText_append_inj (isBehind_shown c ks) (isBehind_shown d ks)
      (List.append_cancel_left h)
    exact List.forall_mem_cons.mpr ⟨hk, ih hks⟩

theorem toList_text (c : Counts) (elapsed : String) : (c.text elapsed).toList =
    ("\x7b'elapsed_seconds': " ++ elapsed).toList ++ (c.shown Counter.all ++ "\x7d".toList) := by
  unfold text shown
  rw [String.toList_append, String.toList_append, String.toList_join, List.flatMap_map,
    List.append_assoc]

/-- **The line tells the counts.** -/
theorem text_inj {elapsed : String} (h : c.text elapsed = d.text elapsed) : c = d := by
  have hlist := congrArg String.toList h
  rw [toList_text, toList_text] at hlist
  have hshown := List.append_cancel_right (List.append_cancel_left hlist)
  refine eq_of_get fun k => shown_inj hshown k ?_
  -- every counter is shown
  cases k <;> decide

end DeclLint.Counts
