/-
MemMux/Words.lean

Words: the maximal runs of characters that are no separators, as `str::split_whitespace` finds
them.

Splitting at one separator splits the words (`split_append_cons`), so separators at either end do
not matter and the words of a text can be read off from its parts.
-/
import Mathlib.Data.List.DropRight
import Mathlib.Tactic.Common

namespace Words

variable {α : Type} {p : α → Bool}

/-- The runs between separators that are not empty. -/
def split (p : α → Bool) (cs : List α) : List (List α) := (cs.splitOnP p).filter (· ≠ [])

@[simp] theorem split_nil : split p [] = [] := rfl

/-- A separator ends the words before it. -/
theorem split_append_cons (xs ys : List α) {c : α} (h : p c) :
    split p (xs ++ c :: ys) = split p xs ++ split p ys := by
  rw [split, List.splitOnP_append_cons xs ys h, List.filter_append, split, split]

theorem split_cons (ys : List α) {c : α} (h : p c) : split p (c :: ys) = split p ys :=
  split_append_cons [] ys h

/-- A word is its only word. -/
theorem split_word {w : List α} (h : ∀ c ∈ w, p c = false) (hne : w ≠ []) : split p w = [w] := by
  rw [split, List.splitOnP_eq_singleton h]
  simp [hne]

theorem split_dropWhile (cs : List α) : split p (cs.dropWhile p) = split p cs := by
  induction cs with
  | nil => rfl
  | cons c cs ih =>
      by_cases hc : p c
      · rw [List.dropWhile_cons_of_pos hc, ih, split_cons cs hc]
      · rw [List.dropWhile_cons_of_neg hc]

theorem split_rdropWhile (cs : List α) : split p (cs.rdropWhile p) = split p cs := by
  induction cs using List.reverseRecOn with
  | nil => rfl
  | append_singleton cs c ih =>
      by_cases hc : p c
      · rw [List.rdropWhile_concat_pos _ _ _ hc, ih, split_append_cons cs [] hc, split_nil,
          List.append_nil]
      · rw [List.rdropWhile_concat_neg _ _ _ hc]

/-- Words that each follow a separator, and separators after the last of them. -/
theorem split_flatMap {sep : α} (hsep : p sep) {ws : List (List α)}
    (hws : ∀ w ∈ ws, w ≠ [] ∧ ∀ c ∈ w, p c = false) {stop : List α} (hstop : ∀ c ∈ stop, p c) :
    split p (ws.flatMap (sep :: ·) ++ stop) = ws := by
  have hnone : split p stop = [] := by
    rw [← split_dropWhile, List.dropWhile_eq_nil_iff.mpr hstop, split_nil]
  induction ws with
  | nil => exact hnone
  | cons w ws ih =>
      obtain ⟨hw, hrest⟩ := List.forall_mem_cons.mp hws
      have htail := ih hrest
      have hone := split_word hw.2 hw.1
      rw [List.flatMap_cons, List.cons_append, List.cons_append, split_cons _ hsep]
      rcases ws with - | ⟨v, ws⟩
      · rcases stop with - | ⟨c, stop⟩
        · simpa using hone
        · have hc := hstop c List.mem_cons_self
          rw [split_cons stop hc] at hnone
          rw [List.flatMap_nil, List.append_nil, split_append_cons w stop hc, hone, hnone]
          rfl
      · rw [List.flatMap_cons, List.cons_append, List.cons_append, split_cons _ hsep] at htail
        rw [List.flatMap_cons, List.cons_append, List.append_assoc, List.cons_append,
          split_append_cons w _ hsep, hone, htail]
        rfl

end Words
