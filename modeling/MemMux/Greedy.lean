/-
MemMux/Greedy.lean

Greedy selection: walk a list and take every item whose weight still fits the capacity left.

The walk splits at any point (`take_append`), so whether an item is taken is decided by the items
taken before it, and by nothing behind it (`mem_take_iff`).  What is left out does not fit even
in what remains at the end (`lt_of_not_mem_take`): the capacity only shrinks along the
walk.
-/
import Mathlib.Algebra.GroupWithZero.Nat
import Mathlib.Algebra.Order.BigOperators.Group.List
import Mathlib.Data.List.Nodup
import Mathlib.Tactic.Common

namespace Greedy

variable {α : Type} (weight : α → Nat)

/-- The items taken from a list with a given capacity. -/
def take : List α → Nat → List α
  | [], _ => []
  | a :: as, capacity =>
      if weight a ≤ capacity then a :: take as (capacity - weight a) else take as capacity

/-- The total weight of a list of items. -/
def total (as : List α) : Nat := (as.map weight).sum

variable {weight}

theorem total_cons (a : α) (as : List α) : total weight (a :: as) = weight a + total weight as :=
  List.sum_cons

theorem total_perm {as bs : List α} (h : as.Perm bs) : total weight as = total weight bs :=
  (h.map weight).sum_eq

theorem take_sublist (as : List α) (capacity : Nat) : (take weight as capacity).Sublist as := by
  induction as generalizing capacity with
  | nil => exact .slnil
  | cons a as ih =>
      rw [take]
      split
      · exact (ih _).cons_cons a
      · exact (ih _).cons a

/-- What is taken fits. -/
theorem total_take_le (as : List α) (capacity : Nat) :
    total weight (take weight as capacity) ≤ capacity := by
  induction as generalizing capacity with
  | nil => exact Nat.zero_le _
  | cons a as ih =>
      rw [take]
      split
      · next hfits =>
        have htail := ih (capacity - weight a)
        rw [total_cons]
        omega
      · exact ih capacity

/-- **Taking from two lists in turn leaves the second what the first did not use.** -/
theorem take_append (as bs : List α) (capacity : Nat) :
    take weight (as ++ bs) capacity
      = take weight as capacity
        ++ take weight bs (capacity - total weight (take weight as capacity)) := by
  induction as generalizing capacity with
  | nil => rfl
  | cons a as ih =>
      rw [List.cons_append, take, take]
      split
      · next hfits =>
        rw [ih, total_cons, List.cons_append, Nat.sub_add_eq]
      · exact ih capacity

/-- **An item is taken exactly when it fits beside the items taken before it.** -/
theorem mem_take_iff {as bs : List α} {a : α} (hnodup : (as ++ a :: bs).Nodup) (capacity : Nat) :
    a ∈ take weight (as ++ a :: bs) capacity
      ↔ total weight (take weight as capacity) + weight a ≤ capacity := by
  have hfits := @total_take_le α weight as capacity
  obtain ⟨hnotas, hnotbs⟩ : a ∉ as ∧ a ∉ bs := by
    have hmiddle := List.nodup_middle.mp hnodup
    rw [List.nodup_cons, List.mem_append, not_or] at hmiddle
    exact hmiddle.1
  have hfirst : a ∉ take weight as capacity := fun h => hnotas ((take_sublist _ _).subset h)
  rw [take_append, List.mem_append, or_iff_right hfirst, take]
  split
  · next h => exact iff_of_true List.mem_cons_self (by omega)
  · next h => exact iff_of_false (fun h' => hnotbs ((take_sublist _ _).subset h')) (by omega)

/-- **An item that is left out does not fit in what remains at the end.** -/
theorem lt_of_not_mem_take {as : List α} {a : α} (ha : a ∈ as) {capacity : Nat}
    (hout : a ∉ take weight as capacity) :
    capacity - total weight (take weight as capacity) < weight a := by
  induction as generalizing capacity with
  | nil => cases ha
  | cons b as ih =>
      rw [take] at hout ⊢
      split at hout
      · next hfits =>
        obtain ⟨hne, hrest⟩ := not_or.mp (mt List.mem_cons.mpr hout)
        rw [if_pos hfits, total_cons, Nat.sub_add_eq]
        exact ih ((List.mem_cons.mp ha).resolve_left hne) hrest
      · next hfits =>
        rw [if_neg hfits]
        rcases List.mem_cons.mp ha with rfl | ha
        · omega
        · exact ih ha hout

end Greedy
