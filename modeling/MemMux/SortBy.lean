/-
MemMux/SortBy.lean

Lists sorted by a key.

A list whose elements have distinct keys has one sorted order, and only its elements decide it: the
sorted list is strictly ascending (`pairwise_sortBy`), and two strictly ascending lists with the
same elements are equal (`eq_of_mem_iff`).  So what is sorted by a key does not depend on the order
in which it was found (`sortBy_congr`).
-/
import Mathlib.Data.List.Sort

namespace SortBy

variable {α κ : Type} [LinearOrder κ] {key : α → κ} {l l' : List α}

/-- The stable sort by `key`. -/
def sortBy (key : α → κ) (l : List α) : List α := l.insertionSort fun a b => key a ≤ key b

/-- The keys ascend strictly. -/
def Ascending (key : α → κ) (l : List α) : Prop := l.Pairwise fun a b => key a < key b

theorem perm_sortBy (key : α → κ) (l : List α) : (sortBy key l).Perm l :=
  List.perm_insertionSort _ l

theorem mem_sortBy {a : α} : a ∈ sortBy key l ↔ a ∈ l :=
  (perm_sortBy key l).mem_iff

theorem pairwise_le_sortBy (key : α → κ) (l : List α) :
    (sortBy key l).Pairwise fun a b => key a ≤ key b := by
  have : Std.Total fun a b : α => key a ≤ key b := ⟨fun a b => le_total (key a) (key b)⟩
  have : IsTrans α fun a b : α => key a ≤ key b := ⟨fun _ _ _ => le_trans⟩
  exact List.pairwise_insertionSort _ l

/-- **Distinct keys ascend strictly** once they are sorted. -/
theorem pairwise_sortBy (h : (l.map key).Nodup) : Ascending key (sortBy key l) := by
  have hne : (sortBy key l).Pairwise fun a b => key a ≠ key b :=
    List.pairwise_map.mp (((perm_sortBy key l).map key).nodup_iff.mpr h)
  exact (pairwise_le_sortBy key l).imp₂ (fun _ _ hle hne => lt_of_le_of_ne hle hne) hne

theorem Ascending.nodup_map (h : Ascending key l) : (l.map key).Nodup :=
  List.pairwise_map.mpr (h.imp fun hlt => ne_of_lt hlt)

theorem Ascending.nodup (h : Ascending key l) : l.Nodup := List.Nodup.of_map key h.nodup_map

/-- **Two ascending lists with the same elements are equal.** -/
theorem Ascending.eq_of_mem_iff (h : Ascending key l) (h' : Ascending key l')
    (hmem : ∀ a, a ∈ l ↔ a ∈ l') : l = l' := by
  have hperm : l.Perm l' := (List.perm_ext_iff_of_nodup h.nodup h'.nodup).mpr hmem
  refine List.Perm.eq_of_pairwise ?_ h h' hperm
  intro a b _ _ hab hba
  exact absurd hab hba.not_gt

/-- **The sorted list depends only on the elements.** -/
theorem sortBy_congr (h : (l.map key).Nodup) (h' : (l'.map key).Nodup)
    (hmem : ∀ a, a ∈ l ↔ a ∈ l') : sortBy key l = sortBy key l' := by
  refine (pairwise_sortBy h).eq_of_mem_iff (pairwise_sortBy h') fun a => ?_
  rw [mem_sortBy, mem_sortBy]
  exact hmem a

end SortBy
