/-
MemMux/Pairs.lean

The pairs of a list, as two nested loops meet them.

An element is paired with those after it only, so each unordered pair of a list without repetition
is met once, in one of its two orders (`mem_pairs_or`, `nodup_map_mk_pairs`).  What a symmetric
function finds on the pairs is then what it finds on any two elements (`mem_scan`), and is found
once (`nodup_map_scan`).
-/
import Mathlib.Data.List.Sym

namespace Pairs

variable {α β κ : Type} {l : List α}

/-- Each element with each later one. -/
def pairs : List α → List (α × α)
  | [] => []
  | x :: xs => xs.map (fun y => (x, y)) ++ pairs xs

theorem mem_of_mem_pairs {p : α × α} (h : p ∈ pairs l) : p.1 ∈ l ∧ p.2 ∈ l := by
  induction l with
  | nil => cases h
  | cons x xs ih =>
      rcases List.mem_append.mp h with h | h
      · obtain ⟨y, hy, rfl⟩ := List.mem_map.mp h
        exact ⟨List.mem_cons_self, List.mem_cons_of_mem x hy⟩
      · exact (ih h).imp (List.mem_cons_of_mem x) (List.mem_cons_of_mem x)

theorem ne_of_mem_pairs (hl : l.Nodup) {p : α × α} (h : p ∈ pairs l) : p.1 ≠ p.2 := by
  induction l with
  | nil => cases h
  | cons x xs ih =>
      obtain ⟨hx, hxs⟩ := List.nodup_cons.mp hl
      rcases List.mem_append.mp h with h | h
      · obtain ⟨y, hy, rfl⟩ := List.mem_map.mp h
        intro heq
        obtain rfl : x = y := heq
        exact hx hy
      · exact ih hxs h

/-- **Any two elements are a pair**, in one order or the other. -/
theorem mem_pairs_or {x y : α} (hx : x ∈ l) (hy : y ∈ l) (hne : x ≠ y) :
    (x, y) ∈ pairs l ∨ (y, x) ∈ pairs l := by
  induction l with
  | nil => cases hx
  | cons z zs ih =>
      have hhead : ∀ {w}, w ∈ zs → (z, w) ∈ pairs (z :: zs) := fun hw =>
        List.mem_append_left _ (List.mem_map_of_mem hw)
      rcases List.mem_cons.mp hx with rfl | hx'
      · exact .inl (hhead ((List.mem_cons.mp hy).resolve_left hne.symm))
      · rcases List.mem_cons.mp hy with rfl | hy'
        · exact .inr (hhead hx')
        · exact (ih hx' hy').imp (List.mem_append_right _) (List.mem_append_right _)

theorem map_mk_pairs_sublist (l : List α) :
    ((pairs l).map fun p => s(p.1, p.2)).Sublist l.sym2 := by
  induction l with
  | nil => exact List.Sublist.refl _
  | cons x xs ih =>
      rw [pairs, List.map_append, List.map_map, List.sym2, List.map_cons]
      exact ((List.Sublist.refl _).append ih).cons _

/-- **No pair is met twice**, in whatever order. -/
theorem nodup_map_mk_pairs (hl : l.Nodup) : ((pairs l).map fun p => s(p.1, p.2)).Nodup :=
  hl.sym2.sublist (map_mk_pairs_sublist l)

/-! ### What is found on the pairs -/

variable {f : α → α → Option β}

/-- What `f` answers on the pairs, in their order. -/
def scan (f : α → α → Option β) (l : List α) : List β :=
  (pairs l).filterMap fun p => f p.1 p.2

theorem mem_scan (hl : l.Nodup) (hf : ∀ x y, f x y = f y x) {b : β} :
    b ∈ scan f l ↔ ∃ x ∈ l, ∃ y ∈ l, x ≠ y ∧ f x y = some b := by
  rw [scan, List.mem_filterMap]
  constructor
  · rintro ⟨p, hp, hb⟩
    obtain ⟨hx, hy⟩ := mem_of_mem_pairs hp
    exact ⟨p.1, hx, p.2, hy, ne_of_mem_pairs hl hp, hb⟩
  · rintro ⟨x, hx, y, hy, hne, hb⟩
    rcases mem_pairs_or hx hy hne with hp | hp
    · exact ⟨(x, y), hp, hb⟩
    · exact ⟨(y, x), hp, (hf y x).trans hb⟩

/-- **What is found has distinct keys** if a key tells the pair it was found on. -/
theorem nodup_map_scan (hl : l.Nodup) {key : β → κ}
    (hkey : ∀ x y x' y' b b', f x y = some b → f x' y' = some b' → x ∈ l → y ∈ l → x' ∈ l →
      y' ∈ l → key b = key b' → s(x, y) = s(x', y')) :
    ((scan f l).map key).Nodup := by
  refine List.pairwise_map.mpr (List.pairwise_filterMap.mpr ?_)
  refine (List.pairwise_map.mp (nodup_map_mk_pairs hl)).imp_of_mem ?_
  intro p q hp hq hne b hb b' hb' heq
  obtain ⟨hx, hy⟩ := mem_of_mem_pairs hp
  obtain ⟨hx', hy'⟩ := mem_of_mem_pairs hq
  exact hne (hkey _ _ _ _ b b' hb hb' hx hy hx' hy' heq)

end Pairs
