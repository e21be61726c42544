/-
MemMux/Tiling.lean

Tilings: lists of labelled tiles that hold every point of an area exactly once, and no other point.

What a tile is does not matter, only which points it holds.  An area that is divided in two is tiled
by the tiles of both parts (`Tiles.append`), so a tree of divisions tiles its area; and looking for
the first tile that holds a point finds the only one (`Tiles.find?_spec`).
-/
import Mathlib.Data.List.Basic

namespace Tiling

variable {ι ρ P : Type*} (holds : ρ → P → Bool)

/-- Two parts divide an area: every point of it is in one of them, in no more than one, and they hold
no other point. -/
def Divides (a b area : ρ) : Prop :=
  ∀ p, holds area p = (holds a p || holds b p) ∧ (holds a p && holds b p) = false

/-- The tiles hold every point of the area exactly once, and no other point. -/
def Tiles (ts : List (ι × ρ)) (area : ρ) : Prop :=
  ∀ p, (ts.countP fun t => holds t.2 p) = if holds area p then 1 else 0

variable {holds}

theorem tiles_singleton (i : ι) (area : ρ) : Tiles holds [(i, area)] area := by
  intro p
  rw [List.countP_singleton]

/-- **An area that is divided is tiled by the tiles of its parts.** -/
theorem Tiles.append {ts us : List (ι × ρ)} {a b area : ρ} (ha : Tiles holds ts a)
    (hb : Tiles holds us b) (hdiv : Divides holds a b area) : Tiles holds (ts ++ us) area := by
  intro p
  obtain ⟨hor, hand⟩ := hdiv p
  rw [List.countP_append, ha p, hb p, hor]
  cases hap : holds a p with
  | false => simp
  | true =>
      rw [hap, Bool.true_and] at hand
      simp [hand]

/-- A point outside the area is on no tile. -/
theorem Tiles.find?_eq_none {ts : List (ι × ρ)} {area : ρ} (h : Tiles holds ts area) {p : P}
    (hp : holds area p = false) : (ts.find? fun t => holds t.2 p) = none := by
  have hcount := h p
  rw [hp, if_neg Bool.false_ne_true, List.countP_eq_zero] at hcount
  exact List.find?_eq_none.mpr hcount

/-- **A point of the area is on one tile, which is the one that a search finds.** -/
theorem Tiles.find?_spec {ts : List (ι × ρ)} {area : ρ} (h : Tiles holds ts area) {p : P}
    (hp : holds area p = true) :
    ∃ t ∈ ts, holds t.2 p = true ∧ (ts.find? fun t => holds t.2 p) = some t ∧
      ∀ u ∈ ts, holds u.2 p = true → u = t := by
  have hcount := h p
  rw [hp, if_pos rfl, List.countP_eq_length_filter] at hcount
  obtain ⟨t, ht⟩ := List.length_eq_one_iff.mp hcount
  have hmem : t ∈ ts.filter fun t => holds t.2 p := ht ▸ List.mem_singleton_self t
  refine ⟨t, (List.mem_filter.mp hmem).1, (List.mem_filter.mp hmem).2, ?_, fun u hu hup => ?_⟩
  · rw [← List.head?_filter, ht]
    rfl
  · exact List.mem_singleton.mp (ht ▸ List.mem_filter.mpr ⟨hu, hup⟩)

end Tiling
