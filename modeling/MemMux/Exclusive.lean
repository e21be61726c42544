/-
MemMux/Exclusive.lean

Exclusion by a mark: whoever finds the mark absent sets it and becomes an owner, and only owners
take it away again.

`Held owns mark` says that at most one party owns and that the mark is set while one does.  The
four lemmas are the moves that keep it: nobody owns yet, parties stop owning while the
mark stays, a party takes an unset mark, and the owner gives it up.
-/
import Mathlib.Tactic.Common

namespace Exclusive

variable {ι : Type} {owns owns' : ι → Prop} {mark mark' : Prop}

/-- At most one party owns, and the mark is set while one does. -/
structure Held (owns : ι → Prop) (mark : Prop) : Prop where
  unique : ∀ i j, owns i → owns j → i = j
  marked : ∀ i, owns i → mark

theorem Held.of_none (h : ∀ i, ¬ owns i) : Held owns mark where
  unique i _ hi _ := absurd hi (h i)
  marked i hi := absurd hi (h i)

/-- Parties may stop owning while the mark stays. -/
theorem Held.anti (h : Held owns mark) (hsub : ∀ i, owns' i → owns i) (hmark : mark → mark') :
    Held owns' mark' where
  unique i j hi hj := h.unique i j (hsub i hi) (hsub j hj)
  marked i hi := hmark (h.marked i (hsub i hi))

/-- **While the mark is unset nobody owns, so whoever sets it is the only owner.** -/
theorem Held.take (h : Held owns mark) (hunset : ¬ mark) {i : ι}
    (hsub : ∀ j, owns' j → owns j ∨ j = i) (hmark : mark') : Held owns' mark' where
  unique j k hj hk := by
    have hall : ∀ l, owns' l → l = i := fun l hl =>
      (hsub l hl).resolve_left fun ho => hunset (h.marked l ho)
    rw [hall j hj, hall k hk]
  marked _ _ := hmark

/-- **Only the owner gives the mark up, so afterwards nobody owns.** -/
theorem Held.release (h : Held owns mark) {i : ι} (hi : owns i)
    (hsub : ∀ j, owns' j → owns j ∧ j ≠ i) : Held owns' mark' :=
  Held.of_none fun j hj => (hsub j hj).2 (h.unique j i (hsub j hj).1 hi)

end Exclusive
