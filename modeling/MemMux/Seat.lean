/-
MemMux/Seat.lean

What the daemon holds about one task, abstractly: the state it is registered in, and whether it
has a live provider, a reservation, a pending start and a recorded reason for waiting.

`Step` lists the ways one of these five changes.  A waiting start may be launched, and a task may
be ended by its operator, only if `leaves` says so: whoever asks what happens to a start that is
neither launched nor ended sets it to `False`.

Main results, each a fact about one step lifted to sequences of steps:

* `Steps.inv`: what always holds of a seat (`Inv`);
* `Steps.housed`: a resident task has a live provider;
* `Steps.waits`: a waiting start that nothing takes away keeps waiting.
-/
import Mathlib.Logic.Relation
import MemMux.State

namespace MemMux

open Relation

/-- What the daemon holds about one task. -/
structure Seat where
  state : Option TaskState
  live : Bool
  reserved : Bool
  pending : Bool
  reasoned : Bool
  deriving DecidableEq, Repr

namespace Seat

/-- A queued task without a provider may be started. -/
def Startable (s : Seat) : Prop := s.state = some .queued ∧ s.live = false

/-- Its start was accepted, and has not happened yet. -/
def Waits (s : Seat) : Prop := s.Startable ∧ s.pending = true

/-- Whether the task is in a state in which a provider is expected. -/
def resident (s : Seat) : Bool := s.state.any TaskState.isResident

/-- A resident task has a live provider.  After a crash the store may hold resident tasks, and
then this does not hold. -/
def Housed (s : Seat) : Prop := s.resident = true → s.live = true

/-- What holds of a seat whenever the daemon is between two of its moves. -/
structure Inv (s : Seat) : Prop where
  /-- a live provider runs an `Active` task -/
  live : s.live = true → s.state = some .active
  /-- a queued task holds no part of the budget -/
  queued : s.state = some .queued → s.reserved = false
  /-- a reason is given for a pending start only -/
  reasoned : s.reasoned = true → s.pending = true

/-! ### Steps -/

/-- One change. -/
inductive Step (leaves : Prop) (s : Seat) : Seat → Prop
  /-- a task is created -/
  | create (hnew : s.state = none) (hfree : s.reserved = false) :
      Step leaves s { s with state := some .queued }
  /-- its start is accepted -/
  | want (hs : s.Startable) : Step leaves s { s with pending := true }
  /-- a pending start is left where it is, with a reason -/
  | explain (hp : s.pending = true) : Step leaves s { s with reasoned := true }
  /-- a pending start that has become void is dropped -/
  | drop (hs : ¬ s.Startable) : Step leaves s { s with pending := false, reasoned := false }
  /-- a provider is launched -/
  | launch (hl : leaves) :
      Step leaves s { s with state := some .active, live := true, reserved := true, reasoned := false }
  /-- a launch fails -/
  | fail (hl : leaves) (hidle : s.live = false) : Step leaves s { s with state := some .failed }
  /-- the task gives up its provider and whatever it holds, and ends in `x` -/
  | vacate (hs : leaves ∨ s.state ≠ some .queued) {x : Option TaskState}
      (hx : ∀ y ∈ x, y.isResident = false ∧ y ≠ .queued) :
      Step leaves s ⟨x, false, false, false, false⟩
  /-- the task is removed from the registry -/
  | forget (hidle : s.live = false) (hs : s.state ≠ some .queued) :
      Step leaves s { s with state := none }
  /-- a hibernated task is brought back -/
  | thaw (hs : s.state = some .hibernated) :
      Step leaves s { s with state := some .active, live := true, reserved := true }
  /-- a live provider could not be replaced: its task fails, its reservation stays -/
  | rollback (hlive : s.live = true) :
      Step leaves s { s with state := some .failed, live := false }

/-- A sequence of changes. -/
abbrev Steps (leaves : Prop) : Seat → Seat → Prop := ReflTransGen (Step leaves)

variable {leaves : Prop} {s s' : Seat}

theorem Step.steps (h : Step leaves s s') : Steps leaves s s' := .single h

theorem steps_of_eq (h : s' = s) : Steps leaves s s' := by
  subst h
  exact .refl

/-- A running task is not changed by making it run. -/
theorem running_eq (hs : s.state = some .active) (hlive : s.live = true) :
    { s with state := some .active, live := true } = s := by
  rw [← hs, ← hlive]

/-! ### What always holds -/

theorem Inv.not_queued (h : s.Inv) (hlive : s.live = true) : s.state ≠ some .queued := by
  rw [h.live hlive]
  simp

theorem Step.inv (h : Step leaves s s') (hi : s.Inv) : s'.Inv := by
  obtain ⟨hlive, hqueued, hreason⟩ := hi
  cases h with
  | create hnew hfree =>
      refine ⟨fun hl => ?_, fun _ => hfree, hreason⟩
      exact nomatch hnew.symm.trans (hlive hl)
  | want hs => exact ⟨hlive, hqueued, fun _ => rfl⟩
  | explain hp => exact ⟨hlive, hqueued, fun _ => hp⟩
  | drop hs => exact ⟨hlive, hqueued, nofun⟩
  | launch hl => exact ⟨fun _ => rfl, nofun, nofun⟩
  | fail hl hidle =>
      refine ⟨fun hl => ?_, nofun, hreason⟩
      exact absurd (hidle.symm.trans hl) Bool.false_ne_true
  | @vacate hs x hx =>
      refine ⟨nofun, fun hq => ?_, nofun⟩
      exact absurd rfl (hx .queued hq).2
  | forget hidle hs =>
      refine ⟨fun hl => ?_, nofun, hreason⟩
      exact absurd (hidle.symm.trans hl) Bool.false_ne_true
  | thaw hs => exact ⟨fun _ => rfl, nofun, hreason⟩
  | rollback hl => exact ⟨nofun, nofun, hreason⟩

/-- **The invariant holds after any sequence of changes.** -/
theorem Steps.inv (h : Steps leaves s s') (hi : s.Inv) : s'.Inv := by
  induction h with
  | refl => exact hi
  | tail _ hstep ih => exact hstep.inv ih

/-! ### Residency -/

/-- **A provider is live exactly in the resident states.** -/
theorem Inv.resident_iff (hi : s.Inv) (hh : s.Housed) : s.resident = true ↔ s.live = true := by
  refine ⟨hh, fun hlive => ?_⟩
  rw [resident, hi.live hlive]
  rfl

theorem Step.housed (h : Step leaves s s') (hh : s.Housed) : s'.Housed := by
  cases h with
  | want _ => exact hh
  | explain _ => exact hh
  | drop _ => exact hh
  -- from here on the new state decides
  | create _ _ => exact nofun
  | launch _ => exact fun _ => rfl
  | fail _ _ => exact nofun
  | @vacate hs x hx =>
      intro hr
      obtain ⟨y, hy, hyr⟩ := (Option.any_eq_true _ _).mp hr
      rw [(hx y hy).1] at hyr
      exact nomatch hyr
  | forget _ _ => exact nofun
  | thaw _ => exact fun _ => rfl
  | rollback _ => exact nofun

/-- **A resident task has a live provider after any sequence of changes**, if it had one before. -/
theorem Steps.housed (h : Steps leaves s s') (hh : s.Housed) : s'.Housed := by
  induction h with
  | refl => exact hh
  | tail _ hstep ih => exact hstep.housed ih

/-! ### Waiting starts -/

theorem Step.waits (h : Step False s s') (hi : s.Inv) (hw : s.Waits) : s'.Waits := by
  obtain ⟨⟨hq, hidle⟩, hp⟩ := hw
  cases h with
  | create hnew _ => exact nomatch hnew.symm.trans hq
  | want _ => exact ⟨⟨hq, hidle⟩, rfl⟩
  | explain _ => exact ⟨⟨hq, hidle⟩, hp⟩
  | drop hs => exact absurd ⟨hq, hidle⟩ hs
  | launch hl => exact hl.elim
  | fail hl _ => exact hl.elim
  | vacate hs _ => exact absurd hq (hs.resolve_left id)
  | forget _ hs => exact absurd hq hs
  | thaw hs => exact nomatch hs.symm.trans hq
  | rollback hlive => exact absurd hq (hi.not_queued hlive)

/-- **A waiting start that nothing takes away keeps waiting.** -/
theorem Steps.waits (h : Steps False s s') (hi : s.Inv) (hw : s.Waits) : s'.Waits := by
  have key : s'.Inv ∧ s'.Waits := by
    induction h with
    | refl => exact ⟨hi, hw⟩
    | tail _ hstep ih => exact ⟨hstep.inv ih.1, hstep.waits ih.1 ih.2⟩
  exact key.2

/-! ### Weakening -/

theorem Step.mono {leaves' : Prop} (hle : leaves → leaves') (h : Step leaves s s') :
    Step leaves' s s' := by
  cases h with
  | create hnew hfree => exact .create hnew hfree
  | want hs => exact .want hs
  | explain hp => exact .explain hp
  | drop hs => exact .drop hs
  | launch hl => exact .launch (hle hl)
  | fail hl hidle => exact .fail (hle hl) hidle
  | vacate hs hx => exact .vacate (hs.imp_left hle) hx
  | forget hidle hs => exact .forget hidle hs
  | thaw hs => exact .thaw hs
  | rollback hlive => exact .rollback hlive

theorem Steps.mono {leaves' : Prop} (hle : leaves → leaves') (h : Steps leaves s s') :
    Steps leaves' s s' :=
  ReflTransGen.mono (fun _ _ hs => hs.mono hle) _ _ h

end Seat

end MemMux
