/-
MemMux/Capacity.lean

What the reservation ledger keeps over whole runs.

An admission pass takes only what the budget has left, and a relaunch takes nothing, so the
reservations of a run stay within the budget exactly as long as every restart and every resume
that brings a provider up finds room for it: those two do not ask.  Reservations and live
providers agree as long as no recycle rolls back.

Main results:

* `reservations_le_budget_iff`: when the reservations of a run stay within the budget;
* `reserved_iff_running`: reservations are held exactly for the live providers.
-/
import MemMux.PumpMoves

namespace MemMux

open Relation Ledger

variable {codec : CheckpointCodec}

/-! ### Every run -/

theorem boot_ledger (h : Host) (envelope : ResourceEnvelope) (root : Path)
    (disk : Journal Disk Effect) :
    (boot h envelope root disk).ledger
      = ⟨envelope, (bootState envelope root disk.state.tables).tasks, ∅, ∅⟩ := rfl

theorem live_boot (h : Host) (envelope : ResourceEnvelope) (root : Path)
    (disk : Journal Disk Effect) : Live (boot h envelope root disk).ledger := by
  intro id hid
  rw [boot_ledger] at hid
  exact absurd hid (AList.notMem_empty id)

/-- An operation, with nothing asked of it. -/
theorem perform_moves_any {h : Host} {i : Input} {w : World} (hl : Live w.ledger) :
    Moves (fun _ _ _ => True) True w.ledger (perform codec h i w).ledger :=
  perform_moves hl (fun _ _ _ _ _ _ => trivial) (fun _ _ => trivial) (fun _ _ _ => trivial)

/-- Live providers belong to running tasks in every state of every run, and the envelope is the one
of the first boot. -/
theorem live_next {envelope : ResourceEnvelope} (w : World) (e : Event)
    (hw : Live w.ledger ∧ w.mem.envelope = envelope) :
    Live (next codec w e).ledger ∧ (next codec w e).mem.envelope = envelope := by
  obtain ⟨hl, henv⟩ := hw
  cases e with
  | op h i =>
      have hm : Moves (fun _ _ _ => True) True w.ledger (perform codec h i w).ledger :=
        perform_moves_any hl
      exact ⟨hm.live hl, hm.envelope_eq.trans henv⟩
  | reboot h => exact ⟨live_boot _ _ _ _, henv⟩
  | crash h i k h' => exact ⟨live_boot _ _ _ _, henv⟩

theorem Reachable.live {w : World} (hw : Reachable codec w) : Live w.ledger := by
  obtain ⟨h, envelope, root, disk, es, rfl⟩ := hw
  exact (Run.always live_next ⟨live_boot h envelope root disk, rfl⟩ es).1

/-! ### The budget -/

/-- The provider an event brings up without admission finds room for its class. -/
def LaunchFits (codec : CheckpointCodec) (budget : Nat) (w : World) : Event → Prop
  | .op h i => ∀ x ∈ directLaunch codec h i w, totalWith w.mem.reservations x.1 x.2 ≤ budget
  | .reboot _ => True
  | .crash _ _ _ _ => True

/-- After a direct launch the reservations sum to what it asked for. -/
theorem total_directLaunch {h : Host} {i : Input} {w : World} (hl : Live w.ledger) {id : String}
    {cls : ResourceClass} (hd : directLaunch codec h i w = some (id, cls)) :
    (perform codec h i w).ledger.total = totalWith w.mem.reservations id cls := by
  obtain ⟨hi, t, ht, rfl, hhib⟩ := directLaunch_spec hd
  have hidle : id ∉ w.mem.runtimes := by
    intro hin
    obtain ⟨u, hu, hs⟩ := hl id hin
    obtain rfl : t = u := Option.some.inj (ht.symm.trans hu)
    rw [hhib hin] at hs
    exact absurd hs (by decide)
  have hcls : ∀ u, w.mem.tasks.lookup id = some u →
      u.spec.resourceClass = t.spec.resourceClass := by
    intro u hu
    rw [ht] at hu
    rw [Option.some.inj hu]
  rcases hi with rfl | rfl
  · have hup := (restart_up_iff hidle).mpr ⟨_, hd⟩
    exact (@restart_attempt h id (w.begin h) _ hcls).total_eq hidle hup
  · have hup := (resume_up_iff hidle).mpr ⟨_, hd⟩
    exact (@resume_attempt codec h id (w.begin h) _ hcls).total_eq hidle hup

/-- An operation from a state within the budget stays within it exactly when its direct launch
fits. -/
theorem total_le_next_iff {envelope : ResourceEnvelope} (w : World) (e : Event)
    (hw : Live w.ledger ∧ w.mem.envelope = envelope)
    (ht : w.ledger.total ≤ envelope.agentBudgetBytes) :
    (next codec w e).ledger.total ≤ envelope.agentBudgetBytes
      ↔ LaunchFits codec envelope.agentBudgetBytes w e := by
  obtain ⟨hl, henv⟩ := hw
  cases e with
  | op h i =>
      constructor
      · rintro hle ⟨id, cls⟩ hd
        rw [← total_directLaunch hl hd]
        exact hle
      · intro hfits
        have hm : Moves (Fits envelope.agentBudgetBytes) True w.ledger
            (perform codec h i w).ledger := by
          refine perform_moves hl (fun L hm => ?_) hfits (fun _ _ _ => trivial)
          -- what an admission pass meets is within the budget, so it launches only what fits
          have hb : L.budget = envelope.agentBudgetBytes := by
            unfold budget
            rw [hm.envelope_eq]
            exact congrArg (·.agentBudgetBytes) henv
          intro R id cls hroom
          exact hb ▸ hroom (hb ▸ hm.total_le ht)
        exact hm.total_le ht
  | reboot h => exact iff_of_true (Nat.zero_le _) trivial
  | crash h i k h' => exact iff_of_true (Nat.zero_le _) trivial

/-- **The reservations of a run stay within the agent budget exactly as long as every restart and
every resume that brings a provider up finds room for it.** -/
theorem reservations_le_budget_iff (h : Host) (envelope : ResourceEnvelope) (root : Path)
    (disk : Journal Disk Effect) (es : List Event) :
    (∀ p, p <+: es →
        (runs codec (boot h envelope root disk) p).ledger.total ≤ envelope.agentBudgetBytes)
      ↔ Run.Allowed (next codec) (LaunchFits codec envelope.agentBudgetBytes)
          (boot h envelope root disk) es :=
  Run.forall_prefix_iff_of_invariant live_next total_le_next_iff
    ⟨live_boot h envelope root disk, rfl⟩ (Nat.zero_le _) es

/-- A restart is not asked whether it fits. -/
theorem restart_overcommits :
    ¬ (runs serdeJson (boot steadyHost smallHost "/memmux" (freshDisk ["/repo"]))
        createAndRestart).ledger.total ≤ smallHost.agentBudgetBytes := by
  decide +kernel

/-! ### Reservations and live providers -/

/-- No recycle of the event rolls back. -/
def RecyclesComplete (codec : CheckpointCodec) (w : World) : Event → Prop
  | .op h i => ∀ x ∈ recyclesOf codec h i w, rollsBack codec h x.1 x.2 = false
  | .reboot _ => True
  | .crash _ _ _ _ => True

instance (w : World) (e : Event) : Decidable (RecyclesComplete codec w e) :=
  match e with
  | .op h i => inferInstanceAs
      (Decidable (∀ x ∈ recyclesOf codec h i w, rollsBack codec h x.1 x.2 = false))
  | .reboot _ => inferInstanceAs (Decidable True)
  | .crash _ _ _ _ => inferInstanceAs (Decidable True)

theorem exact_next (w : World) (e : Event) (hw : Live w.ledger ∧ Exact w.ledger)
    (hok : RecyclesComplete codec w e) :
    Live (next codec w e).ledger ∧ Exact (next codec w e).ledger := by
  obtain ⟨hl, he⟩ := hw
  have hboot : ∀ h envelope root disk, Exact (boot h envelope root disk).ledger := by
    intro h envelope root disk id
    exact iff_of_false (AList.notMem_empty id) (AList.notMem_empty id)
  cases e with
  | op h i =>
      have hm : Moves (fun _ _ _ => True) False w.ledger (perform codec h i w).ledger := by
        refine perform_moves hl (fun _ _ _ _ _ _ => trivial) (fun _ _ => trivial) ?_
        intro x hx hroll
        rw [hok x hx] at hroll
        cases hroll
      exact ⟨hm.live hl, hm.exact he⟩
  | reboot h => exact ⟨live_boot _ _ _ _, hboot _ _ _ _⟩
  | crash h i k h' => exact ⟨live_boot _ _ _ _, hboot _ _ _ _⟩

/-- **While no recycle rolls back, a task has a reservation if and only if it has a live provider**,
and then it is registered. -/
theorem reserved_iff_running (h : Host) (envelope : ResourceEnvelope) (root : Path)
    (disk : Journal Disk Effect) (es : List Event)
    (hok : Run.Allowed (next codec) (RecyclesComplete codec) (boot h envelope root disk) es)
    (id : String) :
    let m := (runs codec (boot h envelope root disk) es).mem
    (id ∈ m.reservations ↔ id ∈ m.runtimes) ∧ (id ∈ m.reservations → id ∈ m.tasks) := by
  have hboot : Exact (boot h envelope root disk).ledger := fun id =>
    iff_of_false (AList.notMem_empty id) (AList.notMem_empty id)
  obtain ⟨hl, he⟩ := Run.invariant exact_next ⟨live_boot h envelope root disk, hboot⟩ hok
  refine ⟨he id, fun hres => ?_⟩
  obtain ⟨t, ht, -⟩ := hl id ((he id).mp hres)
  exact KeyMap.mem_iff_lookup.mpr ⟨t, ht⟩

/-- A task is created, restarted and recycled, and every launch succeeds. -/
def createAndRecycle : List Event :=
  createAndRestart ++ [.op steadyHost (.request (.recycleTask fixLogin))]

theorem reserved_iff_running_recycled :
    let m := (runs serdeJson (boot steadyHost smallHost "/memmux" (freshDisk ["/repo"]))
      createAndRecycle).mem
    (fixLogin ∈ m.reservations ↔ fixLogin ∈ m.runtimes) ∧
      (fixLogin ∈ m.reservations → fixLogin ∈ m.tasks) :=
  reserved_iff_running steadyHost smallHost "/memmux" (freshDisk ["/repo"]) createAndRecycle
    (by decide +kernel) fixLogin

/-- A host on which no provider can be launched. -/
def noLaunchHost : Host := { steadyHost with spawn := fun _ => none }

/-- The relaunch of a recycle fails, and the failed task is forgotten. -/
def recycleAndForget : List Event :=
  createAndRestart ++ [.op noLaunchHost (.request (.recycleTask fixLogin)),
    .op steadyHost (.request (.forgetTask fixLogin))]

/-- The rollback of a recycle keeps the reservation, and forgetting the task does not free it. -/
theorem recycle_leaks :
    let m := (runs serdeJson (boot steadyHost smallHost "/memmux" (freshDisk ["/repo"]))
      recycleAndForget).mem
    ¬ (fixLogin ∈ m.reservations ↔ fixLogin ∈ m.runtimes) ∧
      ¬ (fixLogin ∈ m.reservations → fixLogin ∈ m.tasks) := by
  decide +kernel

end MemMux
