/-
MemMux/SafePoint.lean

The safe-point gate against what the providers are really doing.

Hibernate and recycle ask `assess` whether the task may be frozen now.  What they show it is the
state the daemon has on record, and a task with a live provider is recorded as `Active` or
`Queued`; so the gate never holds back a provider that is there to be stopped.  What a provider
does, a tool call or a write to the repository, is given by a `ProviderActivity` beside
each event of a run.

Main result:

* `frozen_at_rest_iff`: no provider is stopped while it is busy, but by a termination, exactly as long
  as no freeze whose checkpoint can be stored finds its provider busy.
-/
import MemMux.Reclaim
import MemMux.Stops

namespace MemMux

open Ledger

variable {codec : CheckpointCodec} {h : Host}

/-! ### Freezes -/

variable (codec h) in
/-- The hibernations and recycles an operation tries. -/
def freezesOf (i : Input) (w : World) : List StopCall :=
  (callsOf codec h i w).filter (·.stopper ≠ .terminate)

variable (codec h) in
/-- The terminations of an operation. -/
def terminationsOf (i : Input) (w : World) : List StopCall :=
  (callsOf codec h i w).filter (·.stopper = .terminate)

theorem mem_freezesOf {i : Input} {w : World} {c : StopCall} :
    c ∈ freezesOf codec h i w ↔ c ∈ callsOf codec h i w ∧ c.stopper ≠ .terminate := by
  rw [freezesOf, List.mem_filter, decide_eq_true_iff]

theorem mem_terminationsOf {i : Input} {w : World} {c : StopCall} :
    c ∈ terminationsOf codec h i w ↔ c ∈ callsOf codec h i w ∧ c.stopper = .terminate := by
  rw [terminationsOf, List.mem_filter, decide_eq_true_iff]

/-- **What an operation stops outside its terminations**: the provider of each freeze that finds one
and can store the checkpoint, right after the checkpoint. -/
theorem stops_outside_iff {i : Input} {w : World} (hl : Live w.ledger) (s : Nat × String) :
    (s ∈ stopsIn w (perform codec h i w) ∧
        ∀ c ∈ terminationsOf codec h i w, s ∉ stopsIn c.world (c.run codec h)) ↔
      ∃ c ∈ freezesOf codec h i w, c.id ∈ c.world.mem.runtimes ∧ Storable h c.asked ∧
        s = (c.stored, c.id) := by
  have hstops : ∀ c ∈ freezesOf codec h i w, (s ∈ stopsIn c.world (c.run codec h) ↔
      c.id ∈ c.world.mem.runtimes ∧ Storable h c.asked ∧ s = (c.stored, c.id)) := by
    intro c hc
    obtain ⟨hcall, hfreeze⟩ := mem_freezesOf.mp hc
    rw [freeze_stops hfreeze (staged_perform.live hl c hcall)]
    split
    · next hboth => simp [hboth]
    · next hnot =>
      rw [← and_assoc]
      exact iff_of_false (by simp) fun hboth => hnot hboth.1
  constructor
  · rintro ⟨hs, hnone⟩
    rw [stops_perform] at hs
    obtain ⟨c, hc, hin⟩ := List.mem_flatMap.mp hs
    have hfreeze : c ∈ freezesOf codec h i w :=
      mem_freezesOf.mpr ⟨hc, fun hterm => hnone c (mem_terminationsOf.mpr ⟨hc, hterm⟩) hin⟩
    exact ⟨c, hfreeze, (hstops c hfreeze).mp hin⟩
  · rintro ⟨c, hc, hall⟩
    have hin := (hstops c hc).mpr hall
    obtain ⟨hcall, hfreeze⟩ := mem_freezesOf.mp hc
    refine ⟨?_, fun d hd hind => ?_⟩
    · rw [stops_perform]
      exact List.mem_flatMap.mpr ⟨c, hcall, hin⟩
    · -- a stop belongs to one call only
      obtain ⟨hdcall, hterm⟩ := mem_terminationsOf.mp hd
      rw [call_unique hcall hdcall hin hind] at hfreeze
      exact hfreeze hterm

/-! ### Runs -/

/-- What the providers do during an operation, when each entry of the log is written: whether the
provider of a task has a tool call running, and whether it is writing to the repository. -/
structure ProviderActivity where
  toolRunning : String → Nat → Bool
  writing : String → Nat → Bool

def ProviderActivity.busy (a : ProviderActivity) (id : String) (n : Nat) : Bool :=
  a.toolRunning id n || a.writing id n

/-- No provider that an operation stops below place `n` of the log, outside its terminations, is
busy. -/
def StopsAtRest (codec : CheckpointCodec) (h : Host) (i : Input) (w : World) (a : ProviderActivity)
    (n : Nat) : Prop :=
  ∀ s ∈ stopsIn w (perform codec h i w), s.1 < n →
    (∀ c ∈ terminationsOf codec h i w, s ∉ stopsIn c.world (c.run codec h)) →
      a.busy s.2 s.1 = false

/-- No freeze of the operation finds a live provider busy when its checkpoint, below place `n` of the
log, is stored. -/
def RestsWhenStored (codec : CheckpointCodec) (h : Host) (i : Input) (w : World)
    (a : ProviderActivity) (n : Nat) : Prop :=
  ∀ c ∈ freezesOf codec h i w, c.id ∈ c.world.mem.runtimes → Storable h c.asked → c.stored < n →
    a.busy c.id c.stored = false

instance (i : Input) (w : World) (a : ProviderActivity) (n : Nat) :
    Decidable (StopsAtRest codec h i w a n) :=
  inferInstanceAs (Decidable (∀ s ∈ stopsIn w (perform codec h i w), s.1 < n →
    (∀ c ∈ terminationsOf codec h i w, s ∉ stopsIn c.world (c.run codec h)) → _ = false))

theorem stopsAtRest_iff {i : Input} {w : World} (hl : Live w.ledger) (a : ProviderActivity) (n : Nat) :
    StopsAtRest codec h i w a n ↔ RestsWhenStored codec h i w a n := by
  constructor
  · intro hrest c hc hid hst hn
    obtain ⟨hs, hnone⟩ := (stops_outside_iff hl (c.stored, c.id)).mpr ⟨c, hc, hid, hst, rfl⟩
    exact hrest _ hs hn hnone
  · intro hrest s hs hn hnone
    obtain ⟨c, hc, hid, hst, rfl⟩ := (stops_outside_iff hl s).mp ⟨hs, hnone⟩
    exact hrest c hc hid hst hn

/-- The event stops no provider that is busy, but by a termination. -/
def FrozenAtRest (codec : CheckpointCodec) (w : World) : Event × ProviderActivity → Prop
  | (.op h i, a) => StopsAtRest codec h i w a (perform codec h i w).durable.log.length
  | (.crash h i k _, a) => StopsAtRest codec h i w a (w.durable.log.length + k)
  | (.reboot _, _) => True

instance (w : World) (e : Event × ProviderActivity) : Decidable (FrozenAtRest codec w e) :=
  match e with
  | (.op h i, a) => inferInstanceAs (Decidable (StopsAtRest codec h i w a _))
  | (.crash h i k _, a) =>
      inferInstanceAs (Decidable (StopsAtRest codec h i w a (w.durable.log.length + k)))
  | (.reboot _, _) => inferInstanceAs (Decidable True)

/-- No freeze of the event finds a live provider busy at the moment its checkpoint is stored. -/
def QuietWhenStored (codec : CheckpointCodec) (w : World) : Event × ProviderActivity → Prop
  | (.op h i, a) => RestsWhenStored codec h i w a (perform codec h i w).durable.log.length
  | (.crash h i k _, a) => RestsWhenStored codec h i w a (w.durable.log.length + k)
  | (.reboot _, _) => True

/-- **When no provider is stopped while it is busy.**  In a run beside any activity of the providers,
every provider that is stopped, but by a termination, is at rest exactly as long as every freeze of a
live provider whose checkpoint can be stored finds the provider at rest by then: the gate itself holds
none of them back. -/
theorem frozen_at_rest_iff (h₀ : Host) (envelope : ResourceEnvelope) (root : Path)
    (disk : Journal Disk Effect) (es : List (Event × ProviderActivity)) :
    Run.Allowed (fun w e => next codec w e.1) (FrozenAtRest codec) (boot h₀ envelope root disk) es
      ↔ Run.Allowed (fun w e => next codec w e.1) (QuietWhenStored codec)
          (boot h₀ envelope root disk) es := by
  refine Run.allowed_iff_of_invariant
    (I := fun w => Live w.ledger ∧ w.mem.envelope = envelope) (fun w e hw => live_next w e.1 hw)
    (fun w e hw => ?_) ⟨live_boot h₀ envelope root disk, rfl⟩ es
  obtain ⟨e, a⟩ := e
  cases e with
  | op h i => exact stopsAtRest_iff hw.1 a _
  | reboot h => exact Iff.rfl
  | crash h i k h' => exact stopsAtRest_iff hw.1 a _

/-- A task is created and restarted; then its provider, in the middle of a tool call, is
hibernated. -/
def hibernateMidCall : List (Event × ProviderActivity) :=
  createAndRestart.map (fun e => (e, ⟨fun _ _ => false, fun _ _ => false⟩))
    ++ [(.op childHost (.request (.hibernateTask fixLogin)), ⟨fun _ _ => true, fun _ _ => false⟩)]

/-- The tool call shows as a child of the provider, and the provider is stopped all the same. -/
theorem stopped_mid_call :
    rootOf fixLogin runningWorld = some 100 ∧ (∃ p ∈ childHost.table, p.ppid = 100) ∧
      ¬ Run.Allowed (fun w e => next serdeJson w e.1) (FrozenAtRest serdeJson)
        (boot steadyHost smallHost "/memmux" (freshDisk ["/repo"])) hibernateMidCall := by
  refine ⟨by decide +kernel, by decide, by decide +kernel⟩

end MemMux
