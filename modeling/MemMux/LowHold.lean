/-
MemMux/LowHold.lean

Low-priority tasks under memory pressure.

From `High` on, an admission pass holds back the starts of low-priority tasks.  A launch that does
not come from a pass does not look at the pressure: a resume only launches hibernated tasks, but a
restart re-queues its task and launches it, whatever the stage is.

Main results:

* `spawn_listed`: the launches listed for an operation are all it makes.
* `low_launches_held_iff`: in a run, no queued low-priority task is launched from `High` on exactly
  as long as no restart of a low-priority task is asked for there.
-/
import MemMux.Pass
import MemMux.SafePoint
import MemMux.TaskIds

namespace MemMux

open Ledger

variable {codec : CheckpointCodec} {h : Host}

/-- The stage is below `High`. -/
def BelowHigh (m : DaemonState) : Prop := m.pressureStage.rank < PressureStage.high.rank

/-- If the task is queued and has low priority, then the stage is below `High`. -/
def MayLaunch (id : String) (m : DaemonState) : Prop :=
  ∀ t ∈ m.tasks.lookup id, t.state = .queued → t.spec.priority = .low → BelowHigh m

/-- If the task can be restarted and has low priority, then the stage is below `High`. -/
def MayRestart (id : String) (m : DaemonState) : Prop :=
  Restartable id m → ∀ t ∈ m.tasks.lookup id, t.spec.priority = .low → BelowHigh m

instance (m : DaemonState) : Decidable (BelowHigh m) := inferInstanceAs (Decidable (_ < _))

instance (id : String) (m : DaemonState) : Decidable (MayLaunch id m) :=
  inferInstanceAs (Decidable (∀ t ∈ m.tasks.lookup id, _ → _ → _))

theorem mayLaunch_of_state {id : String} {t : Task} {m : DaemonState}
    (ht : m.tasks.lookup id = some t) (hs : t.state ≠ .queued) : MayLaunch id m := by
  intro u hu hq
  obtain rfl := Option.some.inj (ht.symm.trans hu)
  exact absurd hq hs

/-- What is not held may be launched. -/
theorem mayLaunch_of_not_held {id : String} {t : Task} {m : DaemonState}
    (ht : m.tasks.lookup id = some t) (hh : held t m.pressureStage = false) : MayLaunch id m := by
  intro u hu _ hlow
  obtain rfl := Option.some.inj (ht.symm.trans hu)
  unfold held at hh
  rw [decide_eq_true hlow, Bool.true_and] at hh
  exact not_le.mp (of_decide_eq_false hh)

/-! ### The launches of an operation -/

/-- **An admission pass launches only what may be launched.** -/
theorem passLaunches_mayLaunch {now : UInt64} {w : World} :
    ∀ l ∈ passLaunches h now w, MayLaunch l.id l.world.mem := by
  intro l hl
  obtain ⟨t, ht, hheld⟩ := passLaunches_spec hl
  exact mayLaunch_of_not_held ht hheld

theorem startLaunches_mayLaunch {id : String} {w : World} :
    ∀ l ∈ startLaunches h id w, MayLaunch l.id l.world.mem := by
  unfold startLaunches
  split
  · exact List.forall_mem_nil _
  · split
    · exact List.forall_mem_nil _
    · split
      · exact List.forall_mem_nil _
      · exact passLaunches_mayLaunch

/-- A resume launches a hibernated task. -/
theorem resumeLaunch_mayLaunch {id : String} {w : World} :
    ∀ l ∈ (resumeLaunch codec id w).toList, MayLaunch l.id l.world.mem := by
  intro l hl
  unfold resumeLaunch at hl
  cases hp : prepareResume codec id w.ask with
  | error r =>
      rw [hp] at hl
      cases hl
  | ok p =>
      rw [hp] at hl
      obtain rfl := List.mem_singleton.mp hl
      obtain ⟨ht, hs, -⟩ := prepareResume_ok codec hp
      exact mayLaunch_of_state ht (by simp [hs])

/-- **A restart launches its task at every stage.** -/
theorem restartLaunch_iff {id : String} {w : World} :
    (∀ l ∈ (restartLaunch h id w).toList, MayLaunch l.id l.world.mem) ↔ MayRestart id w.mem := by
  unfold restartLaunch
  rcases hp : prepareRestart h id w with ⟨w', r⟩
  obtain ⟨hn, -, e, rfl⟩ | ⟨hr, u, rfl, -⟩ := prepareRestart_cases hp
  · exact iff_of_true (List.forall_mem_nil _) fun hr => absurd hr hn
  · obtain ⟨⟨ts, hmem, -⟩, -, hok⟩ := prepareRestart_spec h hp
    obtain ⟨-, hu, hq, t, ht, hspec⟩ := hok u rfl
    have hstage : w'.mem.pressureStage = w.mem.pressureStage := congrArg (·.pressureStage) hmem
    have hbelow : BelowHigh w'.mem ↔ BelowHigh w.mem := by
      unfold BelowHigh
      rw [hstage]
    refine List.forall_mem_singleton.trans ⟨fun hl _ v hv hlow => ?_, fun hm v hv _ hlow => ?_⟩
    · obtain rfl := Option.some.inj (ht.symm.trans hv)
      exact hbelow.mp (hl u hu hq (hspec ▸ hlow))
    · obtain rfl := Option.some.inj (hu.symm.trans hv)
      exact hbelow.mpr (hm hr t ht (hspec ▸ hlow))

/-- A recycled task is queued only if it was. -/
theorem recycling_queued_iff {t : Task} (hr : Running t.state) (reason : String) (now : UInt64) :
    (t.attempt .recycling reason now).state = .queued ↔ t.state = .queued := by
  rw [Task.attempt_state]
  rcases hr with hs | hs <;> rw [hs] <;> decide

/-- A relaunch finds its task where the recycle found it: `Active`, or queued under an id that was
given twice. -/
theorem recycleLaunch_iff {x : String × World} (hl : Live x.2.ledger) :
    (∀ l ∈ (recycleLaunch codec h x).toList, MayLaunch l.id l.world.mem) ↔
      (x.1 ∈ x.2.mem.runtimes → Storable h (x.2.calls + 2) → MayLaunch x.1 x.2.mem) := by
  obtain ⟨id, w⟩ := x
  have hmem := checkpointLive_mem codec h w.ask.ask "recycle" "recycle checkpoint failed: " id
    (h.now w.calls)
  unfold recycleLaunch
  obtain ⟨hid, hst, w', ⟨task, cp⟩, hc, -⟩ | ⟨hn, w', r, hc⟩ := @checkpointLive_stops codec h
    "recycle" "recycle checkpoint failed: " id (h.now w.calls) w.ask.ask hl
  · rw [hc] at hmem ⊢
    dsimp only at hmem ⊢
    obtain ⟨t, ht, hrun⟩ := hl id hid
    obtain ⟨hist, hm⟩ := shutdownRuntime_mem h w' id
    generalize shutdownRuntime h id w' = s at hm
    have ht' : s.1.mem.tasks.lookup id = some t := by
      rw [hm, hmem]
      exact ht
    have hrec := lookup_advance_self h s.1 ht' .recycling "recycling provider" (h.now w.calls)
    -- between checkpoint and launch the task is `Recycling`, queued only if it was
    have hqueued := recycling_queued_iff hrun "recycling provider" (h.now w.calls)
    have hstage : s.1.mem.pressureStage = w.mem.pressureStage := by
      rw [hm]
      exact congrArg (·.pressureStage) hmem
    -- the pressure stage is the one the recycle began under
    have hbelow : BelowHigh (beginRecycle h id (h.now w.calls) s.1).mem ↔ BelowHigh w.mem :=
      iff_of_eq (congrArg (fun p => PressureStage.rank p < _) hstage)
    refine List.forall_mem_singleton.trans
      ⟨fun hl _ _ v hv hq hlow => ?_, fun hm v hv hq hlow => ?_⟩
    · obtain rfl := Option.some.inj (ht.symm.trans hv)
      exact hbelow.mp (hl _ hrec (hqueued.mpr hq) (by rw [Task.attempt_spec, hlow]))
    · obtain rfl := Option.some.inj (hrec.symm.trans hv)
      rw [Task.attempt_spec] at hlow
      exact hbelow.mpr (hm hid hst t ht (hqueued.mp hq) hlow)
  · rw [hc]
    exact iff_of_true (List.forall_mem_nil _) fun hid hst => absurd ⟨hid, hst⟩ hn

/-! ### Spawns -/

/-- The rules under which an operation launches only the tasks it lists. -/
def Rules.listed (codec : CheckpointCodec) (h : Host) (i : Input) (w : World) : Rules :=
  ⟨fun _ _ _ => True, fun _ => True, fun _ => True, fun id => ∃ l ∈ launchesOf codec h i w, l.id = id⟩

/-- **An operation spawns no provider but those of its launches.** -/
theorem spawn_listed {i : Input} {w : World} (hl : Live w.ledger) :
    ∀ e ∈ effectsOf codec h i w, ∀ id ∈ e.spawned, ∃ l ∈ launchesOf codec h i w, l.id = id := by
  by_cases hi : i.makesNoTask = true
  · have hc : Complies codec h (.listed codec h i w) w i :=
      ⟨(@complies_noTask codec h i hi w).fresh, fun _ _ => trivial,
        fun l hin => ⟨⟨l, hin, rfl⟩, fun _ => trivial⟩, fun _ => trivial⟩
    exact fun e he => (chain_allowed (perform_chain hl hc) e he).launch
  · -- a create request launches nothing
    obtain ⟨req, rfl⟩ := Input.create_of_not hi
    obtain ⟨es, hd, hes⟩ := @writes_createTask h (fun e => e.spawned = none) (fun _ => rfl)
      (fun _ => rfl) req (w.begin h)
    intro e he id hid
    rw [@effectsOf_eq codec h (.request (.createTask req)) w es hd] at he
    rw [hes e he] at hid
    cases hid

/-! ### Runs -/

/-- No launch of the event is one of a queued low-priority task from `High` on. -/
def LowHeldBack (codec : CheckpointCodec) (w : World) : Event → Prop
  | .op h i | .crash h i _ _ => ∀ l ∈ launchesOf codec h i w, MayLaunch l.id l.world.mem
  | .reboot _ => True

instance (w : World) (e : Event) : Decidable (LowHeldBack codec w e) :=
  match e with
  | .op h i | .crash h i _ _ =>
      inferInstanceAs (Decidable (∀ l ∈ launchesOf codec h i w, MayLaunch l.id l.world.mem))
  | .reboot _ => inferInstanceAs (Decidable True)

/-- The event asks for no restart of a low-priority task from `High` on, and recycles none that is
recorded as queued, as a task may be whose id was given to a new task while it was running. -/
def RestartsCalm (codec : CheckpointCodec) (w : World) : Event → Prop
  | .op h i | .crash h i _ _ =>
      (∀ id, i = .request (.restartTask id) → MayRestart id w.mem) ∧
        ∀ x ∈ recyclesOf codec h i w, x.1 ∈ x.2.mem.runtimes → Storable h (x.2.calls + 2) →
          MayLaunch x.1 x.2.mem
  | .reboot _ => True

/-- **One operation**: its pass and its resume never launch a task that is held back, its restart
does when it is asked to. -/
theorem launchesOf_mayLaunch_iff {i : Input} {w : World} (hl : Live w.ledger) :
    (∀ l ∈ launchesOf codec h i w, MayLaunch l.id l.world.mem) ↔
      (∀ id, i = .request (.restartTask id) → MayRestart id w.mem) ∧
        ∀ x ∈ recyclesOf codec h i w, x.1 ∈ x.2.mem.runtimes → Storable h (x.2.calls + 2) →
          MayLaunch x.1 x.2.mem := by
  have hrec : ∀ x ∈ recyclesOf codec h i w,
      ((∀ l ∈ (recycleLaunch codec h x).toList, MayLaunch l.id l.world.mem) ↔
        (x.1 ∈ x.2.mem.runtimes → Storable h (x.2.calls + 2) → MayLaunch x.1 x.2.mem)) :=
    fun x hx => recycleLaunch_iff (live_recyclesOf hl x hx)
  cases i with
  -- a tick recycles, then runs a pass; the pass keeps to the rule by itself
  | tick =>
      rw [← forall₂_congr hrec]
      refine List.forall_mem_append.trans ?_
      rw [List.forall_mem_flatMap]
      exact ⟨fun hall => ⟨nofun, hall.1⟩, fun hall => ⟨hall.2, passLaunches_mayLaunch⟩⟩
  | request r =>
      cases r with
      | startTask id => exact iff_of_true startLaunches_mayLaunch ⟨nofun, List.forall_mem_nil _⟩
      | resumeTask id => exact iff_of_true resumeLaunch_mayLaunch ⟨nofun, List.forall_mem_nil _⟩
      | recycleTask id =>
          rw [← forall₂_congr hrec]
          exact ⟨fun hall => ⟨nofun, List.forall_mem_singleton.mpr hall⟩,
            fun hall => List.forall_mem_singleton.mp hall.2⟩
      | restartTask id =>
          refine restartLaunch_iff.trans ⟨fun hm => ⟨fun j hj => ?_, List.forall_mem_nil _⟩,
            fun hall => hall.1 id rfl⟩
          obtain rfl : id = j := by simpa using hj
          exact hm
      | _ => exact iff_of_true (List.forall_mem_nil _) ⟨nofun, List.forall_mem_nil _⟩

/-- **When low-priority tasks are held back.**  No queued low-priority task is launched from `High`
on, exactly as long as no restart of such a task is asked for there and no live provider's task
that is recorded as queued is recycled there. -/
theorem low_launches_held_iff (h₀ : Host) (envelope : ResourceEnvelope) (root : Path)
    (disk : Journal Disk Effect) (es : List Event) :
    Run.Allowed (next codec) (LowHeldBack codec) (boot h₀ envelope root disk) es
      ↔ Run.Allowed (next codec) (RestartsCalm codec) (boot h₀ envelope root disk) es := by
  refine Run.allowed_iff_of_invariant live_next (fun w e hw => ?_)
    ⟨live_boot h₀ envelope root disk, rfl⟩ es
  cases e with
  | op h i => exact launchesOf_mayLaunch_iff hw.1
  | reboot h => exact Iff.rfl
  | crash h i k h' => exact launchesOf_mayLaunch_iff hw.1

/-- A host on which the provider has outgrown the budget of a small host. -/
def crowdedHost : Host :=
  { steadyHost with
      now := fun _ => 10000
      table := [⟨100, 1, "claude", 600 * mib, none, none⟩] }

/-- A running task drives the host into an emergency and is terminated; then a low-priority task is
created and restarted. -/
def restartLow : List Event :=
  createAndRestart ++ [.op crowdedHost .tick,
    .op steadyHost (.request (.createTask { fixLoginRequest with priority := some "low" })),
    .op steadyHost (.request (.restartTask (newTaskId 1000 2)))]

/-- The restart launches the task in the middle of the emergency. -/
theorem restart_ignores_pressure :
    ¬ Run.Allowed (next serdeJson) (LowHeldBack serdeJson)
      (boot steadyHost smallHost "/memmux" (freshDisk ["/repo"])) restartLow := by
  decide +kernel

end MemMux
