/-
MemMux/SeatMoves.lean

Every operation of the daemon, seen from the seat of each task, is a sequence of its steps.

An operation is about one task at a time: it changes the seat of that task and leaves the seats of
all others as they are (`SeatOff`).  For each handler, one lemma says which steps the seat of its
task takes.  The handlers that stop a provider rely on the invariant: a live provider runs an
`Active` task, so the transitions they attempt are legal.
-/
import MemMux.PumpRecords
import MemMux.Seat

namespace MemMux

open Relation Seat

variable {codec : CheckpointCodec} {h : Host} {leaves : String → Prop}

/-! ### Seats of a daemon -/

/-- What the daemon holds about task `id`. -/
def DaemonState.seat (m : DaemonState) (id : String) : Seat where
  state := (m.tasks.lookup id).map (·.state)
  live := decide (id ∈ m.runtimes)
  reserved := decide (id ∈ m.reservations)
  pending := decide (id ∈ m.pendingAdmission)
  reasoned := decide (id ∈ m.queuedReasons)

theorem seat_live_iff {m : DaemonState} {id : String} :
    (m.seat id).live = true ↔ id ∈ m.runtimes :=
  decide_eq_true_iff

theorem seat_pending_iff {m : DaemonState} {id : String} :
    (m.seat id).pending = true ↔ id ∈ m.pendingAdmission :=
  decide_eq_true_iff

theorem seat_reasoned_iff {m : DaemonState} {id : String} :
    (m.seat id).reasoned = true ↔ id ∈ m.queuedReasons :=
  decide_eq_true_iff

/-- The seats of all other tasks are the same. -/
def SeatOff (id : String) (m m' : DaemonState) : Prop := ∀ j, j ≠ id → m'.seat j = m.seat j

/-- All seats satisfy their invariant. -/
def Seated (w : World) : Prop := ∀ id, (w.mem.seat id).Inv

/-- From `w` to `w'` every seat takes steps. -/
def Moved (leaves : String → Prop) (w w' : World) : Prop :=
  ∀ id, Steps (leaves id) (w.mem.seat id) (w'.mem.seat id)

namespace Moved

variable {w w' w'' : World}

theorem refl (w : World) : Moved leaves w w := fun _ => .refl

theorem trans (h₁ : Moved leaves w w') (h₂ : Moved leaves w' w'') : Moved leaves w w'' :=
  fun id => (h₁ id).trans (h₂ id)

theorem of_seat (hs : w'.mem.seat = w.mem.seat) : Moved leaves w w' :=
  fun id => steps_of_eq (congrFun hs id)

theorem of_mem (hm : w'.mem = w.mem) : Moved leaves w w' := of_seat (by rw [hm])

/-- A move of one seat. -/
theorem one {id : String} (hoff : SeatOff id w.mem w'.mem)
    (hid : Steps (leaves id) (w.mem.seat id) (w'.mem.seat id)) : Moved leaves w w' := by
  intro j
  by_cases hj : j = id
  · subst hj
    exact hid
  · exact steps_of_eq (hoff j hj)

theorem seated (hm : Moved leaves w w') (hs : Seated w) : Seated w' :=
  fun id => (hm id).inv (hs id)

end Moved

theorem SeatOff.refl (id : String) (m : DaemonState) : SeatOff id m m := fun _ _ => rfl

theorem SeatOff.trans {id : String} {m m' m'' : DaemonState} (h₁ : SeatOff id m m')
    (h₂ : SeatOff id m' m'') : SeatOff id m m'' :=
  fun j hj => (h₂ j hj).trans (h₁ j hj)

theorem seat_mem_congr {β : Type} {m m' : KeyMap String β} {id j : String}
    (hoff : KeyMap.Off id m m') (hj : j ≠ id) : decide (j ∈ m') = decide (j ∈ m) := by
  refine decide_eq_decide.mpr ?_
  rw [← AList.lookup_isSome, ← AList.lookup_isSome, hoff j hj]

/-- Maps that agree off `id` make the same seats off `id`. -/
theorem seatOff_of {m m' : DaemonState} {id : String} (ht : KeyMap.Off id m.tasks m'.tasks)
    (hr : KeyMap.Off id m.runtimes m'.runtimes)
    (hv : KeyMap.Off id m.reservations m'.reservations)
    (hp : ∀ j, j ≠ id → (j ∈ m'.pendingAdmission ↔ j ∈ m.pendingAdmission))
    (hq : KeyMap.Off id m.queuedReasons m'.queuedReasons) : SeatOff id m m' := by
  intro j hj
  simp only [DaemonState.seat, ht j hj, seat_mem_congr hr hj, seat_mem_congr hv hj, hp j hj,
    seat_mem_congr hq hj]

/-! ### Transitions -/

theorem seatOff_advance (h : Host) (id : String) (next : TaskState) (reason : String)
    (now : UInt64) (w : World) : SeatOff id w.mem (advance h id next reason now w).mem :=
  seatOff_of (off_advance h w id next reason now) (.refl _ _) (.refl _ _) (fun _ _ => .rfl)
    (.refl _ _)

/-- An attempted transition of a registered task. -/
theorem seat_attempt (h : Host) (next : TaskState) (reason : String) (now : UInt64) {id : String}
    {s : TaskState} {w : World} (hs : (w.mem.seat id).state = some s) :
    (advance h id next reason now w).mem.seat id
      = { w.mem.seat id with state := some (if s.canTransitionTo next then next else s) } := by
  obtain ⟨t, ht, rfl⟩ := Option.map_eq_some_iff.mp hs
  have hl := lookup_advance_self h w ht next reason now
  show (⟨((advance h id next reason now w).mem.tasks.lookup id).map (·.state), _, _, _, _⟩ : Seat)
    = _
  rw [hl, Option.map_some, Task.attempt_state]
  rfl

/-- A legal transition of a registered task. -/
theorem seat_advance (h : Host) (next : TaskState) (reason : String) (now : UInt64) {id : String}
    {s : TaskState} {w : World} (hs : (w.mem.seat id).state = some s)
    (hc : s.canTransitionTo next) :
    (advance h id next reason now w).mem.seat id = { w.mem.seat id with state := some next } := by
  rw [seat_attempt h next reason now hs, if_pos hc]

/-- Clearing what the ledger holds for a task. -/
theorem seat_release (id : String) (w : World) :
    (releaseReservation id w).mem.seat id
      = { w.mem.seat id with reserved := false, pending := false, reasoned := false } := by
  simp [DaemonState.seat, releaseReservation]

theorem seatOff_release (id : String) (w : World) :
    SeatOff id w.mem (releaseReservation id w).mem :=
  seatOff_of (.refl _ _) (.refl _ _) (KeyMap.off_erase _ _)
    (fun j hj => by simp [releaseReservation, hj]) (KeyMap.off_erase _ _)

theorem seatOff_stopped {m m' : DaemonState} {id : String} {hist : KeyMap String UInt64}
    (hm : m' = { m with runtimes := m.runtimes.erase id, histories := hist }) : SeatOff id m m' := by
  subst hm
  exact seatOff_of (.refl _ _) (KeyMap.off_erase _ _) (.refl _ _) (fun _ _ => .rfl) (.refl _ _)

/-- Dropping the provider of a task. -/
theorem seat_stopped {m m' : DaemonState} {id : String} {hist : KeyMap String UInt64}
    (hm : m' = { m with runtimes := m.runtimes.erase id, histories := hist }) :
    m'.seat id = { m.seat id with live := false } := by
  subst hm
  simp [DaemonState.seat]

/-- Dropping the provider of a task, and then all the ledger holds for it. -/
theorem seat_cleared {w w' : World} {id : String} {hist : KeyMap String UInt64}
    (hm : w'.mem = { w.mem with runtimes := w.mem.runtimes.erase id, histories := hist }) :
    (releaseReservation id w').mem.seat id
      = ⟨(w.mem.seat id).state, false, false, false, false⟩ := by
  rw [seat_release, seat_stopped hm]

theorem seat_cleanupWorktree (id : String) (w : World) :
    (cleanupWorktree h id w).mem.seat = w.mem.seat := by
  rw [cleanupWorktree_mem]
  rfl

/-! ### Launches -/

theorem seatOff_launched (id : String) (cls : ResourceClass) (rt : RuntimeInstance) (now : UInt64)
    (w : World) : SeatOff id w.mem (launched h id cls rt now w).mem := by
  refine (seatOff_advance h id .active "provider running" now w).trans ?_
  exact seatOff_of (.refl _ _) (KeyMap.off_insert _ _ _) (KeyMap.off_insert _ _ _)
    (fun _ _ => .rfl) (KeyMap.off_erase _ _)

theorem seat_launched {id : String} {w : World} (cls : ResourceClass) (rt : RuntimeInstance)
    (now : UInt64) (hs : (w.mem.seat id).state = some .starting) :
    (launched h id cls rt now w).mem.seat id
      = { w.mem.seat id with
          state := some .active, live := true, reserved := true, reasoned := false } := by
  have hs₁ := seat_advance h .active "provider running" now hs (by decide)
  have hstate : ((advance h id .active "provider running" now w).mem.tasks.lookup id).map (·.state)
      = some .active := congrArg Seat.state hs₁
  simp [DaemonState.seat, launched, reserve, installRuntime, hstate]
  rfl

/-- What a launch does before it can fail. -/
theorem seat_beginLaunch {id : String} {w : World} (now : UInt64)
    (hq : (w.mem.seat id).state = some .queued) :
    (beginLaunch h id now w).mem.seat id = { w.mem.seat id with state := some .starting } := by
  have hs₁ := seat_advance h .admitting "admitted: fits budget" now hq (by decide)
  have hs₂ := seat_advance h .starting "launching provider" now (congrArg Seat.state hs₁) (by decide)
  rw [hs₁] at hs₂
  exact hs₂

theorem seatOff_launchQueued (id : String) (snapshot : Task) (now : UInt64) (w : World) :
    SeatOff id w.mem (launchQueued h id snapshot now w).1.mem := by
  obtain ⟨wt, hwt⟩ := ensureWorktree_mem h w id snapshot
  obtain ⟨w₁, cwd, he, hcases⟩ := launchQueued_cases h w id snapshot now
  rw [he] at hwt
  have hoff₁ : SeatOff id w.mem w₁.mem := by
    rw [hwt]
    exact .refl _ _
  have hoff₂ : SeatOff id w.mem (beginLaunch h id now w₁).mem :=
    (hoff₁.trans (seatOff_advance h id .admitting "admitted: fits budget" now w₁)).trans
      (seatOff_advance h id .starting "launching provider" now _)
  rcases hcases with ⟨pid, -, hw⟩ | ⟨-, hw⟩ <;> rw [hw]
  · exact hoff₂.trans (seatOff_launched id _ _ now (attemptSpawn h id (some cwd) _))
  · exact hoff₂.trans (seatOff_advance h id .failed "launch failed" now
      (attemptSpawn h id (some cwd) _))

/-- **A queued task after a launch**: it is running and holds its reservation, or it failed. -/
theorem seat_launchQueued {id : String} {w : World} (snapshot : Task) (now : UInt64)
    (hq : (w.mem.seat id).state = some .queued) :
    (launchQueued h id snapshot now w).1.mem.seat id
      = if launchSucceeds h id snapshot now w then
          { w.mem.seat id with
            state := some .active, live := true, reserved := true, reasoned := false }
        else { w.mem.seat id with state := some .failed } := by
  obtain ⟨wt, hwt⟩ := ensureWorktree_mem h w id snapshot
  obtain ⟨w₁, cwd, he, hcases⟩ := launchQueued_cases h w id snapshot now
  rw [he] at hwt
  have hs₁ : w₁.mem.seat id = w.mem.seat id := by
    rw [hwt]
    rfl
  have hs₂ : (attemptSpawn h id (some cwd) (beginLaunch h id now w₁)).mem.seat id
      = { w.mem.seat id with state := some .starting } := by
    have hb := seat_beginLaunch (h := h) now (hs₁ ▸ hq)
    rw [hs₁] at hb
    exact hb
  unfold launchSucceeds
  rw [he]
  rcases hcases with ⟨pid, hspawn, hw⟩ | ⟨hspawn, hw⟩ <;> rw [hw, hspawn]
  · rw [seat_launched _ _ now (congrArg Seat.state hs₂), hs₂]
    rfl
  · have hs₃ := seat_advance h .failed "launch failed" now (congrArg Seat.state hs₂) (by decide)
    rw [hs₂] at hs₃
    exact hs₃

/-! ### Creating, forgetting and ending a task -/

theorem seat_lookup {m : DaemonState} {id : String} {t : Task} (ht : m.tasks.lookup id = some t) :
    (m.seat id).state = some t.state := by
  show (m.tasks.lookup id).map (·.state) = some t.state
  rw [ht]
  rfl

theorem seat_unregistered {m : DaemonState} {id : String} (hid : id ∉ m.tasks) :
    (m.seat id).state = none := by
  show (m.tasks.lookup id).map (·.state) = none
  rw [KeyMap.not_mem_iff_lookup.mp hid]
  rfl

theorem seat_live {m : DaemonState} {id : String} (hid : id ∉ m.runtimes) :
    (m.seat id).live = false :=
  decide_eq_false hid

/-- Registering a new task. -/
theorem seat_register {m : DaemonState} {task : Task} (hq : task.state = .queued) :
    ({ m with tasks := m.tasks.insert task.spec.id task } : DaemonState).seat task.spec.id
      = { m.seat task.spec.id with state := some .queued } := by
  simp [DaemonState.seat, hq]

theorem createTask_moved {req : CreateTaskRequest} {w : World}
    (hf : ∀ id ∈ newId h w (.request (.createTask req)),
      id ∉ w.mem.tasks ∧ id ∉ w.mem.reservations) :
    Moved leaves w (createTask h req (w.begin h)).1 := by
  unfold createTask
  cases parseProvider req.provider with
  | none => exact .of_mem rfl
  | some provider =>
      dsimp only
      split
      · obtain ⟨hnew, hfree⟩ := hf _ rfl
        let task := queuedTask (specOf (newTaskId (h.now 0) (w.mem.seq + 1)) provider req) (h.now 0)
        have hoff : SeatOff task.spec.id w.mem
            { w.mem with tasks := w.mem.tasks.insert task.spec.id task } :=
          seatOff_of (KeyMap.off_insert _ _ _) (.refl _ _) (.refl _ _) (fun _ _ => .rfl)
            (.refl _ _)
        have hstate : (w.mem.seat task.spec.id).state = none := seat_unregistered hnew
        have hmove : Moved leaves w
            { w with mem := { w.mem with tasks := w.mem.tasks.insert task.spec.id task } } := by
          refine .one hoff ?_
          rw [@seat_register w.mem task rfl]
          exact (Step.create hstate (decide_eq_false hfree)).steps
        exact hmove
      · exact .of_seat rfl

theorem forget_moved {id : String} {w : World} : Moved leaves w (forget h id w).1 := by
  unfold forget
  split
  · exact .refl w
  · next hid =>
    cases ht : w.mem.tasks.lookup id with
    | none => exact .refl w
    | some task =>
        dsimp only
        split
        · exact .refl w
        · next hs =>
          rw [not_and_or, not_not, not_not] at hs
          let w₀ : World := { w with
            mem := { w.mem with
              tasks := w.mem.tasks.erase id, histories := w.mem.histories.erase id } }
          have hmem : (deleteTask h id w₀).1.mem = w₀.mem := deleteTask_mem h w₀ id
          -- the seat is empty, whatever becomes of the rows
          have hmove : Moved leaves w w₀ := by
            refine .one (seatOff_of (KeyMap.off_erase _ _) (.refl _ _) (.refl _ _)
              (fun _ _ => .rfl) (.refl _ _)) ?_
            have hstep : Steps (leaves id) (w.mem.seat id) { w.mem.seat id with state := none } := by
              refine (Step.forget (seat_live hid) ?_).steps
              rw [seat_lookup ht]
              rcases hs with hs | hs <;> rw [hs] <;> simp
            have hseat : w₀.mem.seat id = { w.mem.seat id with state := none } := by
              simp [w₀, DaemonState.seat]
            rw [hseat]
            exact hstep
          refine hmove.trans ?_
          generalize deleteTask h id w₀ = r at hmem ⊢
          obtain ⟨w', _ | _⟩ := r <;> exact .of_mem hmem

/-- A registered task ends `Terminated` when it is driven down. -/
theorem seat_drive {id : String} {w : World} {s : TaskState} (now : UInt64)
    (hs : (w.mem.seat id).state = some s) :
    (drive h id now w).mem.seat id = { w.mem.seat id with state := some .terminated } := by
  obtain ⟨t, ht, rfl⟩ := Option.map_eq_some_iff.mp hs
  unfold drive
  rw [ht]
  dsimp only
  split
  · next hne =>
    have hs₁ := seat_advance h .terminating "operator terminate" now hs
      (TaskState.canTerminate hne.1 hne.2)
    have hs₂ := seat_advance h .terminated "torn down" now (congrArg Seat.state hs₁) (by decide)
    rw [hs₁] at hs₂
    exact hs₂
  · next hne =>
    rw [not_and_or, not_not, not_not] at hne
    rw [seat_attempt h .terminated "torn down" now hs]
    -- from `Terminating` the move is legal, from `Terminated` it is refused
    rcases hne with hst | hst <;> rw [hst] <;> rfl

theorem terminate_moved {id : String} {w : World}
    (hl : leaves id ∨ (w.mem.seat id).state ≠ some .queued) :
    Moved leaves w (terminate h id w).1 := by
  unfold terminate
  dsimp only
  split
  · exact .of_mem rfl
  · next hreg =>
    obtain ⟨t, ht⟩ := KeyMap.mem_iff_lookup.mp (not_not.mp hreg)
    -- the worlds after the sweep, the stop, the cleanup and the release
    generalize hw₁ : reapTaskProcesses h id _ w.ask = w₁
    have hs₁ : w₁.mem.seat = w.mem.seat := by
      rw [← hw₁]
      rfl
    obtain ⟨hist, hm₂⟩ := stopLive_mem h w₁ id
    have hs₃ := seat_cleanupWorktree (h := h) id (stopLive h id w₁)
    generalize cleanupWorktree h id (stopLive h id w₁) = w₃ at hs₃ ⊢
    have hs₀ : (w.mem.seat id).state = some t.state := seat_lookup ht
    have hs₄ : (releaseReservation id w₃).mem.seat id
        = ⟨some t.state, false, false, false, false⟩ := by
      rw [seat_release, congrFun hs₃ id, seat_stopped hm₂, congrFun hs₁ id, ← hs₀]
    have hoff : SeatOff id w.mem (drive h id (h.now w.calls) (releaseReservation id w₃)).mem := by
      obtain ⟨ts, hm₅, hoff₅⟩ := drive_mem h (releaseReservation id w₃) id (h.now w.calls)
      have hoff₁ : SeatOff id w.mem w₃.mem := fun j hj => by
        rw [congrFun hs₃ j, seatOff_stopped hm₂ j hj, congrFun hs₁ j]
      refine (hoff₁.trans (seatOff_release id w₃)).trans ?_
      rw [hm₅]
      exact seatOff_of hoff₅ (.refl _ _) (.refl _ _) (fun _ _ => .rfl) (.refl _ _)
    have hs₅ := seat_drive (h := h) (h.now w.calls) (congrArg Seat.state hs₄)
    rw [hs₄] at hs₅
    have hmove : Moved leaves w (drive h id (h.now w.calls) (releaseReservation id w₃)) := by
      refine .one hoff ?_
      rw [hs₅]
      exact (Step.vacate hl (by decide)).steps
    exact hmove

/-! ### Hibernating -/

/-- Freezing a live task: its provider is gone, and it is `Hibernated`. -/
theorem freeze_moved {id : String} {cp : Checkpoint} {now : UInt64} {w : World}
    (hi : (w.mem.seat id).Inv) (hlive : (w.mem.seat id).live = true) :
    Moved leaves w (freeze h id cp now w) := by
  obtain ⟨hist, hm⟩ := shutdownRuntime_mem h w id
  unfold freeze
  rcases hs : shutdownRuntime h id w with ⟨w₁, cleanup⟩
  rw [hs] at hm
  dsimp only at hm ⊢
  have hs₂ := seat_cleared hm
  rw [hi.live hlive] at hs₂
  have hs₃ := seat_advance h .checkpointing "capturing checkpoint" now (congrArg Seat.state hs₂)
    (by decide)
  have hs₄ := seat_advance h .hibernated "provider stopped; task frozen" now
    (congrArg Seat.state hs₃) (by decide)
  rw [hs₃, hs₂] at hs₄
  have hoff := (((seatOff_stopped hm).trans (seatOff_release id w₁)).trans
    (seatOff_advance h id .checkpointing "capturing checkpoint" now _)).trans
    (seatOff_advance h id .hibernated "provider stopped; task frozen" now _)
  have hmove : Moved leaves w (advance h id .hibernated "provider stopped; task frozen" now
      (advance h id .checkpointing "capturing checkpoint" now (releaseReservation id w₁))) := by
    refine .one hoff ?_
    rw [hs₄]
    exact (Step.vacate (Or.inr (hi.not_queued hlive)) (by decide)).steps
  exact hmove

theorem hibernate_moved {id : String} {w : World} (hw : Seated w) :
    Moved leaves w (hibernate codec h id w).1 := by
  rcases hibernate_cases codec h w id with ⟨w', r, -, hmem, heq⟩ | ⟨w', task, cp, hc, hmem, heq⟩
  · rw [heq]
    exact .of_mem hmem
  · obtain ⟨hid, -⟩ := checkpointLive_ok codec h hc
    have hseat : w'.mem.seat id = w.mem.seat id := by
      rw [hmem]
    have hlive : (w'.mem.seat id).live = true := by
      rw [hseat]
      exact seat_live_iff.mpr hid
    rw [heq]
    exact Moved.trans (.of_mem hmem) (freeze_moved (hseat ▸ hw id) hlive)

/-! ### Restarting -/

/-- **A restart up to its launch**: its task has been re-queued, or nothing has changed. -/
theorem prepareRestart_seat {id : String} {w w' : World} {r : Except Response Task}
    (hp : prepareRestart h id w = (w', r)) :
    SeatOff id w.mem w'.mem ∧
      (((∃ e, r = .error e) ∧ w'.mem.seat id = w.mem.seat id) ∨
        ((∃ t, r = .ok t) ∧ (w.mem.seat id).live = false ∧
          w'.mem.seat id = { w.mem.seat id with state := some .queued })) := by
  obtain ⟨⟨ts, hmem, hoff⟩, -, hok⟩ := prepareRestart_spec h hp
  refine ⟨?_, ?_⟩
  · rw [hmem]
    exact seatOff_of hoff (.refl _ _) (.refl _ _) (fun _ _ => .rfl) (.refl _ _)
  cases r with
  | ok t =>
      obtain ⟨hid, ht, hq, -⟩ := hok t rfl
      refine Or.inr ⟨⟨t, rfl⟩, seat_live hid, ?_⟩
      have hts : (ts.lookup id).map (·.state) = some .queued := by
        rw [← show w'.mem.tasks = ts from congrArg (·.tasks) hmem, ht, Option.map_some, hq]
      rw [hmem, ← hts]
      rfl
  | error e =>
      obtain ⟨-, rfl, -⟩ | ⟨-, u, hu, -⟩ := prepareRestart_cases hp
      · exact Or.inl ⟨⟨e, rfl⟩, rfl⟩
      · cases hu

theorem restart_moved {id : String} {w : World} (hl : leaves id) :
    Moved leaves w (restart h id w).1 := by
  unfold restart
  rcases hp : prepareRestart h id w with ⟨w', r | requeued⟩
  · obtain ⟨hoff, ⟨-, hseat⟩ | ⟨⟨t, ht⟩, -⟩⟩ := prepareRestart_seat hp
    · exact .one hoff (steps_of_eq hseat)
    · cases ht
  · obtain ⟨hoff, ⟨⟨e, he⟩, -⟩ | ⟨-, hidle, hseat⟩⟩ := prepareRestart_seat hp
    · cases he
    · refine .one (hoff.trans (seatOff_launchQueued id requeued _ w')) ?_
      have hout := seat_launchQueued (h := h) requeued (h.now w.calls) (congrArg Seat.state hseat)
      rw [hseat] at hout
      dsimp only
      rw [hout]
      split
      · exact (Step.launch hl).steps
      · exact (Step.fail hl hidle).steps

/-! ### Resuming and recycling -/

theorem seat_installed {m m' : DaemonState} {id : String} {rt : RuntimeInstance}
    {hist : KeyMap String UInt64}
    (hm : m' = { m with runtimes := m.runtimes.insert id rt, histories := hist }) :
    SeatOff id m m' ∧ m'.seat id = { m.seat id with live := true } := by
  subst hm
  refine ⟨seatOff_of (.refl _ _) (KeyMap.off_insert _ _ _) (.refl _ _) (fun _ _ => .rfl)
    (.refl _ _), ?_⟩
  simp [DaemonState.seat]

theorem seatOff_reserve (id : String) (cls : ResourceClass) (w : World) :
    SeatOff id w.mem (reserve id cls w).mem :=
  seatOff_of (.refl _ _) (.refl _ _) (KeyMap.off_insert _ _ _) (fun _ _ => .rfl) (.refl _ _)

theorem seat_reserve (id : String) (cls : ResourceClass) (w : World) :
    (reserve id cls w).mem.seat id = { w.mem.seat id with reserved := true } := by
  simp [DaemonState.seat, reserve]
  exact ⟨rfl, rfl, rfl⟩

/-- A task whose provider was relaunched goes through `Resuming` back to `Active`. -/
theorem seat_revived {id : String} {s : TaskState} {w : World} (reason : String) (now : UInt64)
    (hs : (w.mem.seat id).state = some s) (hc : s.canTransitionTo .resuming) :
    SeatOff id w.mem (advance h id .active reason now
        (advance h id .resuming "restoring from checkpoint" now w)).mem ∧
      (advance h id .active reason now
        (advance h id .resuming "restoring from checkpoint" now w)).mem.seat id
        = { w.mem.seat id with state := some .active } := by
  have hs₁ := seat_advance h .resuming "restoring from checkpoint" now hs hc
  have hs₂ := seat_advance h .active reason now (congrArg Seat.state hs₁) (by decide)
  rw [hs₁] at hs₂
  exact ⟨(seatOff_advance h id .resuming _ now w).trans (seatOff_advance h id .active _ now _), hs₂⟩

theorem resume_moved {id : String} {w : World} : Moved leaves w (resume codec h id w).1 := by
  rcases resume_cases codec h w id with ⟨r, -, heq⟩ |
    ⟨task, cp, hp, ⟨w', e, -, hmem, heq⟩ | ⟨w', o, rt, hist, -, hmem, heq⟩⟩ <;> rw [heq]
  · exact .of_mem rfl
  · exact .of_mem hmem
  · obtain ⟨ht, hs, -⟩ := prepareResume_ok codec hp
    have hstate : (w.mem.seat id).state = some .hibernated := hs ▸ seat_lookup ht
    obtain ⟨hoff₁, hs₁⟩ := seat_installed hmem
    have hstate₁ : (w'.mem.seat id).state = some .hibernated := by
      rw [hs₁]
      exact hstate
    obtain ⟨hoff₂, hs₂⟩ := seat_revived "provider resumed" (h.now w.calls) hstate₁ (by decide)
    -- a hibernated seat goes through `Resuming` to `Active`, and reserves
    have hmove : Moved leaves w (reserve id task.spec.resourceClass
        (advance h id .active "provider resumed" (h.now w.calls)
          (advance h id .resuming "restoring from checkpoint" (h.now w.calls) w'))) := by
      refine .one ((hoff₁.trans hoff₂).trans (seatOff_reserve id _ _)) ?_
      rw [seat_reserve, hs₂, hs₁]
      exact (Step.thaw hstate).steps
    exact hmove

/-- **A recycle up to its relaunch**: the task is `Recycling`, with its new provider or without
one. -/
theorem seat_relaunchLive {id : String} {task : Task} {cp : Checkpoint} {now : UInt64}
    {w w' : World} {cleanup : String} {r : Except String ResumeOutcome}
    (hs : (w.mem.seat id).state = some .active)
    (hr : relaunchLive h id task cp now w = (w', cleanup, r)) :
    SeatOff id w.mem w'.mem ∧
      (((∃ o, r = .ok o) ∧
          w'.mem.seat id = { w.mem.seat id with state := some .recycling, live := true }) ∨
        ((∃ e, r = .error e) ∧
          w'.mem.seat id = { w.mem.seat id with state := some .recycling, live := false })) := by
  obtain ⟨hist, hm⟩ := shutdownRuntime_mem h w id
  unfold relaunchLive at hr
  rcases hsh : shutdownRuntime h id w with ⟨w₁, note⟩
  rw [hsh] at hm hr
  dsimp only at hm hr
  have hs₁ := seat_stopped hm
  have hs₂ := seat_advance h .recycling "recycling provider" now
    ((congrArg Seat.state hs₁).trans hs) (by decide)
  rw [hs₁] at hs₂
  have hoff := (seatOff_stopped hm).trans
    (seatOff_advance h id .recycling "recycling provider" now w₁)
  have hcases := relaunch_cases h (beginRecycle h id now w₁) id task cp
  rcases hl : relaunchFromCheckpoint h id task cp (beginRecycle h id now w₁) with ⟨w₂, r₂⟩
  rw [hl] at hcases hr
  dsimp only at hcases hr
  obtain ⟨rfl, rfl, rfl⟩ : w₂ = w' ∧ note = cleanup ∧ r₂ = r := by simpa using hr
  -- a provider is installed, or none is left
  obtain ⟨o, rt, hist', hok, hmem⟩ | ⟨herr, hmem⟩ := hcases
  · obtain ⟨hoff₃, hs₃⟩ := seat_installed hmem
    refine ⟨hoff.trans hoff₃, Or.inl ⟨⟨o, hok⟩, ?_⟩⟩
    rw [hs₃]
    exact congrArg (fun s : Seat => { s with live := true }) hs₂
  · rw [hmem]
    exact ⟨hoff, Or.inr ⟨herr, hs₂⟩⟩

/-- **A recycle leaves its task running, or failed with its reservation.** -/
theorem recycle_moved {id : String} {w : World} (hw : Seated w) :
    Moved leaves w (recycle codec h id w).1 := by
  rcases recycle_cases codec h w id with
    ⟨w', r, -, hmem, heq⟩ | ⟨w₁, task, cp, hc, hmem, hcases⟩
  · rw [heq]
    exact .of_mem hmem
  · obtain ⟨hid, -⟩ := checkpointLive_ok codec h hc
    have hlive : (w.mem.seat id).live = true := seat_live_iff.mpr hid
    have hseat : w₁.mem.seat id = w.mem.seat id := by
      rw [hmem]
    have hstate : (w₁.mem.seat id).state = some .active := by
      rw [hseat]
      exact (hw id).live hlive
    refine Moved.trans (.of_mem hmem) ?_
    rcases hcases with ⟨w₂, cleanup, e, hr, heq⟩ | ⟨w₂, cleanup, o, hr, heq⟩ <;> rw [heq]
    · obtain ⟨hoff, ⟨⟨o, ho⟩, -⟩ | ⟨-, hs₂⟩⟩ := seat_relaunchLive hstate hr
      · cases ho
      · have hs₃ := seat_advance h .failed "recycle resume failed" (h.now w.calls)
          (congrArg Seat.state hs₂) (by decide)
        rw [hs₂] at hs₃
        have hmove : Moved leaves w₁ (advance h id .failed "recycle resume failed"
            (h.now w.calls) w₂) := by
          refine .one (hoff.trans (seatOff_advance h id .failed _ _ w₂)) ?_
          rw [hs₃]
          exact (Step.rollback (hseat ▸ hlive)).steps
        exact hmove
    · obtain ⟨hoff, ⟨-, hs₂⟩ | ⟨⟨e, he⟩, -⟩⟩ := seat_relaunchLive hstate hr
      · obtain ⟨hoff₃, hs₃⟩ := seat_revived (h := h) (w := w₂.ask) "provider recycled"
          (h.now w.calls) (congrArg Seat.state hs₂) (by decide)
        have hmove : Moved leaves w₁ (advance h id .active "provider recycled" (h.now w.calls)
            (advance h id .resuming "restoring from checkpoint" (h.now w.calls) w₂.ask)) := by
          refine .one (hoff.trans hoff₃) (steps_of_eq ?_)
          -- the task is back where it was: `Active`, with a live provider
          rw [hs₃, ask_mem, hs₂]
          exact running_eq hstate (hseat ▸ hlive)
        exact hmove
      · cases he

end MemMux
