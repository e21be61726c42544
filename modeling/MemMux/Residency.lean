/-
MemMux/Residency.lean

A task is in a resident state exactly while the daemon holds a live provider for it.

Every operation is a sequence of steps of the seats (`perform_moved`): the requests by the lemmas
about their handlers, the pump by going through its parts.  The providers the pump retires and the
victim it terminates are live when they are chosen, so none of them is a waiting start.  The
invariants of the seats then hold in every state of a daemon's lifetime.

Main result:

* `resident_iff_running`: in a lifetime that starts with no resident task, a task is resident
  exactly when it has a provider, and every provider belongs to a registered task.
-/
import MemMux.Emergency
import MemMux.Pass

namespace MemMux

open Relation Seat

variable {codec : CheckpointCodec} {h : Host} {leaves : String → Prop}

/-! ### The books and the seats -/

theorem seat_of_books {w w' : World} (hb : w'.books = w.books) : w'.mem.seat = w.mem.seat := by
  have ht : w'.mem.tasks = w.mem.tasks := congrArg (·.ledger.tasks) hb
  have hr : w'.mem.runtimes = w.mem.runtimes := congrArg (·.ledger.runtimes) hb
  have hv : w'.mem.reservations = w.mem.reservations := congrArg (·.ledger.reservations) hb
  have hp : w'.mem.pendingAdmission = w.mem.pendingAdmission := congrArg (·.pendingAdmission) hb
  have hq : w'.mem.queuedReasons = w.mem.queuedReasons := congrArg (·.queuedReasons) hb
  funext id
  unfold DaemonState.seat
  rw [ht, hr, hv, hp, hq]

theorem moved_of_books {w w' : World} (hb : w'.books = w.books) : Moved leaves w w' :=
  .of_seat (seat_of_books hb)

/-! ### Exited providers -/

theorem seat_retireTask {id : String} {w : World} (now : UInt64)
    (hs : (w.mem.seat id).state = some .active) :
    (retireTask h id now w).mem.seat id = { w.mem.seat id with state := some .terminated } := by
  obtain ⟨t, ht, hst⟩ := Option.map_eq_some_iff.mp hs
  have hs₁ := seat_advance h .terminating "provider exited" now hs (by decide)
  have hs₂ := seat_advance h .terminated "provider exited" now (congrArg Seat.state hs₁) (by decide)
  rw [hs₁] at hs₂
  unfold retireTask
  rw [ht]
  dsimp only
  rw [if_neg (by simp [hst, TaskState.isTerminal])]
  exact hs₂

/-- Retiring a live task: its provider is gone, and it is `Terminated`. -/
theorem retire_moved {now : UInt64} {w : World} {id : String} (hi : (w.mem.seat id).Inv)
    (hlive : (w.mem.seat id).live = true) :
    SeatOff id w.mem (retire h now w id).mem ∧ Moved leaves w (retire h now w id) := by
  unfold retire
  dsimp only
  -- the worlds after the reaping, the transitions and the cleanup
  generalize hw₁ : reapTaskProcesses h id _ _ = w₁
  have hs₁ : w₁.mem.seat = ({ w.mem with runtimes := w.mem.runtimes.erase id } :
      DaemonState).seat := by
    rw [← hw₁]
    rfl
  have hoff₁ : SeatOff id w.mem w₁.mem := fun j hj => by
    rw [hs₁]
    exact @seatOff_stopped w.mem _ id w.mem.histories rfl j hj
  have hid₁ : w₁.mem.seat id = { w.mem.seat id with live := false } := by
    rw [hs₁]
    exact @seat_stopped w.mem _ id w.mem.histories rfl
  have hstate : (w₁.mem.seat id).state = some .active := by
    rw [hid₁]
    exact hi.live hlive
  have hoff₂ : SeatOff id w₁.mem (retireTask h id now w₁).mem := by
    obtain ⟨ts, hmem, hoff⟩ := retireTask_mem (h := h) id now w₁
    rw [hmem]
    exact seatOff_of hoff (.refl _ _) (.refl _ _) (fun _ _ => .rfl) (.refl _ _)
  have hid₂ := seat_retireTask (h := h) now hstate
  have hs₃ := seat_cleanupWorktree (h := h) id (retireTask h id now w₁)
  generalize cleanupWorktree h id (retireTask h id now w₁) = w₃ at hs₃ ⊢
  have hoff : SeatOff id w.mem (releaseReservation id w₃).mem :=
    ((hoff₁.trans hoff₂).trans fun j _ => congrFun hs₃ j).trans (seatOff_release id w₃)
  have hid : (releaseReservation id w₃).mem.seat id
      = ⟨some .terminated, false, false, false, false⟩ := by
    rw [seat_release, congrFun hs₃ id, hid₂, hid₁]
  have hmove : Moved leaves w (releaseReservation id w₃) := by
    refine .one hoff ?_
    rw [hid]
    exact (Step.vacate (Or.inr (hi.not_queued hlive)) (by decide)).steps
  exact ⟨hoff, hmove⟩

theorem retireAll_moved {now : UInt64} {ids : List String} {w : World} (hw : Seated w)
    (hnodup : ids.Nodup) (hlive : ∀ id ∈ ids, (w.mem.seat id).live = true) :
    Moved leaves w (ids.foldl (retire h now) w) := by
  induction ids generalizing w with
  | nil => exact .refl w
  | cons id ids ih =>
      obtain ⟨hnot, hdistinct⟩ := List.nodup_cons.mp hnodup
      obtain ⟨hid, hrest⟩ := List.forall_mem_cons.mp hlive
      obtain ⟨hoff, hmove⟩ := @retire_moved h leaves now w id (hw id) hid
      refine hmove.trans (ih (hmove.seated hw) hdistinct fun j hj => ?_)
      rw [hoff j fun e => hnot (e ▸ hj)]
      exact hrest j hj

/-- Each exited provider is reported once. -/
theorem drainRuntimes_sublist (ids : List String) (w : World) :
    (drainRuntimes h ids w).2.Sublist ids := by
  induction ids generalizing w with
  | nil => exact .slnil
  | cons id ids ih =>
      unfold drainRuntimes
      dsimp only
      split
      · exact (ih _).cons _
      · exact (ih _).cons_cons _

/-- **Retiring the exited providers** ends running tasks only. -/
theorem retireExited_moved {now : UInt64} {w : World} (hw : Seated w) :
    Moved leaves w (retireExited h now w) := by
  have hperm := h.order_perm w.calls w.mem.runtimes.keys
  have hsub := drainRuntimes_sublist (h := h) (walk h w.mem.runtimes w) w.ask
  have hseat := seat_of_books (drainRuntimes_books (h := h) (walk h w.mem.runtimes w) w.ask)
  unfold retireExited
  generalize drainRuntimes h (walk h w.mem.runtimes w) w.ask = r at hsub hseat ⊢
  obtain ⟨w₁, exited⟩ := r
  dsimp only at hsub hseat ⊢
  have hdrain : Moved leaves w w₁ := .of_seat hseat
  refine hdrain.trans (retireAll_moved (hdrain.seated hw) ?_ fun id hid => ?_)
  · exact (hperm.nodup_iff.mpr w.mem.runtimes.nodupKeys).sublist hsub
  · rw [hseat]
    exact seat_live_iff.mpr (hperm.mem_iff.mp (hsub.subset hid))

/-! ### The ladder and the triggers -/

theorem hibernateLow_moved {evidence : JsonObject} {w : World} (hw : Seated w) :
    Moved leaves w (actHibernateLowPriority codec h evidence w) := by
  unfold actHibernateLowPriority
  dsimp only
  split
  · exact .of_mem rfl
  · next id _ _ =>
    have hbefore : Moved leaves w (audit h (some id) "hibernate_low_priority"
        PressureAction.hibernateLowPriority.describe (some evidence) w.ask) := .of_mem rfl
    exact hbefore.trans (hibernate_moved (hbefore.seated hw))

theorem recycleBloated_moved {evidence : JsonObject} {w : World} (hw : Seated w) :
    Moved leaves w (actRecycleBloated codec h evidence w) := by
  unfold actRecycleBloated
  cases hb : bloatedRecycle h evidence w with
  | none => exact .of_mem rfl
  | some x =>
      obtain ⟨reason, hx⟩ := bloatedRecycle_some h hb
      have hbefore : Moved leaves w x.2 := by
        rw [hx]
        exact .of_mem rfl
      exact hbefore.trans (recycle_moved (hbefore.seated hw))

theorem actTerminateVictim_moved {id : String} {evidence : JsonObject} {w : World}
    (hs : (w.mem.seat id).state ≠ some .queued) :
    Moved leaves w (actTerminateVictim h id evidence w) := by
  let w₀ := audit h (some id) "terminate_lowest_priority"
    PressureAction.terminateLowestPriorityTree.describe (some evidence) w
  have hbefore : Moved leaves w w₀ := .of_mem rfl
  have hend : Moved leaves w₀ (terminate h id w₀).1 := terminate_moved (Or.inr hs)
  have hafter : Moved leaves (terminate h id w₀).1 (actTerminateVictim h id evidence w) :=
    .of_mem rfl
  exact (hbefore.trans hend).trans hafter

/-- The victim of an emergency is running. -/
theorem terminateVictim_moved {evidence : JsonObject} {w : World} (hw : Seated w) :
    Moved leaves w
      (applyAction codec h evidence (applyAction codec h evidence (w, none) .preserveGitState)
        .terminateLowestPriorityTree).1 := by
  have hbooks := @actPreserveGitState_books codec h evidence w
  show Moved leaves w (applyAction codec h evidence (actPreserveGitState codec h evidence w)
    .terminateLowestPriorityTree).1
  rcases hp : actPreserveGitState codec h evidence w with ⟨w₁, _ | id⟩
  · rw [hp] at hbooks
    exact moved_of_books hbooks
  · rw [hp] at hbooks
    obtain ⟨⟨t, hid, -⟩, -⟩ := actPreserveGitState_ok hp
    have hbefore : Moved leaves w w₁ := moved_of_books hbooks
    have hlive : (w₁.mem.seat id).live = true := by
      rw [seat_of_books hbooks]
      exact seat_live_iff.mpr hid
    exact hbefore.trans (actTerminateVictim_moved ((hbefore.seated hw id).not_queued hlive))

/-- **Whatever stage the ladder is at**, it ends running tasks only. -/
theorem applyPressureStage_moved {stage : PressureStage} {evidence : JsonObject} {w : World}
    (hw : Seated w) : Moved leaves w (applyPressureStage codec h stage evidence w) := by
  cases stage with
  | normal => exact .of_mem rfl
  | elevated => exact .of_mem rfl
  | high => exact moved_of_books (actReclaimEscaped_books evidence w)
  | critical =>
      have hfirst : Moved leaves w (actHibernateLowPriority codec h evidence w) :=
        hibernateLow_moved hw
      exact hfirst.trans (recycleBloated_moved (hfirst.seated hw))
  | emergency => exact terminateVictim_moved hw

theorem pressureTick_moved {now : UInt64} {w : World} (hw : Seated w) :
    Moved leaves w (pressureTick codec h now w) := by
  have hbooks := readPressure_books (h := h) now w
  unfold pressureTick
  split
  · exact .refl w
  · rcases hr : readPressure h now w with ⟨w₁, stage, evidence⟩
    rw [hr] at hbooks
    have hbefore : Moved leaves w w₁ := moved_of_books hbooks
    dsimp only
    split
    · exact hbefore
    · exact hbefore.trans (applyPressureStage_moved (hbefore.seated hw))

theorem triggered_moved (ts : List (String × Nat × String)) {w : World} (hw : Seated w) :
    Moved leaves w (ts.foldl (triggerRecycle codec h) w) := by
  induction ts generalizing w with
  | nil => exact .refl w
  | cons t ts ih =>
      have hbefore : Moved leaves w (announceTrigger h w t) := .of_mem rfl
      have hfirst : Moved leaves w (triggerRecycle codec h w t) :=
        hbefore.trans (recycle_moved (hbefore.seated hw))
      exact hfirst.trans (ih (hfirst.seated hw))

theorem checkRecycleTriggers_moved {now : UInt64} {w : World} (hw : Seated w) :
    Moved leaves w (checkRecycleTriggers codec h now w) := by
  unfold checkRecycleTriggers
  split
  · exact .refl w
  · have hbefore : Moved leaves w (measureProviders h now w).1 := .of_seat rfl
    exact hbefore.trans (triggered_moved _ (hbefore.seated hw))

/-! ### One operation -/

/-- The world the admission pass of a pump runs in. -/
def passWorld (codec : CheckpointCodec) (h : Host) (now : UInt64) (w : World) : World :=
  checkRecycleTriggers codec h now
    (pressureTick codec h now (sampleTick h now (retireExited h now w)))

/-- Before its pass, a pump takes no waiting start away. -/
theorem passWorld_moved {now : UInt64} {w : World} (hw : Seated w) :
    Moved leaves w (passWorld codec h now w) := by
  have h₁ : Moved leaves w (retireExited h now w) := retireExited_moved hw
  have h₂ : Moved leaves w (sampleTick h now (retireExited h now w)) :=
    h₁.trans (moved_of_books (sampleTick_books now _))
  have h₃ : Moved leaves w (pressureTick codec h now (sampleTick h now (retireExited h now w))) :=
    h₂.trans (pressureTick_moved (h₂.seated hw))
  exact h₃.trans (checkRecycleTriggers_moved (h₃.seated hw))

/-- The world with the start of `id` among the pending ones. -/
def wantStart (id : String) (w : World) : World :=
  { w with
      mem := { w.mem with pendingAdmission := id :: w.mem.pendingAdmission.filter (· ≠ id) } }

theorem seat_wantStart (id : String) (w : World) :
    (wantStart id w).mem.seat id = { w.mem.seat id with pending := true } := by
  simp [DaemonState.seat, wantStart]

theorem wantStart_moved {id : String} {w : World} (hs : (w.mem.seat id).Startable) :
    Moved leaves w (wantStart id w) := by
  have hoff : SeatOff id w.mem (wantStart id w).mem :=
    seatOff_of (.refl _ _) (.refl _ _) (.refl _ _) (fun j hj => by simp [wantStart, hj]) (.refl _ _)
  refine .one hoff ?_
  rw [seat_wantStart]
  exact (Step.want hs).steps

/-- A start is answered with what is there, or registers its intent and runs a pass. -/
theorem startTask_cases (id : String) (w : World) :
    ((startTask h id w).1.mem = w.mem ∧ startLaunches h id w = [] ∧
        ¬ (w.mem.seat id).Startable) ∨
      ((w.mem.seat id).Startable ∧
        (startTask h id w).1 = tryAdmitPending h (h.now w.calls) (wantStart id w.ask) ∧
        startLaunches h id w = passLaunches h (h.now w.calls) (wantStart id w.ask)) := by
  unfold startTask startLaunches
  dsimp only
  split
  · next hid =>
    refine Or.inl ⟨rfl, if_pos hid, fun hs => ?_⟩
    exact absurd ((seat_live_iff.mpr hid).symm.trans hs.2) (by simp)
  · next hid =>
    have hidle := seat_live hid
    rw [ask_mem] at hid
    rw [if_neg hid, ask_mem]
    cases ht : w.mem.tasks.lookup id with
    | none =>
        refine Or.inl ⟨rfl, rfl, fun hs => ?_⟩
        exact nomatch (seat_unregistered (KeyMap.not_mem_iff_lookup.mpr ht)).symm.trans hs.1
    -- only a queued task is waited for
    | some t =>
        have hstate := seat_lookup ht
        dsimp only
        split
        · next hne =>
          refine Or.inl ⟨rfl, rfl, fun hs => hne ?_⟩
          exact Option.some.inj (hstate.symm.trans hs.1)
        · next hq =>
          rw [not_not.mp hq] at hstate
          exact Or.inr ⟨⟨hstate, hidle⟩, rfl, rfl⟩

theorem startTask_moved {id : String} {w : World} (hw : Seated w)
    (hl : ∀ l ∈ startLaunches h id w, leaves l.id) : Moved leaves w (startTask h id w).1 := by
  obtain ⟨hmem, -, -⟩ | ⟨hs, hrun, hlaunches⟩ := startTask_cases (h := h) id w
  · exact .of_mem hmem
  · rw [hlaunches] at hl
    rw [hrun]
    have hwant : Moved leaves w (wantStart id w.ask) := wantStart_moved (w := w.ask) hs
    exact hwant.trans (tryAdmitPending_moved (hwant.seated hw) hl)

/-- The id of a new task is in none of the daemon's maps. -/
def UnusedId (h : Host) (w : World) (i : Input) : Prop :=
  ∀ id ∈ newId h w i, id ∉ w.mem.tasks ∧ id ∉ w.mem.reservations

instance (h : Host) (w : World) (i : Input) : Decidable (UnusedId h w i) :=
  inferInstanceAs (Decidable (∀ id ∈ newId h w i, id ∉ w.mem.tasks ∧ id ∉ w.mem.reservations))

/-- An operation that attempts a launch of `id`, or that is the operator's restart or end of it. -/
def Leaves (codec : CheckpointCodec) (h : Host) (i : Input) (w : World) (id : String) : Prop :=
  (∃ l ∈ launchesOf codec h i w, l.id = id) ∨ i = .request (.restartTask id) ∨
    i = .request (.terminateTask id)

/-- **One operation is a sequence of steps of every seat.** -/
theorem perform_moved {i : Input} {w : World} (hw : Seated w) (hu : UnusedId h w i) :
    Moved (Leaves codec h i w) w (perform codec h i w) := by
  cases i with
  | tick =>
      have hpump : perform codec h .tick w = tryAdmitPending h (h.now 0)
          (passWorld codec h (h.now 0) (w.begin h).ask) := rfl
      have hbefore : Moved (Leaves codec h .tick w) (w.begin h).ask
          (passWorld codec h (h.now 0) (w.begin h).ask) := passWorld_moved hw
      rw [hpump]
      refine Moved.trans (.of_mem rfl) (hbefore.trans
        (tryAdmitPending_moved (hbefore.seated hw) fun l hl => Or.inl ⟨l, ?_, rfl⟩))
      exact List.mem_append_right _ hl
  | request r =>
      cases r with
      | createTask req => exact createTask_moved hu
      | terminateTask id => exact terminate_moved (w := w.begin h) (Or.inl (Or.inr (Or.inr rfl)))
      | forgetTask id => exact forget_moved (w := w.begin h)
      | restartTask id => exact restart_moved (w := w.begin h) (Or.inr (Or.inl rfl))
      | hibernateTask id => exact hibernate_moved (w := w.begin h) hw
      | resumeTask id => exact resume_moved (w := w.begin h)
      | recycleTask id => exact recycle_moved (w := w.begin h) hw
      | startTask id =>
          exact startTask_moved (w := w.begin h) hw fun l hl => Or.inl ⟨l, hl, rfl⟩
      | addWorkspace path => exact moved_of_books (addWorkspace_books path (w.begin h))
      | removeWorkspace id => exact moved_of_books (removeWorkspace_books id (w.begin h))
      -- the other requests change nothing
      | _ => exact .of_mem rfl

/-! ### One lifetime of the daemon -/

/-- One daemon serves requests and ticks, and gives each new task an id of its own. -/
def Serves (w : World) : Event → Prop
  | .op h i => UnusedId h w i
  | .reboot _ | .crash _ _ _ _ => False

instance (w : World) (e : Event) : Decidable (Serves w e) :=
  match e with
  | .op h i => inferInstanceAs (Decidable (UnusedId h w i))
  | .reboot _ | .crash _ _ _ _ => inferInstanceAs (Decidable False)

/-- A daemon that has just booted holds no provider, no reservation and no reason. -/
theorem seated_boot (h : Host) (envelope : ResourceEnvelope) (root : Path)
    (disk : Journal Disk Effect) : Seated (boot h envelope root disk) := by
  intro id
  refine ⟨fun hl => ?_, fun _ => ?_, fun hr => ?_⟩
  · exact absurd (seat_live_iff.mp hl) (AList.notMem_empty id)
  · have hfree : id ∉ (∅ : KeyMap String Reservation) := AList.notMem_empty id
    exact decide_eq_false hfree
  · exact absurd (seat_reasoned_iff.mp hr) (AList.notMem_empty id)

theorem seated_next (w : World) (e : Event) (hw : Seated w) (he : Serves w e) :
    Seated (next codec w e) := by
  cases e with
  | op h i => exact (perform_moved hw he).seated hw
  | reboot h => exact he.elim
  | crash h i k h' => exact he.elim

/-- **The invariant of the seats holds throughout a lifetime.** -/
theorem seated_runs (h : Host) (envelope : ResourceEnvelope) (root : Path)
    (disk : Journal Disk Effect) {es : List Event}
    (hes : Run.Allowed (next codec) Serves (boot h envelope root disk) es) :
    Seated (runs codec (boot h envelope root disk) es) :=
  Run.invariant seated_next (seated_boot h envelope root disk) hes

theorem housed_next (w : World) (e : Event)
    (hw : Seated w ∧ ∀ id, (w.mem.seat id).Housed) (he : Serves w e) :
    Seated (next codec w e) ∧ ∀ id, ((next codec w e).mem.seat id).Housed := by
  obtain ⟨hseated, hhoused⟩ := hw
  refine ⟨seated_next w e hseated he, fun id => ?_⟩
  cases e with
  | op h i => exact (perform_moved hseated he id).housed (hhoused id)
  | reboot h => exact he.elim
  | crash h i k h' => exact he.elim

/-- A daemon that boots from a store without resident tasks houses all of them. -/
theorem housed_boot (h : Host) (envelope : ResourceEnvelope) (root : Path)
    {disk : Journal Disk Effect}
    (hcold : ∀ t ∈ disk.state.tables.loadTasks, t.state.isResident = false) (id : String) :
    ((boot h envelope root disk).mem.seat id).Housed := by
  intro hr
  obtain ⟨s, hs, hsr⟩ := (Option.any_eq_true _ _).mp hr
  obtain ⟨t, ht, rfl⟩ := Option.map_eq_some_iff.mp hs
  obtain ⟨u, hu, heq⟩ := List.mem_map.mp (KeyMap.mem_of_lookup_ofList ht)
  obtain ⟨-, rfl⟩ := Prod.mk.inj heq
  rw [hcold u hu] at hsr
  exact nomatch hsr

/-- **A task is resident exactly while it has a provider**, and every provider belongs to a
registered task, in every state of a lifetime that starts with no resident task. -/
theorem resident_iff_running (h : Host) (envelope : ResourceEnvelope) (root : Path)
    (disk : Journal Disk Effect)
    (hcold : ∀ t ∈ disk.state.tables.loadTasks, t.state.isResident = false) (es : List Event)
    (hes : Run.Allowed (next codec) Serves (boot h envelope root disk) es) :
    let m := (runs codec (boot h envelope root disk) es).mem
    (∀ id t, m.tasks.lookup id = some t → (t.state.isResident = true ↔ id ∈ m.runtimes)) ∧
      ∀ id ∈ m.runtimes, id ∈ m.tasks := by
  obtain ⟨hseated, hhoused⟩ := Run.invariant housed_next
    ⟨seated_boot h envelope root disk, housed_boot h envelope root hcold⟩ hes
  refine ⟨fun id t ht => ?_, fun id hid => ?_⟩
  · have hiff := (hseated id).resident_iff (hhoused id)
    rw [Seat.resident, seat_lookup ht] at hiff
    exact hiff.trans seat_live_iff
  · obtain ⟨t, ht, -⟩ := Option.map_eq_some_iff.mp ((hseated id).live (seat_live_iff.mpr hid))
    exact KeyMap.mem_iff_lookup.mpr ⟨t, ht⟩

/-- A task is created, restarted and recycled; then the relaunch of a second recycle fails. -/
def recycleTwice : List Event :=
  createAndRecycle ++ [.op noLaunchHost (.request (.recycleTask fixLogin)),
    .op steadyHost .tick]

theorem resident_iff_running_recycled :
    let m := (runs serdeJson (boot steadyHost smallHost "/memmux" (freshDisk ["/repo"]))
      recycleTwice).mem
    (∀ id t, m.tasks.lookup id = some t → (t.state.isResident = true ↔ id ∈ m.runtimes)) ∧
      ∀ id ∈ m.runtimes, id ∈ m.tasks :=
  resident_iff_running steadyHost smallHost "/memmux" (freshDisk ["/repo"]) (by decide)
    recycleTwice (by decide +kernel)

end MemMux
