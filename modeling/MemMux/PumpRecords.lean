/-
MemMux/PumpRecords.lean

The pump and the requests as chains of small steps on records.

A chain may hibernate or recycle a provider whose task is not frozen, so the ladder carries the
ledger's `Live` along.  `perform_written` is the summary: an operation is a chain of small steps
from rest to rest, provided a new task gets an id that is not taken and the rules are kept.
-/
import MemMux.RecordMoves

namespace MemMux

open Ledger

variable {codec : CheckpointCodec} {h : Host} {R : Rules}

/-! ### The pump -/

theorem quiet_drainRuntimes (ids : List String) (w : World) : Quiet w (drainRuntimes h ids w).1 := by
  induction ids generalizing w with
  | nil => exact .refl w
  | cons id ids ih =>
      exact ((quiet_flushHistory id w).trans (quiet_ask _)).trans (ih _)

theorem written_retireExited (now : UInt64) (w : World) :
    Written codec h R w (retireExited h now w) := by
  have hdrain := (quiet_ask w).trans (@quiet_drainRuntimes h (walk h w.mem.runtimes w) w.ask)
  unfold retireExited
  rcases hd : drainRuntimes h (walk h w.mem.runtimes w) w.ask with ⟨w₁, exited⟩
  rw [hd] at hdrain
  exact hdrain.written.trans (foldl_written (written_retire now) exited w₁)

theorem quiet_sampleAll (tree : ProcessTree) (roots : List (String × Pid)) (now : UInt64)
    (w : World) : Quiet w (sampleAll h tree roots now w) := by
  have hone : ∀ w r, Quiet w (sampleOne h tree now w r) := fun w r =>
    (@quiet_exec h (.recordSample now (some r.1) (tree.subtreeRssBytes r.2)
      (tree.subtreeAccountedBytes r.2)) rfl w).trans (.of_mem rfl rfl rfl rfl rfl)
  let w₀ : World :=
    { w with
        mem := { w.mem with
          seenPids := KeyMap.filter (fun id _ => decide (id ∈ roots.map (·.1))) w.mem.seenPids
          samples := ∅ } }
  let w₁ := roots.foldl (sampleOne h tree now) w₀
  let used := wrapSum (roots.map fun r => tree.subtreeAccountedBytes r.2)
  let w₂ : World := { w₁ with mem := { w₁.mem with usedBytes := used } }
  have h₀ : Quiet w w₀ := .of_mem rfl rfl rfl rfl rfl
  have h₁ : Quiet w₀ w₁ := foldl_quiet hone roots w₀
  have h₂ : Quiet w₁ w₂ := .of_mem rfl rfl rfl rfl rfl
  exact ((h₀.trans h₁).trans h₂).trans (@quiet_exec h (.recordSample now none used used) rfl w₂)

theorem quiet_reportEscaped (w : World) (f : FlaggedProcess) : Quiet w (reportEscaped h w f) := by
  unfold reportEscaped
  split
  · exact .refl w
  · refine Quiet.trans (Quiet.trans ?_ (quiet_appendEvent _ _ _ _ _ _)) (quiet_audit _ _ _ _ _)
    exact .of_mem rfl rfl rfl rfl rfl

theorem quiet_reconcileManaged (report : ReconciliationReport) (w : World) :
    Quiet w (reconcileManaged h report w) := by
  unfold reconcileManaged
  dsimp only
  let w₀ : World := { w with mem := { w.mem with attributedFraction := report.attributedFraction } }
  have hset : Quiet w w₀ := .of_mem rfl rfl rfl rfl rfl
  have hwarn : Quiet w₀ (if report.attributedFraction < 0.95 then
      event h none "process" "attribution_below_gate" "warn" w₀ else w₀) := by
    split
    · exact quiet_event _ _ _ _ _
    · exact .refl _
  exact ((hset.trans hwarn).trans (foldl_quiet quiet_reportEscaped report.escaped _)).trans
    (.of_mem rfl rfl rfl rfl rfl)

theorem quiet_sampleRoots (roots : List (String × Pid)) (now : UInt64) (w : World) :
    Quiet w (sampleRoots h roots now w) :=
  (quiet_sampleAll _ roots now w).trans (quiet_reconcileManaged _ _)

theorem quiet_sampleTick (now : UInt64) (w : World) : Quiet w (sampleTick h now w) := by
  let w₀ : World := { w with mem := { w.mem with lastSampleMs := now } }
  let roots := taskRoots w₀.mem (walk h w₀.mem.runtimes w₀)
  have h₀ : Quiet w w₀.ask.ask := .of_mem rfl rfl rfl rfl rfl
  have hsampled : Quiet w (sampleRoots h roots now w₀.ask.ask) :=
    h₀.trans (quiet_sampleRoots roots now w₀.ask.ask)
  unfold sampleTick
  dsimp only
  split
  · exact .refl w
  · split
    · exact .of_mem rfl rfl rfl rfl rfl
    · split
      · exact h₀
      · exact hsampled

theorem quiet_readPressure (now : UInt64) (w : World) : Quiet w (readPressure h now w).1 := by
  unfold readPressure
  dsimp only
  split
  · refine Quiet.trans (Quiet.trans ?_ (quiet_audit _ _ _ _ _)) (quiet_event _ _ _ _ _)
    exact .of_mem rfl rfl rfl rfl rfl
  · exact .of_mem rfl rfl rfl rfl rfl

/-! ### The ladder -/

theorem quiet_actReclaimEscaped (evidence : JsonObject) (w : World) :
    Quiet w (actReclaimEscaped h evidence w) := by
  unfold actReclaimEscaped
  dsimp only
  split
  · exact .refl w
  · let w₀ : World := { w with mem := { w.mem with escapedReported := [] } }
    have hset : Quiet w w₀ := .of_mem rfl rfl rfl rfl rfl
    have hi : Quiet w (terminatePids h w.mem.escapedReported w₀).1 :=
      hset.trans (quiet_terminatePids _ w₀)
    generalize terminatePids h w.mem.escapedReported w₀ = r at hi ⊢
    obtain ⟨w', _ | report⟩ := r
    · exact hi
    · exact (hi.trans (quiet_audit _ _ _ _ _)).trans (quiet_event _ _ _ _ _)

theorem written_hibernateLow (hs : ∀ id, R.stops id) (evidence : JsonObject) {w : World}
    (hl : Live w.ledger) :
    Written codec h R w (actHibernateLowPriority codec h evidence w) := by
  unfold actHibernateLowPriority
  dsimp only
  split
  · exact (quiet_ask w).written
  · next id _ _ =>
    have ha := (quiet_ask w).trans (@quiet_audit h (some id) "hibernate_low_priority"
      PressureAction.hibernateLowPriority.describe (some evidence) w.ask)
    exact (ha.written.trans (written_hibernate (hs id) hl)).trans (quiet_event _ _ _ _ _).written

theorem written_recycleBloated (hs : ∀ id, R.stops id) {evidence : JsonObject} {w : World}
    (hl : Live w.ledger)
    (hf : ∀ r ∈ bloatedRecycle h evidence w, ∀ l ∈ recycleLaunch codec h r, l.permitted R h) :
    Written codec h R w (actRecycleBloated codec h evidence w) := by
  unfold actRecycleBloated
  cases hb : bloatedRecycle h evidence w with
  | none => exact (quiet_ask w).written
  | some x =>
      obtain ⟨reason, hx⟩ := bloatedRecycle_some h hb
      have hi : Quiet w x.2 := by
        rw [hx]
        exact (quiet_ask w).trans (quiet_audit _ _ _ _ _)
      have hL : x.2.ledger = w.ledger := by
        rw [hx]
        rfl
      rw [← hL] at hl
      exact (hi.written.trans (written_recycle (hs x.1) hl (hf x hb))).trans
        (quiet_event _ _ _ _ _).written

theorem written_preserveVictim {id : String} {task : Task} (evidence : JsonObject) {w : World}
    (hid : id ∈ w.mem.runtimes) (ht : w.mem.tasks.lookup id = some task)
    (hs : task.state ≠ .hibernated) :
    Written codec h R w (preserveVictim codec h id task evidence w).1 := by
  have hcap := (quiet_ask w).idle.trans
    (@idle_captureCheckpoint codec h R id task (h.now w.calls) w.ask hid ht)
  obtain ⟨hpers, -⟩ := @written_persist codec h R
    (captureCheckpoint codec h id task (h.now w.calls) w.ask).2 _ rfl
    (captureCheckpoint codec h id task (h.now w.calls) w.ask).1 task ht hs (snapshot_capture _ _ _ _)
  have hall := hcap.written.trans hpers
  unfold preserveVictim
  dsimp only
  rcases hp : persistCheckpoint codec h (captureCheckpoint codec h id task (h.now w.calls) w.ask).2
    (captureCheckpoint codec h id task (h.now w.calls) w.ask).1 with ⟨w', e | u⟩
  · rw [hp] at hall
    exact hall.trans (quiet_audit _ _ _ _ _).written
  · rw [hp] at hall
    exact Written.trans hall
      (Quiet.written ((quiet_audit _ _ _ _ _).trans (quiet_appendEvent _ _ _ _ _ _)))

/-- A victim has a live provider. -/
theorem mem_runtimes_of_victim {w : World} {id : String}
    (hv : pickLowestPriorityVictim (runningCandidates h w) = some id) : id ∈ w.mem.runtimes := by
  obtain ⟨c, hc, rfl⟩ := Option.map_eq_some_iff.mp hv
  obtain ⟨i, hi, hm⟩ := List.mem_filterMap.mp (mem_of_minBy hc)
  obtain ⟨t, -, rfl⟩ := Option.map_eq_some_iff.mp hm
  exact (h.order_perm _ _).mem_iff.mp hi

theorem written_actPreserveGitState (evidence : JsonObject) {w : World} (hl : Live w.ledger) :
    Written codec h R w (actPreserveGitState codec h evidence w).1 := by
  unfold actPreserveGitState
  dsimp only
  cases hv : pickLowestPriorityVictim (runningCandidates h w) with
  | none => exact (quiet_ask w).written
  | some id =>
      cases ht : w.ask.mem.tasks.lookup id with
      | none =>
          simp only [ht]
          exact ((quiet_ask w).trans (quiet_ask _)).written
      | some task =>
          simp only [ht]
          have hid := mem_runtimes_of_victim hv
          exact (quiet_ask w).written.trans (written_preserveVictim evidence hid ht
            (not_hibernated_of_live hl hid ht))

theorem written_actTerminateVictim {id : String} (hs : R.stops id) (evidence : JsonObject)
    (w : World) : Written codec h R w (actTerminateVictim h id evidence w) :=
  ((quiet_audit _ _ _ _ _).written.trans (written_terminate hs _)).trans
    (quiet_event _ _ _ _ _).written

/-- **One action of the ladder.** -/
theorem written_applyAction (hs : ∀ id, R.stops id) {evidence : JsonObject} {w : World}
    (preserved : Option String) {a : PressureAction} (hl : Live w.ledger)
    (hf : ∀ r ∈ (if a = .recycleBloatedProviders then (bloatedRecycle h evidence w).toList else []),
      ∀ l ∈ recycleLaunch codec h r, l.permitted R h) :
    Written codec h R w (applyAction codec h evidence (w, preserved) a).1 := by
  have advisory : ∀ e : PressureAction, Written codec h R w
      (event h none "pressure" "pressure_action_advisory" "info"
        (audit h none "pressure_action_advisory" e.describe (some evidence) w)) := fun _ =>
    Quiet.written ((quiet_audit _ _ _ _ _).trans (quiet_event _ _ _ _ _))
  cases a with
  | reclaimIdleChildren => exact (quiet_actReclaimEscaped evidence w).written
  | hibernateLowPriority => exact written_hibernateLow hs evidence hl
  | recycleBloatedProviders =>
      exact written_recycleBloated hs hl fun r hr => hf r (by simpa using hr)
  | preserveGitState => exact written_actPreserveGitState evidence hl
  | terminateLowestPriorityTree =>
      cases preserved with
      | none => exact .refl w
      | some id => exact written_actTerminateVictim (hs id) evidence w
  | blockLowPriorityStarts => exact (quiet_event _ _ _ _ _).written
  | notifyOperator => exact Quiet.written ((quiet_audit _ _ _ _ _).trans (quiet_event _ _ _ _ _))
  | routineCompaction => exact advisory _
  | trimRenderCaches => exact advisory _
  | rotateBuffers => exact advisory _
  | stopIdleSharedWorkers => exact advisory _
  | reduceWorkerConcurrency => exact advisory _

/-- Moves of any kind. -/
abbrev AnyMoves : Ledger → Ledger → Prop := Moves (fun _ _ _ => True) True

theorem written_applyActions (hs : ∀ id, R.stops id) {evidence : JsonObject}
    (as : List PressureAction) (s : World × Option String) (hl : Live s.1.ledger)
    (hf : ∀ r ∈ stageRecycles codec h evidence as s,
      ∀ l ∈ recycleLaunch codec h r, l.permitted R h) :
    Written codec h R s.1 (as.foldl (applyAction codec h evidence) s).1 := by
  induction as generalizing s with
  | nil => exact .refl _
  | cons a as ih =>
      have hmoves : AnyMoves s.1.ledger (applyAction codec h evidence s a).1.ledger :=
        applyAction_moves s.1 s.2 a hl fun _ _ _ _ => trivial
      obtain ⟨hone, hrest⟩ := List.forall_mem_append.mp hf
      exact (written_applyAction hs s.2 hl hone).trans (ih _ (hmoves.live hl) hrest)

theorem written_pressureTick (hs : ∀ id, R.stops id) {now : UInt64} {w : World}
    (hl : Live w.ledger)
    (hf : ∀ r ∈ pressureRecycles codec h now w, ∀ l ∈ recycleLaunch codec h r, l.permitted R h) :
    Written codec h R w (pressureTick codec h now w) := by
  have hi := @quiet_readPressure h now w
  have hL := World.ledger_of_books (@readPressure_books h now w)
  unfold pressureTick
  unfold pressureRecycles at hf
  split
  · exact .refl w
  · next hnow =>
    rw [if_neg hnow] at hf
    rcases hr : readPressure h now w with ⟨w₁, stage, evidence⟩
    rw [hr] at hi hL hf
    rw [← hL] at hl
    dsimp only at hf ⊢
    split
    · exact hi.written
    · next hst =>
      rw [if_neg hst] at hf
      exact hi.written.trans (written_applyActions hs stage.actions (w₁, none) hl hf)

/-! ### Triggered recycles -/

theorem written_triggered (hs : ∀ id, R.stops id) (ts : List (String × Nat × String)) (w : World)
    (hl : Live w.ledger)
    (hf : ∀ r ∈ triggered codec h ts w, ∀ l ∈ recycleLaunch codec h r, l.permitted R h) :
    Written codec h R w (ts.foldl (triggerRecycle codec h) w) := by
  induction ts generalizing w with
  | nil => exact .refl w
  | cons t ts ih =>
      have hann : Quiet w (announceTrigger h w t) := quiet_audit _ _ _ _ _
      have hmoves : AnyMoves w.ledger (triggerRecycle codec h w t).ledger :=
        @recycle_moves codec h _ _ t.1 (announceTrigger h w t) hl fun _ => trivial
      have hfirst : Written codec h R w (triggerRecycle codec h w t) :=
        hann.written.trans (@written_recycle codec h R t.1 (hs t.1) (announceTrigger h w t) hl
          (hf _ List.mem_cons_self))
      exact hfirst.trans (ih _ (hmoves.live hl) fun r hr => hf r (List.mem_cons_of_mem _ hr))

theorem written_checkRecycleTriggers (hs : ∀ id, R.stops id) {now : UInt64} {w : World}
    (hl : Live w.ledger)
    (hf : ∀ r ∈ thresholdRecycles codec h now w, ∀ l ∈ recycleLaunch codec h r, l.permitted R h) :
    Written codec h R w (checkRecycleTriggers codec h now w) := by
  have hmeasured : Quiet w (measureProviders h now w).1 := .of_mem rfl rfl rfl rfl rfl
  unfold checkRecycleTriggers
  unfold thresholdRecycles at hf
  split
  · exact .refl w
  · next hnow =>
    rw [if_neg hnow] at hf
    exact hmeasured.written.trans (written_triggered hs _ (measureProviders h now w).1 hl hf)

/-! ### One operation -/

/-- **A pump is a chain from rest to rest.** -/
theorem written_pump (hs : ∀ id, R.stops id) {now : UInt64} {w : World} (hl : Live w.ledger)
    (hf : ∀ l ∈ pumpLaunches codec h now w, l.permitted R h) :
    Written codec h R w (pump codec h now w) := by
  have hfirst : Written codec h R w (sampleTick h now (retireExited h now w)) :=
    (written_retireExited now w).trans (quiet_sampleTick now _).written
  have hm₁ : AnyMoves w.ledger (sampleTick h now (retireExited h now w)).ledger := by
    rw [World.ledger_of_books (sampleTick_books now _)]
    exact retireExited_moves now w
  have hl₁ := hm₁.live hl
  obtain ⟨hrecycles, hpass⟩ := List.forall_mem_append.mp hf
  have hrec : ∀ r ∈ pumpRecycles codec h now w, ∀ l ∈ recycleLaunch codec h r, l.permitted R h :=
    fun r hr l hl => hrecycles l (List.mem_flatMap.mpr ⟨r, hr, Option.mem_toList.mpr hl⟩)
  unfold pumpRecycles at hrec
  show Written codec h R w (tryAdmitPending h now (checkRecycleTriggers codec h now
    (pressureTick codec h now (sampleTick h now (retireExited h now w)))))
  dsimp only at hrec
  generalize sampleTick h now (retireExited h now w) = w₁ at hfirst hl₁ hrec hpass ⊢
  obtain ⟨hpress, hthresh⟩ := List.forall_mem_append.mp hrec
  have hm₂ : AnyMoves w₁.ledger (pressureTick codec h now w₁).ledger :=
    pressureTick_moves hl₁ fun _ _ _ => trivial
  exact ((hfirst.trans (written_pressureTick hs hl₁ hpress)).trans
    (written_checkRecycleTriggers hs (hm₂.live hl₁) hthresh)).trans (written_tryAdmitPending now hpass)

theorem quiet_addWorkspace (path : Path) (w : World) : Quiet w (addWorkspace h path w).1 := by
  unfold addWorkspace
  cases gitToplevel h path w with
  | none => exact quiet_ask w
  | some toplevel =>
      dsimp only
      generalize (⟨repoIdFor toplevel, toplevel, _, _⟩ : Workspace) = ws
      let w₁ := exec h (.saveWorkspace ws) w.ask.ask
      let w₂ : World :=
        { w₁ with mem := { w₁.mem with
          workspaces := w₁.mem.workspaces.insert (repoIdFor toplevel) ws } }
      have h₁ : Quiet w w₁ := ((quiet_ask w).trans (quiet_ask _)).trans (quiet_exec rfl _)
      have h₂ : Quiet w₁ w₂ := .of_mem rfl rfl rfl rfl rfl
      split
      · exact (h₁.trans h₂).trans ((quiet_event _ _ _ _ w₂).trans (quiet_audit _ _ _ _ _))
      · exact h₁

theorem quiet_removeWorkspace (id : String) (w : World) : Quiet w (removeWorkspace h id w).1 := by
  unfold removeWorkspace
  split
  · exact .refl w
  · let w₀ : World := { w with mem := { w.mem with workspaces := w.mem.workspaces.erase id } }
    have h₀ : Quiet w w₀ := .of_mem rfl rfl rfl rfl rfl
    exact (h₀.trans (@quiet_exec h (.deleteWorkspace id) rfl w₀)).trans (quiet_event _ _ _ _ _)

/-- The id a create request gives its task. -/
def newId (h : Host) (w : World) : Input → Option String
  | .request (.createTask _) => some (newTaskId (h.now 0) (w.mem.seq + 1))
  | _ => none

/-- A new task gets an id that no task has. -/
def FreshId (h : Host) (w : World) (i : Input) : Prop := ∀ id ∈ newId h w i, id ∉ w.mem.tasks

instance (h : Host) (w : World) (i : Input) : Decidable (FreshId h w i) :=
  inferInstanceAs (Decidable (∀ id ∈ newId h w i, id ∉ w.mem.tasks))

/-- The task an operation would create. -/
def newSpec (h : Host) (w : World) : Input → Option TaskSpec
  | .request (.createTask req) => createSpec h req (w.begin h)
  | _ => none

/-- An operation creates and launches what the rules allow, under an id that is not taken, and may stop
any provider. -/
structure Complies (codec : CheckpointCodec) (h : Host) (R : Rules) (w : World) (i : Input) :
    Prop where
  fresh : ∀ spec ∈ newSpec h w i, spec.id ∉ w.mem.tasks
  create : ∀ spec ∈ newSpec h w i, R.new spec
  launch : ∀ l ∈ launchesOf codec h i w, l.permitted R h
  stops : ∀ id, R.stops id

theorem complies_any {w : World} {i : Input} (hf : FreshId h w i) : Complies codec h .any w i := by
  refine ⟨?_, fun _ _ => trivial, fun l _ => l.permitted_any, fun _ => trivial⟩
  rintro spec hs
  cases i with
  | tick => cases hs
  | request r =>
      cases r with
      | createTask req =>
          obtain ⟨provider, -, rfl⟩ := Option.map_eq_some_iff.mp hs
          exact hf _ rfl
      | _ => cases hs

/-- **An operation is a chain of small steps from rest to rest.** -/
theorem perform_written {i : Input} {w : World} (hl : Live w.ledger)
    (hc : Complies codec h R w i) : Written codec h R w (perform codec h i w) := by
  obtain ⟨hf, hn, hp, hs⟩ := hc
  have hbegin : Written codec h R w (w.begin h) := (quiet_begin w).written
  refine hbegin.trans ?_
  cases i with
  | tick =>
      exact (quiet_ask _).written.trans (@written_pump codec h R hs (h.now 0) (w.begin h).ask hl hp)
  | request r =>
      cases r with
      | createTask req => exact written_createTask hf hn
      | terminateTask id => exact written_terminate (hs id) _
      | forgetTask id => exact written_forget id _
      | restartTask id => exact written_restart fun l hl => hp l (Option.mem_toList.mpr hl)
      | hibernateTask id => exact @written_hibernate codec h R id (hs id) (w.begin h) hl
      | resumeTask id => exact written_resume fun l hl => hp l (Option.mem_toList.mpr hl)
      | recycleTask id =>
          exact @written_recycle codec h R id (hs id) (w.begin h) hl
            fun l hl => hp l (Option.mem_toList.mpr hl)
      | startTask id => exact written_startTask hp
      | addWorkspace path => exact (quiet_addWorkspace path _).written
      | removeWorkspace id => exact (quiet_removeWorkspace id _).written
      -- the other requests change nothing
      | daemonInfo => exact .refl _
      | getTask id => exact .refl _
      | listTasks => exact .refl _
      | listWorkspaces => exact .refl _
      | systemPressure => exact .refl _
      | readEvents afterSeq limit => exact .refl _
      | getScreen id => exact .refl _
      | readHistory id cursor limit => exact .refl _
      | attach id => exact .refl _

end MemMux
