/-
MemMux/Permanence.lean

What the daemon does not lose (`memmuxd/src/daemon.rs`, `memmux-store/src/lib.rs`): a registered task
stays registered and stored, and its transitions stay as they were recorded, until it is forgotten.

No operation but `create_task` and `forget` changes which tasks are registered, and none but `forget`
deletes a row or a transition (`perform_roster`).  A crash leaves some of the effects of an operation, a
refused statement none: neither deletes more (`registered_outlasts`).
-/
import MemMux.TaskIds

namespace MemMux

open Ledger

variable {codec : CheckpointCodec} {h : Host}

/-! ### What is erased -/

/-- The task of whose record the effect deletes something. -/
def Effect.erased : Effect → Option String
  | .commit (.deleteTransitions id) | .commit (.deleteTaskRow id) => some id
  | _ => none

/-- Effects that concern no record erase nothing. -/
theorem erased_of_idle {e : Effect} (he : e.idle) : e.erased = none := by
  cases e with
  | commit q => cases q <;> first | rfl | cases he
  | _ => rfl

/-- **The record of `id` is still there**: its row, made when it was made, and every transition that was
recorded. -/
structure Outlasts (id : String) (d d' : Disk) : Prop where
  row : ∀ row, d.tables.tasks.rows.lookup id = some row →
    ∃ row', d'.tables.tasks.rows.lookup id = some row' ∧ row'.createdAtMs = row.createdAtMs
  history : d.tables.loadHistory id <+: d'.tables.loadHistory id

theorem Outlasts.of_same {id : String} {d d' : Disk} (hs : SameRecord id d d') :
    Outlasts id d d' :=
  ⟨fun row hrow => ⟨row, hs.1.trans hrow, rfl⟩, by rw [hs.2]⟩

theorem Outlasts.trans {id : String} {d d' d'' : Disk} (h₁ : Outlasts id d d')
    (h₂ : Outlasts id d' d'') : Outlasts id d d'' := by
  refine ⟨fun row hrow => ?_, h₁.history.trans h₂.history⟩
  obtain ⟨row', hrow', heq⟩ := h₁.row row hrow
  obtain ⟨row'', hrow'', heq'⟩ := h₂.row row' hrow'
  exact ⟨row'', hrow'', heq'.trans heq⟩

theorem outlasts_apply {id : String} {e : Effect} (he : e.erased ≠ some id) (d : Disk) :
    Outlasts id d (Replay.apply d e) := by
  by_cases hrec : e.record = some id
  · cases e with
    | commit q =>
        cases q with
        | upsertTask t =>
            obtain rfl := Option.some.inj hrec
            refine ⟨fun row hrow => ⟨TaskRow.upsert (some row) t, ?_, rfl⟩, List.prefix_rfl⟩
            have hlook := d.tables.lookup_upsertTask t.spec.id t
            rw [if_pos rfl, hrow] at hlook
            exact hlook
        | recordTransition i tr =>
            obtain rfl := Option.some.inj hrec
            refine ⟨fun row hrow => ⟨row, hrow, rfl⟩, ?_⟩
            have hhist := d.tables.loadHistory_recordTransition i i tr
            rw [if_pos rfl] at hhist
            exact ⟨[tr], hhist.symm⟩
        | deleteTransitions i => exact absurd hrec he
        | deleteTaskRow i => exact absurd hrec he
        | _ => cases hrec
    | _ => cases hrec
  · exact .of_same (sameRecord_apply hrec d)

theorem outlasts_replay {id : String} {es : List Effect} (hes : ∀ e ∈ es, e.erased ≠ some id)
    (d : Disk) : Outlasts id d (Journal.replay d es) := by
  induction es generalizing d with
  | nil => exact .of_same ⟨rfl, rfl⟩
  | cons e es ih =>
      obtain ⟨he, hrest⟩ := List.forall_mem_cons.mp hes
      exact (outlasts_apply he d).trans (ih hrest _)

/-! ### The roster -/

/-- **The same tasks are registered, and no record is erased.** -/
structure Roster (w w' : World) : Prop where
  tasks : ∀ i, i ∈ w'.mem.tasks ↔ i ∈ w.mem.tasks
  writes : Writes (fun e => e.erased = none) w w'

namespace Roster

theorem of_mem {w w' : World} (ht : w'.mem.tasks = w.mem.tasks) (hd : w'.durable = w.durable) :
    Roster w w' :=
  ⟨fun i => by rw [ht], [], by rw [hd, Journal.writeAll_nil], fun _ he => absurd he List.not_mem_nil⟩

theorem refl (w : World) : Roster w w := of_mem rfl rfl

theorem of_write {w w' : World} {e : Effect} (ht : w'.mem.tasks = w.mem.tasks)
    (hd : w'.durable = w.durable.write e) (he : e.erased = none) : Roster w w' :=
  ⟨fun i => by rw [ht], [e], hd, fun _ he' => List.mem_singleton.mp he' ▸ he⟩

theorem trans {w w' w'' : World} (h₁ : Roster w w') (h₂ : Roster w' w'') : Roster w w'' :=
  ⟨fun i => (h₂.tasks i).trans (h₁.tasks i), h₁.writes.trans h₂.writes⟩

end Roster

theorem Quiet.roster {w w' : World} (hq : Quiet w w') : Roster w w' := by
  obtain ⟨es, hes, hd⟩ := hq.writes
  exact ⟨fun i => by rw [hq.tasks], es, hd,
    fun e he => erased_of_idle (Effect.idle_of_quiet (hes e he))⟩

theorem Idle.roster {R : Rules} {w w' : World} (hi : Idle R w w') : Roster w w' := by
  obtain ⟨es, hes⟩ := hi
  induction hes with
  | nil => exact .refl _
  | snoc _ hlast ih =>
      exact ih.trans ⟨fun i => by rw [hlast.tasks], _, hlast.durable,
        fun e he => erased_of_idle (hlast.idle e he)⟩

theorem foldl_roster {α : Type} {f : World → α → World} (hf : ∀ w a, Roster w (f w a)) (as : List α)
    (w : World) : Roster w (as.foldl f w) := by
  induction as generalizing w with
  | nil => exact .refl w
  | cons a as ih => exact (hf w a).trans (ih _)

section Requests

variable (codec h)

theorem roster_exec {q : Stmt} (hq : (Effect.commit q).erased = none) (w : World) :
    Roster w (exec h q w) :=
  ⟨fun _ => Iff.rfl, @writes_exec h (fun e => e.erased = none) q hq rfl w⟩

theorem roster_advance (id : String) (next : TaskState) (reason : String) (now : UInt64)
    (w : World) : Roster w (advance h id next reason now w) := by
  refine ⟨mem_tasks_advance h w id next reason now, ?_⟩
  unfold advance
  cases stepTask id next reason now w.mem.tasks with
  | none => exact .of_durable rfl
  | some r =>
      refine ⟨[_], rfl, fun e he => ?_⟩
      rw [List.mem_singleton.mp he]
      split <;> rfl

theorem roster_save (id : String) (w : World) : Roster w (saveTask h id w) := by
  refine ⟨fun _ => Iff.rfl, ?_⟩
  unfold saveTask
  cases w.mem.tasks.lookup id with
  | none => exact .of_durable rfl
  | some t =>
      refine ⟨[_], rfl, fun e he => ?_⟩
      rw [List.mem_singleton.mp he]
      split <;> rfl

/-- The usual move: one transition, then the save. -/
theorem roster_move (id : String) (next : TaskState) (reason : String) (now : UInt64) (w : World) :
    Roster w (saveTask h id (advance h id next reason now w)) :=
  (roster_advance h id next reason now w).trans (roster_save h id _)

/-! ### Launches and admission -/

theorem roster_launchQueued {id : String} {snapshot : Task} (now : UInt64) {w : World}
    (ht : w.mem.tasks.lookup id = some snapshot) :
    Roster w (launchQueued h id snapshot now w).1 := by
  obtain ⟨w₁, cwd, he, hcases⟩ := launchQueued_cases h w id snapshot now
  have hensure := (@idle_ensureWorktree h .any id snapshot w ht Rules.permits_any).roster
  rw [he] at hensure
  have hbegin : Roster w (beginLaunch h id now w₁) :=
    (hensure.trans (roster_advance h _ _ _ _ _)).trans (roster_advance h _ _ _ _ _)
  have hspawn : Roster w (attemptSpawn h id (some cwd) (beginLaunch h id now w₁)) :=
    hbegin.trans (.of_write rfl rfl rfl)
  rcases hcases with ⟨pid, -, heq⟩ | ⟨-, heq⟩ <;> rw [heq]
  · let w₂ := saveTask h id (advance h id .active "provider running" now
      (attemptSpawn h id (some cwd) (beginLaunch h id now w₁)))
    have hup : Roster w w₂ := hspawn.trans (roster_move h id .active "provider running" now _)
    let rt : RuntimeInstance := ⟨snapshot.spec.provider, pid, some cwd⟩
    have hinstalled : Roster w₂ (installRuntime h id rt w₂) := .of_mem rfl rfl
    refine (hup.trans hinstalled).trans (Quiet.roster ?_)
    refine Quiet.trans (Quiet.trans ?_ (quiet_event _ _ _ _ _)) (quiet_audit _ _ _ _ _)
    exact .of_mem rfl rfl rfl rfl rfl
  · exact (hspawn.trans (roster_move h id .failed "launch failed" now _)).trans
      (quiet_audit _ _ _ _ _).roster

theorem roster_admitOne (now : UInt64) (w : World) (id : String) :
    Roster w (admitOne h now w id) := by
  unfold admitOne
  cases ht : w.mem.tasks.lookup id with
  | none => exact .refl w
  | some snapshot =>
      have haudit := (@quiet_audit h (some id) "admitted" "scored in and fits the budget" none w).roster
      exact (haudit.trans (roster_launchQueued h now ht)).trans (.of_mem rfl rfl)

theorem roster_tryAdmitPending (now : UInt64) (w : World) : Roster w (tryAdmitPending h now w) :=
  ((quiet_planPass now w).roster.trans (foldl_roster (roster_admitOne h now) _ _)).trans
    (foldl_quiet quiet_deferOne _ _).roster

theorem roster_startTask (id : String) (w : World) : Roster w (startTask h id w).1 := by
  have hask : Roster w w.ask := (quiet_ask w).roster
  unfold startTask
  dsimp only
  split
  · exact hask
  · rw [ask_mem]
    cases w.mem.tasks.lookup id with
    | none => exact hask
    | some snapshot =>
        dsimp only
        split
        · exact hask
        · -- the task goes to the front of the queue, and the queue is admitted
          let w₀ : World := { w.ask with
            mem := { w.mem with
              pendingAdmission := id :: w.mem.pendingAdmission.filter (· ≠ id) } }
          have hqueued : Roster w w₀ := .of_mem rfl rfl
          exact hqueued.trans (roster_tryAdmitPending h (h.now w.calls) w₀)

/-! ### Restart, terminate and retire -/

theorem roster_forceRequeue (id : String) (now : UInt64) (n : Nat) (w : World) :
    Roster w (forceRequeue h id now n w) := by
  induction n generalizing w with
  | zero => exact .refl w
  | succ n ih =>
      unfold forceRequeue
      cases w.mem.tasks.lookup id with
      | none => exact .refl w
      | some task =>
          dsimp only
          split
          · exact .refl w
          · cases requeueNext task.state with
            | none => exact .refl w
            | some s => exact (roster_advance h id s _ now w).trans (ih _)

theorem roster_restart (id : String) (w : World) : Roster w (restart h id w).1 := by
  have hask : Roster w w.ask := (quiet_ask w).roster
  unfold restart
  rcases hp : prepareRestart h id w with ⟨w', r⟩
  obtain ⟨-, rfl, e, rfl⟩ | ⟨-, u, rfl, hu, rfl⟩ := prepareRestart_cases hp
  · exact hask
  · have hqueued := (hask.trans (roster_forceRequeue h id (h.now w.calls) 6 w.ask)).trans
      (roster_save h id _)
    exact (hqueued.trans (quiet_event _ _ _ _ _).roster).trans (roster_launchQueued h _ hu)

theorem roster_drive (id : String) (now : UInt64) (w : World) : Roster w (drive h id now w) := by
  unfold drive
  refine Roster.trans ?_ (roster_advance h _ _ _ _ _)
  cases w.mem.tasks.lookup id with
  | none => exact .refl w
  | some task =>
      dsimp only
      split
      · exact roster_advance h _ _ _ _ _
      · exact .refl w

theorem roster_terminate (id : String) (w : World) : Roster w (terminate h id w).1 := by
  have hask : Roster w w.ask := (quiet_ask w).roster
  unfold terminate
  dsimp only
  split
  · exact hask
  · have hdown := hask.trans (@idle_takeDown h .any id trivial w.ask).roster
    generalize releaseReservation id _ = w₁ at hdown ⊢
    refine ((hdown.trans (roster_drive h id (h.now w.calls) w₁)).trans (roster_save h id _)).trans ?_
    exact ((quiet_audit _ _ _ _ _).trans (quiet_event _ _ _ _ _)).roster

theorem roster_retireTask (id : String) (now : UInt64) (w : World) :
    Roster w (retireTask h id now w) := by
  unfold retireTask
  cases w.mem.tasks.lookup id with
  | none => exact .refl w
  | some task =>
      dsimp only
      split
      · exact .refl w
      · exact (roster_advance h id .terminating "provider exited" now w).trans
          (roster_move h id .terminated "provider exited" now _)

theorem roster_retire (now : UInt64) (w : World) (id : String) : Roster w (retire h now w id) := by
  let w₀ : World := { w with mem := { w.mem with runtimes := w.mem.runtimes.erase id } }
  let w₁ := reapTaskProcesses h id ((w.mem.runtimes.lookup id).bind (·.pid)) (flushHistory h id w₀)
  have hreap : Quiet w₀ w₁ := (quiet_flushHistory id w₀).trans (quiet_reapTaskProcesses id _ _)
  have hfirst : Roster w w₀ := .of_mem rfl rfl
  have hdrop : Roster w w₁ := hfirst.trans hreap.roster
  have hdown : id ∉ (retireTask h id now w₁).mem.runtimes := by
    rw [retireTask_runtimes, hreap.runtimes, KeyMap.mem_erase_iff]
    exact fun hin => hin.1 rfl
  refine (hdrop.trans (roster_retireTask h id now w₁)).trans ?_
  exact (@idle_cleanupWorktree h .any id _ hdown).roster.trans
    ((quiet_releaseReservation id _).trans (quiet_event _ _ _ _ _)).roster

/-! ### Checkpoints -/

theorem roster_captureCheckpoint {id : String} {task : Task} (now : UInt64) {w : World}
    (hid : id ∈ w.mem.runtimes) (ht : w.mem.tasks.lookup id = some task) :
    Roster w (captureCheckpoint codec h id task now w).1 :=
  (@idle_captureCheckpoint codec h .any id task now w hid ht).roster

theorem roster_persistCheckpoint (cp : Checkpoint) (w : World) :
    Roster w (persistCheckpoint codec h cp w).1 := by
  have hask : Roster w w.ask := (quiet_ask w).roster
  unfold persistCheckpoint
  dsimp only
  split
  · exact hask
  · split
    · exact hask.trans (.of_write rfl rfl rfl)
    · generalize hw : (w.ask.ask).note
        (.writeArtifact (checkpointPath w.ask.mem.root cp.taskId) (codec.encode cp)) = w₁
      have hart : Roster w w₁ := by
        subst hw
        exact (hask.trans (quiet_ask _).roster).trans (.of_write rfl rfl rfl)
      exact hart.trans (roster_exec h (q := .saveCheckpointRef (refOf w₁.mem.root cp)) rfl w₁)

theorem roster_checkpointLive (verb failed id : String) (now : UInt64) (w : World) :
    Roster w (checkpointLive codec h verb failed id now w).1 := by
  unfold checkpointLive
  split
  · exact .refl w
  · next hid =>
    cases ht : w.mem.tasks.lookup id with
    | none => exact .refl w
    | some task =>
        dsimp only
        cases assess (activity task) with
        | wait reason => exact (quiet_audit _ _ _ _ _).roster
        | ready =>
            have hcap := roster_captureCheckpoint codec h now (not_not.mp hid) ht
            have hpers := hcap.trans (roster_persistCheckpoint codec h
              (captureCheckpoint codec h id task now w).2 _)
            dsimp only
            rcases hp : persistCheckpoint codec h (captureCheckpoint codec h id task now w).2
              (captureCheckpoint codec h id task now w).1 with ⟨w', e | u⟩ <;>
            · rw [hp] at hpers
              exact hpers

theorem roster_freeze (id : String) (cp : Checkpoint) (now : UInt64) (w : World) :
    Roster w (freeze h id cp now w) := by
  unfold freeze
  have hshut := (@idle_shutdownRuntime h .any id trivial w).roster
  rcases hs : shutdownRuntime h id w with ⟨w', cleanup⟩
  rw [hs] at hshut
  have hdown : Roster w (releaseReservation id w') :=
    Roster.trans hshut (quiet_releaseReservation id w').roster
  refine Roster.trans (hdown.trans ?_) ((quiet_event _ _ _ _ _).trans (quiet_audit _ _ _ _ _)).roster
  exact (roster_advance h _ _ _ _ _).trans (roster_move h id .hibernated _ now _)

theorem roster_hibernate (id : String) (w : World) : Roster w (hibernate codec h id w).1 := by
  have hask : Roster w w.ask := (quiet_ask w).roster
  have hlive := hask.trans (roster_checkpointLive codec h "hibernate" "checkpoint failed: " id
    (h.now w.calls) w.ask)
  rcases hibernate_cases codec h w id with ⟨w', r, hc, -, heq⟩ | ⟨w', task, cp, hc, -, heq⟩
  · rw [hc] at hlive
    rw [heq]
    exact hlive
  · rw [hc] at hlive
    rw [heq]
    exact Roster.trans hlive (roster_freeze h id cp _ w')

/-! ### Resume and recycle -/

theorem roster_wakeUp (id r₁ r₂ : String) (now : UInt64) (w : World) :
    Roster w (wakeUp h id r₁ r₂ now w) :=
  (roster_advance h id .resuming r₁ now w).trans (roster_move h id .active r₂ now _)

theorem roster_thaw (id : String) (cls : ResourceClass) (o : ResumeOutcome) (now : UInt64)
    (w : World) : Roster w (thaw h id cls o now w) := by
  have hwake := roster_wakeUp h id "restoring from checkpoint" "provider resumed" now w
  show Roster w (emitResumeEvent h id o (exec h (.deleteCheckpoints id)
    (reserve id cls (wakeUp h id "restoring from checkpoint" "provider resumed" now w))))
  generalize wakeUp h id "restoring from checkpoint" "provider resumed" now w = w₁ at hwake ⊢
  have hres : Quiet w₁ (reserve id cls w₁) := .of_mem rfl rfl rfl rfl rfl
  refine Roster.trans ((hwake.trans hres.roster).trans
    (roster_exec h (q := .deleteCheckpoints id) rfl _)) (Quiet.roster ?_)
  exact (quiet_appendEvent _ _ _ _ _ _).trans (quiet_audit _ _ _ _ _)

theorem roster_resume (id : String) (w : World) : Roster w (resume codec h id w).1 := by
  have hask : Roster w w.ask := (quiet_ask w).roster
  rcases resume_cases codec h w id with ⟨r, -, heq⟩ | ⟨task, cp, hp, hcases⟩
  · rw [heq]
    exact hask
  · obtain ⟨ht, -, -⟩ := prepareResume_ok codec hp
    have hre := hask.trans (@idle_relaunch h .any id task cp w.ask
      ⟨task, ht, rfl, Rules.permits_any⟩).roster
    rcases hcases with ⟨w', e, hr, -, heq⟩ | ⟨w', o, rt, hist, hr, -, heq⟩ <;> rw [heq]
    · rw [hr] at hre
      exact Roster.trans hre (quiet_audit _ _ _ _ _).roster
    · rw [hr] at hre
      exact Roster.trans hre (roster_thaw h id _ o _ w')

theorem roster_finishRecycle (id : String) (cp : Checkpoint) (rss : Nat) (cleanup : String)
    (o : ResumeOutcome) (now : UInt64) (w : World) :
    Roster w (finishRecycle h id cp rss cleanup o now w) := by
  have hwake := (quiet_ask w).roster.trans
    (roster_wakeUp h id "restoring from checkpoint" "provider recycled" now w.ask)
  refine (hwake.trans (roster_exec h (q := .deleteCheckpoints id) rfl _)).trans (Quiet.roster ?_)
  exact (quiet_appendEvent _ _ _ _ _ _).trans (quiet_audit _ _ _ _ _)

theorem roster_relaunchLive {id : String} {task : Task} (cp : Checkpoint) (now : UInt64) {w : World}
    (ht : w.mem.tasks.lookup id = some task) : Roster w (relaunchLive h id task cp now w).1 := by
  have hshut := @idle_shutdownRuntime h .any id trivial w
  unfold relaunchLive
  dsimp only
  rw [← hshut.tasks] at ht
  generalize (shutdownRuntime h id w).1 = w₁ at hshut ht ⊢
  have hbegin : Roster w₁ (beginRecycle h id now w₁) := roster_move h id _ _ now w₁
  have hlaunch : Launchable .any id (captureDir id task (beginRecycle h id now w₁).mem)
      (beginRecycle h id now w₁) := by
    refine ⟨_, lookup_advance_self h w₁ ht _ _ _, captureDir_congr ?_ rfl, Rules.permits_any⟩
    exact Task.attempt_spec _ _ _ _
  exact (hshut.roster.trans hbegin).trans (@idle_relaunch h .any id task cp _ hlaunch).roster

theorem roster_recycle (id : String) (w : World) : Roster w (recycle codec h id w).1 := by
  have hask : Roster w w.ask.ask := ((quiet_ask w).trans (quiet_ask _)).roster
  have hlive := hask.trans (roster_checkpointLive codec h "recycle" "recycle checkpoint failed: " id
    (h.now w.calls) w.ask.ask)
  rcases recycle_cases codec h w id with ⟨w', r, hc, -, heq⟩ | ⟨w', task, cp, hc, hmem, hcases⟩
  · rw [hc] at hlive
    rw [heq]
    exact hlive
  · rw [hc] at hlive
    obtain ⟨-, ht, -⟩ := checkpointLive_ok codec h hc
    have ht' : w'.mem.tasks.lookup id = some task := by
      rw [hmem]
      exact ht
    have hre := Roster.trans hlive (roster_relaunchLive h cp (h.now w.calls) ht')
    rcases hcases with ⟨w₂, cleanup, e, hr, heq⟩ | ⟨w₂, cleanup, o, hr, heq⟩ <;>
      rw [hr] at hre <;> rw [heq]
    · exact Roster.trans hre
        ((roster_move h id _ _ _ w₂).trans (quiet_audit _ _ _ _ _).roster)
    · exact Roster.trans hre (roster_finishRecycle h id cp _ cleanup o _ w₂)

/-! ### The pump -/

theorem roster_retireExited (now : UInt64) (w : World) : Roster w (retireExited h now w) := by
  have hdrain := (quiet_ask w).trans (@quiet_drainRuntimes h (walk h w.mem.runtimes w) w.ask)
  unfold retireExited
  rcases hd : drainRuntimes h (walk h w.mem.runtimes w) w.ask with ⟨w₁, exited⟩
  rw [hd] at hdrain
  exact hdrain.roster.trans (foldl_roster (roster_retire h now) exited w₁)

theorem roster_hibernateLow (evidence : JsonObject) (w : World) :
    Roster w (actHibernateLowPriority codec h evidence w) := by
  unfold actHibernateLowPriority
  dsimp only
  split
  · exact (quiet_ask w).roster
  · next id _ _ =>
    have ha := (quiet_ask w).trans (@quiet_audit h (some id) "hibernate_low_priority"
      PressureAction.hibernateLowPriority.describe (some evidence) w.ask)
    exact (ha.roster.trans (roster_hibernate codec h id _)).trans (quiet_event _ _ _ _ _).roster

theorem roster_recycleBloated (evidence : JsonObject) (w : World) :
    Roster w (actRecycleBloated codec h evidence w) := by
  unfold actRecycleBloated
  cases hb : bloatedRecycle h evidence w with
  | none => exact (quiet_ask w).roster
  | some x =>
      obtain ⟨reason, hx⟩ := bloatedRecycle_some h hb
      have hi : Quiet w x.2 := by
        rw [hx]
        exact (quiet_ask w).trans (quiet_audit _ _ _ _ _)
      exact (hi.roster.trans (roster_recycle codec h x.1 x.2)).trans (quiet_event _ _ _ _ _).roster

theorem roster_preserveVictim {id : String} {task : Task} (evidence : JsonObject) {w : World}
    (hid : id ∈ w.mem.runtimes) (ht : w.mem.tasks.lookup id = some task) :
    Roster w (preserveVictim codec h id task evidence w).1 := by
  have hcap := (quiet_ask w).roster.trans
    (@roster_captureCheckpoint codec h id task (h.now w.calls) w.ask hid ht)
  have hall := hcap.trans (roster_persistCheckpoint codec h
    (captureCheckpoint codec h id task (h.now w.calls) w.ask).2 _)
  unfold preserveVictim
  dsimp only
  rcases hp : persistCheckpoint codec h (captureCheckpoint codec h id task (h.now w.calls) w.ask).2
    (captureCheckpoint codec h id task (h.now w.calls) w.ask).1 with ⟨w', e | u⟩ <;> rw [hp] at hall
  · exact Roster.trans hall (quiet_audit _ _ _ _ _).roster
  · exact Roster.trans hall
      ((quiet_audit _ _ _ _ _).trans (quiet_appendEvent _ _ _ _ _ _)).roster

theorem roster_actPreserveGitState (evidence : JsonObject) (w : World) :
    Roster w (actPreserveGitState codec h evidence w).1 := by
  unfold actPreserveGitState
  dsimp only
  cases hv : pickLowestPriorityVictim (runningCandidates h w) with
  | none => exact (quiet_ask w).roster
  | some id =>
      cases ht : w.ask.mem.tasks.lookup id with
      | none =>
          simp only [ht]
          exact ((quiet_ask w).trans (quiet_ask _)).roster
      | some task =>
          simp only [ht]
          exact (quiet_ask w).roster.trans
            (roster_preserveVictim codec h evidence (@mem_runtimes_of_victim h w id hv) ht)

theorem roster_actTerminateVictim (id : String) (evidence : JsonObject) (w : World) :
    Roster w (actTerminateVictim h id evidence w) :=
  ((quiet_audit _ _ _ _ _).roster.trans (roster_terminate h id _)).trans
    (quiet_event _ _ _ _ _).roster

theorem roster_applyAction (evidence : JsonObject) (s : World × Option String) (a : PressureAction) :
    Roster s.1 (applyAction codec h evidence s a).1 := by
  obtain ⟨w, preserved⟩ := s
  have advisory : ∀ e : PressureAction, Roster w
      (event h none "pressure" "pressure_action_advisory" "info"
        (audit h none "pressure_action_advisory" e.describe (some evidence) w)) := fun _ =>
    Quiet.roster ((quiet_audit _ _ _ _ _).trans (quiet_event _ _ _ _ _))
  cases a with
  | reclaimIdleChildren => exact (quiet_actReclaimEscaped evidence w).roster
  | hibernateLowPriority => exact roster_hibernateLow codec h evidence w
  | recycleBloatedProviders => exact roster_recycleBloated codec h evidence w
  | preserveGitState => exact roster_actPreserveGitState codec h evidence w
  | terminateLowestPriorityTree =>
      cases preserved with
      | none => exact .refl w
      | some id => exact roster_actTerminateVictim h id evidence w
  | blockLowPriorityStarts => exact (quiet_event _ _ _ _ _).roster
  | notifyOperator => exact Quiet.roster ((quiet_audit _ _ _ _ _).trans (quiet_event _ _ _ _ _))
  | routineCompaction => exact advisory _
  | trimRenderCaches => exact advisory _
  | rotateBuffers => exact advisory _
  | stopIdleSharedWorkers => exact advisory _
  | reduceWorkerConcurrency => exact advisory _

theorem roster_applyActions (evidence : JsonObject) (as : List PressureAction)
    (s : World × Option String) : Roster s.1 (as.foldl (applyAction codec h evidence) s).1 := by
  induction as generalizing s with
  | nil => exact .refl _
  | cons a as ih => exact (roster_applyAction codec h evidence s a).trans (ih _)

theorem roster_pressureTick (now : UInt64) (w : World) : Roster w (pressureTick codec h now w) := by
  have hi := (@quiet_readPressure h now w).roster
  unfold pressureTick
  split
  · exact .refl w
  · rcases hr : readPressure h now w with ⟨w₁, stage, evidence⟩
    rw [hr] at hi
    dsimp only
    split
    · exact hi
    · exact Roster.trans hi (roster_applyActions codec h evidence stage.actions (w₁, none))

theorem roster_triggerRecycle (w : World) (t : String × Nat × String) :
    Roster w (triggerRecycle codec h w t) := by
  have hann : Quiet w (announceTrigger h w t) := quiet_audit _ _ _ _ _
  exact hann.roster.trans (roster_recycle codec h t.1 (announceTrigger h w t))

theorem roster_checkRecycleTriggers (now : UInt64) (w : World) :
    Roster w (checkRecycleTriggers codec h now w) := by
  have hmeasured : Roster w (measureProviders h now w).1 := .of_mem rfl rfl
  unfold checkRecycleTriggers
  split
  · exact .refl w
  · exact hmeasured.trans (foldl_roster (roster_triggerRecycle codec h) _ _)

theorem roster_pump (now : UInt64) (w : World) : Roster w (pump codec h now w) := by
  show Roster w (tryAdmitPending h now (checkRecycleTriggers codec h now
    (pressureTick codec h now (sampleTick h now (retireExited h now w)))))
  have hfirst : Roster w (sampleTick h now (retireExited h now w)) :=
    (roster_retireExited h now w).trans (quiet_sampleTick now _).roster
  exact ((hfirst.trans (roster_pressureTick codec h now _)).trans
    (roster_checkRecycleTriggers codec h now _)).trans (roster_tryAdmitPending h now _)

/-! ### Who is enrolled, and who is struck off -/

/-- `t` is registered, and stored first. -/
structure Enrolled (t : Task) (w w' : World) : Prop where
  tasks : w'.mem.tasks = w.mem.tasks.insert t.spec.id t
  writes : ∃ es, w'.durable = w.durable.writeAll (.commit (.upsertTask t) :: es) ∧
    ∀ e ∈ es, e.erased = none

/-- `id` is no longer registered, and no other record lost anything. -/
structure Struck (id : String) (w w' : World) : Prop where
  tasks : w'.mem.tasks = w.mem.tasks.erase id
  writes : Writes (fun e => ∀ i, e.erased = some i → i = id) w w'

theorem roster_store (t : Task) (r r' : Response) (w : World) :
    let w' := (if executes h (.upsertTask t) w then
      (registerTask h t (exec h (.upsertTask t) w), r) else (exec h (.upsertTask t) w, r')).1
    Roster w w' ∨ Enrolled t w w' := by
  dsimp only
  split
  · next hex =>
    have hrow : (exec h (.upsertTask t) w).durable = w.durable.write (.commit (.upsertTask t)) := by
      unfold exec
      rw [if_pos hex]
    -- its first transition, an event and a decision follow
    obtain ⟨es, hd, hes⟩ : Writes (fun e => e.erased = none) (exec h (.upsertTask t) w)
        (registerTask h t (exec h (.upsertTask t) w)) := by
      unfold registerTask
      exact Writes.trans (roster_exec h rfl _).writes
        (Writes.trans (roster_exec h rfl _).writes (roster_exec h rfl _).writes)
    refine .inr ⟨rfl, es, ?_, hes⟩
    rw [hd, hrow, Journal.writeAll_cons]
  · exact .inl (roster_exec h (q := .upsertTask t) rfl w)

theorem roster_createTask (req : CreateTaskRequest) (w : World) :
    Roster w (createTask h req w).1 ∨ ∃ t, Enrolled t w (createTask h req w).1 := by
  unfold createTask
  cases parseProvider req.provider with
  | none => exact .inl (.refl w)
  | some provider =>
      let w₀ : World := { w.ask with mem := { w.mem with seq := w.mem.seq + 1 } }
      have hseq : Roster w w₀ := .of_mem rfl rfl
      rcases roster_store h (queuedTask (specOf (newTaskId (h.now w.calls) w₀.mem.seq) provider req)
        (h.now w.calls)) _ _ w₀ with hkept | ⟨htasks, hwrites⟩
      · exact .inl (hseq.trans hkept)
      · exact .inr ⟨_, htasks, hwrites⟩

theorem struck_deleteTask (id : String) (w : World) :
    Writes (fun e => ∀ i, e.erased = some i → i = id) w (deleteTask h id w).1 := by
  have hone : ∀ q ∈ [Stmt.deleteTransitions id, .deleteCheckpoints id, .deleteTaskRow id],
      ∀ w, Writes (fun e => ∀ i, e.erased = some i → i = id) w (exec h q w) := by
    intro q hq w
    refine writes_exec ?_ nofun w
    simp only [List.mem_cons, List.not_mem_nil, or_false] at hq
    rcases hq with rfl | rfl | rfl <;> rintro i hi <;> cases hi <;> rfl
  unfold deleteTask
  split
  · dsimp only
    refine (hone (.deleteTransitions id) (by simp) w).trans ?_
    split
    · exact (hone (.deleteCheckpoints id) (by simp) _).trans
        (hone (.deleteTaskRow id) (by simp) _)
    · exact hone (.deleteCheckpoints id) (by simp) _
  · exact hone (.deleteTransitions id) (by simp) w

/-- `forget` takes the task: no provider runs it, and it has ended. -/
def Ended (id : String) (m : DaemonState) : Prop :=
  id ∉ m.runtimes ∧ ∃ t, m.tasks.lookup id = some t ∧ Forgettable t.state

theorem roster_forget (id : String) (w : World) :
    Roster w (forget h id w).1 ∨ Ended id w.mem ∧ Struck id w (forget h id w).1 := by
  unfold forget
  split
  · exact .inl (.refl w)
  · next hid =>
    cases ht : w.mem.tasks.lookup id with
    | none => exact .inl (.refl w)
    | some task =>
        dsimp only
        split
        · exact .inl (.refl w)
        · next hst =>
          have hend : Ended id w.mem := by
            refine ⟨hid, task, ht, ?_⟩
            unfold Forgettable
            by_cases hf : task.state = .failed
            · exact .inl hf
            · exact .inr (by simpa [hf] using hst)
          -- forgotten in memory first, then deleted on the disk
          generalize hw : (⟨{ w.mem with
            tasks := w.mem.tasks.erase id, histories := w.mem.histories.erase id },
            w.durable, w.procs, w.calls⟩ : World) = w₀
          have hdel := struck_deleteTask h id w₀
          have hdisk : w₀.durable = w.durable := by rw [← hw]
          have hmem : (deleteTask h id w₀).1.mem.tasks = w.mem.tasks.erase id := by
            rw [deleteTask_mem, ← hw]
          rcases hd : deleteTask h id w₀ with ⟨w₁, b⟩
          rw [hd] at hdel hmem
          obtain ⟨es, hes, hall⟩ := hdel
          have hstruck : Struck id w w₁ := ⟨hmem, es, hdisk ▸ hes, hall⟩
          cases b with
          | false => exact .inr ⟨hend, hstruck⟩
          | true =>
              refine .inr ⟨hend, hmem, hstruck.writes.trans ?_⟩
              exact Writes.trans (writes_exec nofun nofun _) (writes_exec nofun nofun _)

/-- **What an operation does to the roster**: nothing, or it is a create request that enrols a task, or
a forget request that strikes off one that has ended. -/
theorem perform_roster (i : Input) (w : World) :
    Roster w (perform codec h i w) ∨ (∃ t, Enrolled t w (perform codec h i w)) ∨
      ∃ id, i = .request (.forgetTask id) ∧ Ended id w.mem ∧ Struck id w (perform codec h i w) := by
  have hbegin : Roster w (w.begin h) := .of_mem rfl rfl
  cases i with
  | tick =>
      have hpump : perform codec h .tick w = pump codec h (h.now 0) (w.begin h).ask := rfl
      rw [hpump]
      exact .inl ((hbegin.trans (quiet_ask _).roster).trans (roster_pump codec h _ _))
  | request r =>
      have hhandle : perform codec h (.request r) w = (handle codec h r (w.begin h)).1 := rfl
      rw [hhandle]
      cases r with
      | createTask req =>
          rcases roster_createTask h req (w.begin h) with hkept | ⟨t, htasks, hwrites⟩
          · exact .inl (hbegin.trans hkept)
          · exact .inr (.inl ⟨t, htasks, hwrites⟩)
      | forgetTask id =>
          rcases roster_forget h id (w.begin h) with hkept | ⟨hend, htasks, hwrites⟩
          · exact .inl (hbegin.trans hkept)
          · exact .inr (.inr ⟨id, rfl, hend, htasks, hwrites⟩)
      | terminateTask id => exact .inl (hbegin.trans (roster_terminate h id _))
      | restartTask id => exact .inl (hbegin.trans (roster_restart h id _))
      | hibernateTask id => exact .inl (hbegin.trans (roster_hibernate codec h id _))
      | resumeTask id => exact .inl (hbegin.trans (roster_resume codec h id _))
      | recycleTask id => exact .inl (hbegin.trans (roster_recycle codec h id _))
      | startTask id => exact .inl (hbegin.trans (roster_startTask h id _))
      | addWorkspace path => exact .inl (hbegin.trans (@quiet_addWorkspace h path (w.begin h)).roster)
      | removeWorkspace id =>
          exact .inl (hbegin.trans (@quiet_removeWorkspace h id (w.begin h)).roster)
      -- the other requests change nothing
      | daemonInfo => exact .inl hbegin
      | getTask id => exact .inl hbegin
      | listTasks => exact .inl hbegin
      | listWorkspaces => exact .inl hbegin
      | systemPressure => exact .inl hbegin
      | readEvents afterSeq limit => exact .inl hbegin
      | getScreen id => exact .inl hbegin
      | readHistory id cursor limit => exact .inl hbegin
      | attach id => exact .inl hbegin

end Requests

/-! ### Runs -/

/-- The event is a request to forget `id`, and `id` has ended. -/
def Event.strikes (id : String) (w : World) : Event → Prop
  | .op _ i | .crash _ i _ _ => i = .request (.forgetTask id) ∧ Ended id w.mem
  | .reboot _ => False

/-- **What is registered is stored.** -/
def Rostered (w : World) : Prop := ∀ id ∈ w.mem.tasks, id ∈ w.disk.tables.tasks.rows

theorem Outlasts.mem {id : String} {d d' : Disk} (ho : Outlasts id d d')
    (hid : id ∈ d.tables.tasks.rows) : id ∈ d'.tables.tasks.rows := by
  obtain ⟨row, hrow⟩ := KeyMap.mem_iff_lookup.mp hid
  obtain ⟨row', hrow', -⟩ := ho.row row hrow
  exact KeyMap.mem_iff_lookup.mpr ⟨row', hrow'⟩

/-- The effects of an operation that does not strike `id` off erase nothing of it. -/
theorem effectsOf_spare (codec : CheckpointCodec) (h : Host) {i : Input} {w : World} {id : String}
    (hno : ¬ (i = .request (.forgetTask id) ∧ Ended id w.mem)) :
    (perform codec h i w).durable = w.durable.writeAll (effectsOf codec h i w) ∧
      ∀ e ∈ effectsOf codec h i w, e.erased ≠ some id := by
  have hspare : Writes (fun e => e.erased ≠ some id) w (perform codec h i w) := by
    rcases perform_roster codec h i w with ⟨-, es, hd, hes⟩ | ⟨t, -, es, hd, hes⟩ |
      ⟨j, rfl, hend, -, es, hd, hes⟩
    · exact ⟨es, hd, fun e he heq => nomatch (hes e he).symm.trans heq⟩
    · refine ⟨_, hd, fun e he heq => ?_⟩
      rcases List.mem_cons.mp he with rfl | he
      · cases heq
      · cases (hes e he).symm.trans heq
    · refine ⟨es, hd, fun e he heq => ?_⟩
      obtain rfl := hes e he id heq
      exact hno ⟨rfl, hend⟩
  obtain ⟨es, hd, hes⟩ := hspare
  rw [effectsOf_eq hd]
  exact ⟨hd, hes⟩

/-- **No event but an accepted forget request erases anything of a record.** -/
theorem next_outlasts (codec : CheckpointCodec) {id : String} {w : World} {e : Event}
    (hno : ¬ e.strikes id w) : Outlasts id w.disk (next codec w e).disk := by
  cases e with
  | op h i =>
      obtain ⟨hd, hes⟩ := effectsOf_spare codec h hno
      show Outlasts id w.disk (perform codec h i w).disk
      rw [disk_writeAll hd]
      exact outlasts_replay hes _
  | reboot h => exact .of_same (boot_sameRecord h _ _ w.durable id)
  | crash h i k h' =>
      obtain ⟨hd, hes⟩ := effectsOf_spare codec h hno
      -- some of the effects are there, and the next daemon boots on them
      refine Outlasts.trans ?_ (.of_same (boot_sameRecord h' _ _ _ id))
      rw [hd, Journal.cut_writeAll, Journal.state_writeAll]
      exact outlasts_replay (fun e he => hes e (List.take_subset _ _ he)) _

/-- A daemon that boots registers what is stored. -/
theorem stored_boot (h : Host) (envelope : ResourceEnvelope) (root : Path)
    (disk : Journal Disk Effect) (id : String) :
    id ∈ (boot h envelope root disk).mem.tasks
      ↔ id ∈ (boot h envelope root disk).disk.tables.tasks.rows := by
  rw [KeyMap.mem_iff_lookup (m := (boot h envelope root disk).disk.tables.tasks.rows),
    (boot_sameRecord h envelope root disk id).1, ← KeyMap.mem_iff_lookup, ← AList.lookup_isSome,
    boot_lookup, Tables.loadTask, Option.isSome_map, AList.lookup_isSome]

/-- The row of a task that is upserted is there. -/
theorem mem_rows_upsert (t : Task) (d : Disk) :
    t.spec.id ∈ (Replay.apply d (.commit (.upsertTask t) : Effect) : Disk).tables.tasks.rows := by
  have hlook := d.tables.lookup_upsertTask t.spec.id t
  rw [if_pos rfl] at hlook
  exact KeyMap.mem_iff_lookup.mpr ⟨_, hlook⟩

theorem stored_next (codec : CheckpointCodec) (w : World) (e : Event) (hs : Rostered w) :
    Rostered (next codec w e) := by
  cases e with
  | reboot h => exact fun id hid => (stored_boot h _ _ _ id).mp hid
  | crash h i k h' => exact fun id hid => (stored_boot h' _ _ _ id).mp hid
  | op h i =>
      intro id hid
      change id ∈ (perform codec h i w).mem.tasks at hid
      change id ∈ (perform codec h i w).disk.tables.tasks.rows
      rcases perform_roster codec h i w with ⟨htasks, es, hd, hes⟩ | ⟨t, htasks, es, hd, hes⟩ |
        ⟨j, -, -, htasks, es, hd, hes⟩ <;> rw [disk_writeAll hd]
      · refine (outlasts_replay (fun e he heq => ?_) _).mem (hs id ((htasks id).mp hid))
        cases (hes e he).symm.trans heq
      · -- the row of a task that is enrolled comes first
        have hrest : ∀ i, ∀ e ∈ es, e.erased ≠ some i :=
          fun i e he heq => nomatch (hes e he).symm.trans heq
        rw [htasks, KeyMap.mem_insert_iff] at hid
        rcases hid with rfl | hid
        · exact (outlasts_replay (hrest _) _).mem (mem_rows_upsert t w.disk)
        · refine ((outlasts_apply ?_ _).trans (outlasts_replay (hrest _) _)).mem (hs id hid)
          exact nofun
      · rw [htasks, KeyMap.mem_erase_iff] at hid
        exact (outlasts_replay (fun e he heq => hid.1 (hes e he id heq)) _).mem (hs id hid.2)

/-- What is registered stays registered. -/
theorem mem_next (codec : CheckpointCodec) {id : String} {w : World} {e : Event} (hs : Rostered w)
    (hid : id ∈ w.mem.tasks) (hno : ¬ e.strikes id w) : id ∈ (next codec w e).mem.tasks := by
  have hrow := (next_outlasts codec hno).mem (hs id hid)
  cases e with
  | reboot h => exact (stored_boot h _ _ _ id).mpr hrow
  | crash h i k h' => exact (stored_boot h' _ _ _ id).mpr hrow
  | op h i =>
      show id ∈ (perform codec h i w).mem.tasks
      rcases perform_roster codec h i w with hr | ⟨t, ht⟩ | ⟨j, rfl, hend, hstruck⟩
      · exact (hr.tasks id).mpr hid
      · rw [ht.tasks]
        exact (KeyMap.mem_insert_iff _ _ _ _).mpr (.inr hid)
      · rw [hstruck.tasks, KeyMap.mem_erase_iff]
        refine ⟨?_, hid⟩
        rintro rfl
        exact hno ⟨rfl, hend⟩

/-- What `id` has had since `d`. -/
structure Outlasting (id : String) (d : Disk) (w : World) : Prop where
  registered : id ∈ w.mem.tasks
  stored : Rostered w
  outlasts : Outlasts id d w.disk

theorem Outlasting.next (codec : CheckpointCodec) {id : String} {d : Disk} (w : World) (e : Event)
    (hk : Outlasting id d w) (hno : ¬ e.strikes id w) : Outlasting id d (next codec w e) :=
  ⟨mem_next codec hk.stored hk.registered hno, stored_next codec w e hk.stored,
    hk.outlasts.trans (next_outlasts codec hno)⟩

/-- **A registered task outlasts everything but an accepted request to forget it.**  After any requests,
pumps, reboots and crashes, whatever the store refused, it is registered, its row is there and as
old as it was, and the transitions it had are the first ones it has. -/
theorem registered_outlasts (codec : CheckpointCodec) (h : Host) (envelope : ResourceEnvelope)
    (root : Path) (disk : Journal Disk Effect) (es fs : List Event) {id : String}
    (hid : id ∈ (runs codec (boot h envelope root disk) es).mem.tasks)
    (hfs : Run.Allowed (next codec) (fun w e => ¬ e.strikes id w)
      (runs codec (boot h envelope root disk) es) fs) :
    let w := runs codec (boot h envelope root disk) es
    let w' := runs codec (boot h envelope root disk) (es ++ fs)
    id ∈ w'.mem.tasks ∧
      (∃ row row', w.disk.tables.tasks.rows.lookup id = some row ∧
        w'.disk.tables.tasks.rows.lookup id = some row' ∧ row'.createdAtMs = row.createdAtMs) ∧
      w.disk.tables.loadHistory id <+: w'.disk.tables.loadHistory id := by
  intro w w'
  have hs : Rostered w :=
    Run.always (stored_next codec) (fun id hid => (stored_boot h envelope root disk id).mp hid) es
  have hk : Outlasting id w.disk w' := by
    rw [show w' = runs codec w fs from Run.run_append _ _ _ _]
    exact Run.invariant (Outlasting.next codec) ⟨hid, hs, .of_same ⟨rfl, rfl⟩⟩ hfs
  obtain ⟨row, hrow⟩ := KeyMap.mem_iff_lookup.mp (hs id hid)
  obtain ⟨row', hrow', hold⟩ := hk.outlasts.row row hrow
  exact ⟨hk.registered, ⟨row, row', hrow, hrow', hold⟩, hk.outlasts.history⟩

/-- A running task is to be forgotten, and then terminated; the daemon dies in the middle of that. -/
def forgetAndCrash : List Event :=
  [.op steadyHost (.request (.forgetTask fixLogin)),
    .crash steadyHost (.request (.terminateTask fixLogin)) 3 steadyHost]

/-- It is still there. -/
theorem registered_outlasts_crash :
    let w := runs serdeJson (boot steadyHost smallHost "/memmux" (freshDisk ["/repo"]))
      createAndRestart
    let w' := runs serdeJson (boot steadyHost smallHost "/memmux" (freshDisk ["/repo"]))
      (createAndRestart ++ forgetAndCrash)
    fixLogin ∈ w'.mem.tasks ∧
      (∃ row row', w.disk.tables.tasks.rows.lookup fixLogin = some row ∧
        w'.disk.tables.tasks.rows.lookup fixLogin = some row' ∧
        row'.createdAtMs = row.createdAtMs) ∧
      w.disk.tables.loadHistory fixLogin <+: w'.disk.tables.loadHistory fixLogin := by
  refine registered_outlasts serdeJson steadyHost smallHost "/memmux" (freshDisk ["/repo"])
    createAndRestart forgetAndCrash (by decide +kernel) ⟨?_, ?_, trivial⟩
  · rintro ⟨-, hdown, -⟩
    exact hdown (by decide +kernel)
  · rintro ⟨hreq, -⟩
    cases hreq

end MemMux
