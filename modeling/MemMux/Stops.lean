/-
MemMux/Stops.lean

Who stops providers, and when.

The log has an entry for every provider that is stopped, and `stopsIn` lists those written between two
worlds: at which place of the log, and whose provider.  Three handlers stop providers, and `callsOf`
lists the calls an operation makes to them.

Main results:

* `stops_perform`: the stops of an operation are those of its calls, in order.
* `freeze_stops`: a hibernation or a recycle stops its provider right after its checkpoint is stored,
  and stops nothing else.
-/
import MemMux.Crash
import MemMux.Permanence

namespace MemMux

open Ledger

variable {codec : CheckpointCodec} {h : Host} {R : Rules} {L : Prop}

/-! ### Stops in a log -/

/-- Whose provider an effect stopped. -/
def Effect.stopped : Effect → Option String
  | .stop id _ => some id
  | _ => none

/-- The stops among effects that are written from place `n` on. -/
def stopsFrom : Nat → List Effect → List (Nat × String)
  | _, [] => []
  | n, e :: es => (e.stopped.map fun id => (n, id)).toList ++ stopsFrom (n + 1) es

/-- The stops written between two worlds. -/
def stopsIn (w w' : World) : List (Nat × String) :=
  stopsFrom w.durable.log.length (w'.durable.log.drop w.durable.log.length)

theorem stopsFrom_append (n : Nat) (es fs : List Effect) :
    stopsFrom n (es ++ fs) = stopsFrom n es ++ stopsFrom (n + es.length) fs := by
  induction es generalizing n with
  | nil => rfl
  | cons e es ih =>
      show _ ++ stopsFrom (n + 1) (es ++ fs) = (_ ++ stopsFrom (n + 1) es) ++ _
      rw [ih, List.append_assoc, List.length_cons, Nat.add_right_comm]
      rfl

theorem le_of_mem_stopsFrom {n : Nat} {es : List Effect} {s : Nat × String}
    (hs : s ∈ stopsFrom n es) : n ≤ s.1 := by
  induction es generalizing n with
  | nil => cases hs
  | cons e es ih =>
      rcases List.mem_append.mp hs with hfirst | hrest
      · obtain ⟨id, -, rfl⟩ := Option.map_eq_some_iff.mp (Option.mem_toList.mp hfirst)
        exact le_refl n
      · exact Nat.le_of_succ_le (ih hrest)

/-- No place of a log has two stops. -/
theorem stopsFrom_nodup (n : Nat) (es : List Effect) : (stopsFrom n es).Nodup := by
  induction es generalizing n with
  | nil => exact List.nodup_nil
  | cons e es ih =>
      refine List.nodup_append.mpr ⟨?_, ih _, fun s hs t ht => ?_⟩
      · cases e.stopped with
        | none => exact List.nodup_nil
        | some id => exact List.nodup_singleton _
      · obtain ⟨id, -, rfl⟩ := Option.map_eq_some_iff.mp (Option.mem_toList.mp hs)
        rintro rfl
        exact absurd (le_of_mem_stopsFrom ht) (Nat.not_succ_le_self n)

theorem stopsFrom_eq_nil {n : Nat} {es : List Effect} (hes : ∀ e ∈ es, e.stopped = none) :
    stopsFrom n es = [] := by
  induction es generalizing n with
  | nil => rfl
  | cons e es ih =>
      obtain ⟨he, hes⟩ := List.forall_mem_cons.mp hes
      show (e.stopped.map _).toList ++ stopsFrom (n + 1) es = []
      rw [he, ih hes]
      rfl

theorem mem_stopsFrom {P : String → Prop} {n : Nat} {es : List Effect}
    (hes : ∀ e ∈ es, ∀ id ∈ e.stopped, P id) : ∀ s ∈ stopsFrom n es, P s.2 := by
  induction es generalizing n with
  | nil => exact List.forall_mem_nil _
  | cons e es ih =>
      obtain ⟨he, hes⟩ := List.forall_mem_cons.mp hes
      refine List.forall_mem_append.mpr ⟨fun s hs => ?_, ih hes⟩
      obtain ⟨id, hid, rfl⟩ := Option.map_eq_some_iff.mp (Option.mem_toList.mp hs)
      exact he id hid

/-- Nothing was taken back from the log. -/
abbrev Grown : World → World → Prop := Writes fun _ => True

theorem Writes.grown {P : Effect → Prop} {w w' : World} (hw : Writes P w w') : Grown w w' := by
  obtain ⟨es, hd, -⟩ := hw
  exact ⟨es, hd, fun _ _ => trivial⟩

theorem stopsIn_writeAll {w w' : World} {es : List Effect} (hd : w'.durable = w.durable.writeAll es) :
    stopsIn w w' = stopsFrom w.durable.log.length es := by
  unfold stopsIn
  rw [hd, Journal.writeAll_log, List.drop_left]

theorem stopsIn_trans {w w' w'' : World} (h₁ : Grown w w') (h₂ : Grown w' w'') :
    stopsIn w w'' = stopsIn w w' ++ stopsIn w' w'' := by
  obtain ⟨es, hd, -⟩ := h₁
  obtain ⟨fs, hd', -⟩ := h₂
  have hboth : w''.durable = w.durable.writeAll (es ++ fs) := by
    rw [hd', hd]
    simp [Journal.writeAll]
  rw [stopsIn_writeAll hboth, stopsIn_writeAll hd, stopsIn_writeAll hd', stopsFrom_append, hd,
    Journal.writeAll_log, List.length_append]

/-- What stops no provider. -/
abbrev Calm : World → World → Prop := Writes fun e => e.stopped = none

theorem Calm.stops {w w' : World} (hc : Calm w w') : stopsIn w w' = [] := by
  obtain ⟨es, hd, hes⟩ := hc
  rw [stopsIn_writeAll hd, stopsFrom_eq_nil hes]

/-! ### Small steps -/

/-- Whose launch an effect attempted. -/
def Effect.spawned : Effect → Option String
  | .spawn id _ _ => some id
  | _ => none

/-- The rules name whom an effect stops and whom it launches. -/
structure Rules.allows (R : Rules) (e : Effect) : Prop where
  stop : ∀ id ∈ e.stopped, R.stops id
  launch : ∀ id ∈ e.spawned, R.launches id

theorem Effect.allowed_of_quiet {e : Effect} (he : e.quiet) : R.allows e := by
  cases e with
  | stop id pid => cases he
  | spawn id cwd started => cases he
  | _ => exact ⟨nofun, nofun⟩

/-- A chore stops and launches whom the rules name. -/
theorem Chore.allowed {w w' : World} {es : List Effect} (hc : Chore R w es w') :
    ∀ e ∈ es, R.allows e := by
  have hquiet {es : List Effect} (he : ∀ e ∈ es, e.quiet) : ∀ e ∈ es, R.allows e :=
    fun e hin => Effect.allowed_of_quiet (he e hin)
  cases hc with
  | quiet _ _ _ _ _ he => exact hquiet he
  | drop _ _ => exact List.forall_mem_nil _
  | install _ _ _ _ _ _ _ _ => exact List.forall_mem_nil _
  | stop hs _ _ =>
      refine List.forall_mem_singleton.mpr ⟨fun i hi => ?_, nofun⟩
      obtain rfl := Option.some.inj hi
      exact hs
  | spawn _ hf _ _ =>
      refine List.forall_mem_singleton.mpr ⟨nofun, fun i hi => ?_⟩
      obtain rfl := Option.some.inj hi
      exact hf.launch
  | capture _ _ _ _ => exact List.forall_mem_singleton.mpr ⟨nofun, nofun⟩
  | cut _ _ _ _ _ _ _ he => exact List.forall_mem_cons.mpr ⟨⟨nofun, nofun⟩, hquiet he⟩
  | added _ _ he => exact List.forall_mem_cons.mpr ⟨⟨nofun, nofun⟩, hquiet he⟩
  | release _ _ _ _ he _ =>
      intro e hin
      rcases he e hin with hq | rfl
      · exact Effect.allowed_of_quiet hq
      · exact ⟨nofun, nofun⟩

theorem Act.allowed {s s' : Phase × World} {es : List Effect} (ha : Act codec h R s es s') :
    ∀ e ∈ es, R.allows e := by
  cases ha with
  | idle hc => exact hc.allowed
  | register _ _ _ => exact List.forall_mem_nil _
  | forget _ _ _ _ _ _ _ _ => exact List.forall_mem_nil _
  | artifact _ _ he _ _ =>
      rcases he with rfl | ⟨cp, -, rfl⟩ <;> exact List.forall_mem_singleton.mpr ⟨nofun, nofun⟩
  | _ => exact List.forall_mem_singleton.mpr ⟨nofun, nofun⟩

/-- **A chain stops and launches whom the rules name.** -/
theorem chain_allowed {s s' : Phase × World} {es : List Effect}
    (hes : Chain (Act codec h R) s es s') : ∀ e ∈ es, R.allows e := by
  induction hes with
  | nil => exact List.forall_mem_nil _
  | snoc _ hlast ih => exact List.forall_mem_append.mpr ⟨ih, hlast.allowed⟩

theorem Written.writes {w w' : World} (hw : Written codec h R w w') : Writes R.allows w w' := by
  obtain ⟨es, hes⟩ := hw
  exact ⟨es, chain_durable hes, chain_allowed hes⟩

/-- The rules under which no provider is stopped. -/
def Rules.calm : Rules := ⟨fun _ _ _ => True, fun _ => True, fun _ => False, fun _ => True⟩

theorem Launch.permitted_calm (l : Launch) : l.permitted .calm h := ⟨trivial, fun _ => trivial⟩

theorem Rules.allows.calm {e : Effect} (he : Rules.calm.allows e) : e.stopped = none :=
  Option.eq_none_iff_forall_not_mem.mpr he.stop

theorem Written.calm {w w' : World} (hw : Written codec h .calm w w') : Calm w w' := by
  obtain ⟨es, hd, hes⟩ := hw.writes
  exact ⟨es, hd, fun e he => (hes e he).calm⟩

theorem Idle.calm {w w' : World} (hi : Idle .calm w w') : Calm w w' := by
  obtain ⟨es, hes⟩ := hi
  induction hes with
  | nil => exact .of_durable rfl
  | snoc _ hlast ih =>
      exact ih.trans ⟨_, hlast.durable, fun e he => (hlast.allowed e he).calm⟩

theorem Quiet.calm {w w' : World} (hq : Quiet w w') : Calm w w' :=
  let ⟨es, hes, hd⟩ := hq.writes
  ⟨es, hd, fun e he => (Effect.allowed_of_quiet (hes e he)).calm⟩

/-! ### Between the calls -/

/-- A create request writes statements only. -/
theorem writes_createTask {P : Effect → Prop} (hc : ∀ q, P (.commit q)) (hr : ∀ q, P (.refuse q))
    (req : CreateTaskRequest) (w : World) : Writes P w (createTask h req w).1 := by
  have hexec : ∀ (q : Stmt) (w : World), Writes P w (exec h q w) := fun q w =>
    writes_exec (hc q) (hr q) w
  unfold createTask
  cases parseProvider req.provider with
  | none => exact .of_durable rfl
  | some provider =>
      let w₀ : World := { w.ask with mem := { w.mem with seq := w.mem.seq + 1 } }
      have hseq : Writes P w w₀ := .of_durable rfl
      dsimp only
      generalize queuedTask _ _ = task
      have hrow : Writes P w (exec h (.upsertTask task) w₀) := hseq.trans (hexec _ w₀)
      split
      · -- it is registered in memory after its first transition, an event and a decision
        refine hrow.trans ?_
        unfold registerTask
        obtain ⟨es, hd, hes⟩ := ((hexec (.recordTransition task.spec.id (submitted task.createdAtMs))
          (exec h (.upsertTask task) w₀)).trans (hexec _ _)).trans (hexec _ _)
        exact ⟨es, hd, hes⟩
      · exact hrow

/-- Requests that call no handler that stops a provider stop none. -/
theorem calm_handle {r : Request} {w : World} (hr : callsOf codec h (.request r) w = []) :
    Calm (w.begin h) (handle codec h r (w.begin h)).1 := by
  cases r with
  | terminateTask id => cases hr
  | hibernateTask id => cases hr
  | recycleTask id => cases hr
  | createTask req => exact writes_createTask (fun _ => rfl) (fun _ => rfl) req _
  | forgetTask id => exact (@written_forget codec h .calm id _).calm
  | restartTask id => exact (@written_restart codec h .calm id _ fun l _ => l.permitted_calm).calm
  | resumeTask id => exact (@written_resume codec h .calm id _ fun l _ => l.permitted_calm).calm
  | startTask id => exact (@written_startTask codec h .calm id _ fun l _ => l.permitted_calm).calm
  | addWorkspace path => exact (quiet_addWorkspace path _).calm
  | removeWorkspace id => exact (quiet_removeWorkspace id _).calm
  | _ => exact (Quiet.refl _).calm

theorem calm_persistCheckpoint (cp : Checkpoint) (w : World) :
    Calm w (persistCheckpoint codec h cp w).1 := by
  have hask : Calm w w.ask := (quiet_ask w).calm
  unfold persistCheckpoint
  dsimp only
  split
  · exact hask
  · split
    · exact hask.trans ⟨_, rfl, List.forall_mem_singleton.mpr rfl⟩
    · generalize hw : (w.ask.ask).note
        (.writeArtifact (checkpointPath w.ask.mem.root cp.taskId) (codec.encode cp)) = w₁
      have hart : Calm w w₁ := by
        subst hw
        exact hask.trans ⟨_, rfl, List.forall_mem_singleton.mpr rfl⟩
      exact hart.trans (@writes_exec h (fun e => e.stopped = none)
        (.saveCheckpointRef (refOf w₁.mem.root cp)) rfl rfl w₁)

/-- Preserving a victim stops nobody. -/
theorem calm_preserveVictim {id : String} {task : Task} (evidence : JsonObject) {w : World}
    (hid : id ∈ w.mem.runtimes) (ht : w.mem.tasks.lookup id = some task) :
    Calm w (preserveVictim codec h id task evidence w).1 := by
  have hcap : Calm w (captureCheckpoint codec h id task (h.now w.calls) w.ask).1 :=
    (quiet_ask w).calm.trans
      (@idle_captureCheckpoint codec h .calm id task (h.now w.calls) w.ask hid ht).calm
  have hall := hcap.trans (@calm_persistCheckpoint codec h
    (captureCheckpoint codec h id task (h.now w.calls) w.ask).2 _)
  unfold preserveVictim
  dsimp only
  rcases hp : persistCheckpoint codec h (captureCheckpoint codec h id task (h.now w.calls) w.ask).2
    (captureCheckpoint codec h id task (h.now w.calls) w.ask).1 with ⟨w', e | u⟩ <;> rw [hp] at hall
  · exact Writes.trans hall (quiet_audit _ _ _ _ _).calm
  · exact Writes.trans hall ((quiet_audit _ _ _ _ _).trans (quiet_appendEvent _ _ _ _ _ _)).calm

theorem calm_actPreserveGitState (evidence : JsonObject) (w : World) :
    Calm w (actPreserveGitState codec h evidence w).1 := by
  unfold actPreserveGitState
  dsimp only
  cases hv : pickLowestPriorityVictim (runningCandidates h w) with
  | none => exact (quiet_ask w).calm
  | some id =>
      cases ht : w.ask.mem.tasks.lookup id with
      | none =>
          simp only [ht]
          exact ((quiet_ask w).trans (quiet_ask _)).calm
      | some task =>
          simp only [ht]
          exact (quiet_ask w).calm.trans
            (calm_preserveVictim evidence (@mem_runtimes_of_victim h w id hv) ht)

/-! ### Calls -/

/-- **What an operation is made of**: calls to the handlers that stop providers, and what stops
none.  Under `L` each call starts in a world whose live providers belong to running tasks. -/
inductive Stage (codec : CheckpointCodec) (h : Host) (L : Prop) :
    World → List StopCall → World → Prop
  | calm {w w'} (hc : Calm w w') : Stage codec h L w [] w'
  | call (c : StopCall) (hl : L → Live c.world.ledger) : Stage codec h L c.world [c] (c.run codec h)

/-- Stages lead from one world to the other, with these calls in order. -/
abbrev Staged (codec : CheckpointCodec) (h : Host) (L : Prop) :
    World → List StopCall → World → Prop :=
  Chain (Stage codec h L)

theorem Calm.staged {w w' : World} (hc : Calm w w') : Staged codec h L w [] w' := .single (.calm hc)

theorem StopCall.staged {c : StopCall} (hl : L → Live c.world.ledger) :
    Staged codec h L c.world [c] (c.run codec h) := .single (.call c hl)

/-- No call takes back what is in the log. -/
theorem StopCall.grown (c : StopCall) : Grown c.world (c.run codec h) := by
  obtain ⟨stopper, id, w⟩ := c
  cases stopper with
  | hibernate => exact (roster_hibernate codec h id w).writes.grown
  | recycle => exact (roster_recycle codec h id w).writes.grown
  | terminate => exact (roster_terminate h id w).writes.grown

/-- A termination stops nobody but the task it is for. -/
theorem terminate_stops {id : String} {w : World} :
    ∀ s ∈ stopsIn w (terminate h id w).1, s.2 = id := by
  obtain ⟨es, hd, hes⟩ := (@written_terminate serdeJson h ⟨fun _ _ _ => True, fun _ => True,
    fun i => i = id, fun _ => True⟩ id rfl w).writes
  rw [stopsIn_writeAll hd]
  exact mem_stopsFrom fun e he => (hes e he).stop

theorem Stage.grown {w w' : World} {cs : List StopCall} (hs : Stage codec h L w cs w') :
    Grown w w' := by
  cases hs with
  | calm hc => exact hc.grown
  | call c => exact c.grown

theorem Staged.grown {w w' : World} {cs : List StopCall} (hs : Staged codec h L w cs w') :
    Grown w w' := by
  induction hs with
  | nil => exact (Quiet.refl w).calm.grown
  | snoc _ hlast ih => exact ih.trans hlast.grown

/-- **The stops of stages are those of their calls.** -/
theorem Staged.stops {w w' : World} {cs : List StopCall} (hs : Staged codec h L w cs w') :
    stopsIn w w' = cs.flatMap fun c => stopsIn c.world (c.run codec h) := by
  induction hs with
  | nil => exact (Quiet.refl w).calm.stops
  | snoc hrest hlast ih =>
      rw [stopsIn_trans (Staged.grown hrest) hlast.grown, ih, List.flatMap_append]
      cases hlast with
      | calm hc => rw [hc.stops, List.flatMap_nil]
      | call c hl => rw [List.flatMap_singleton]

/-- Every call starts in a world whose live providers belong to running tasks. -/
theorem Staged.live {w w' : World} {cs : List StopCall} (hL : L) (hs : Staged codec h L w cs w') :
    ∀ c ∈ cs, Live c.world.ledger := by
  induction hs with
  | nil => exact List.forall_mem_nil _
  | snoc _ hlast ih =>
      refine List.forall_mem_append.mpr ⟨ih, ?_⟩
      cases hlast with
      | calm hc => exact List.forall_mem_nil _
      | call c hl => exact List.forall_mem_singleton.mpr (hl hL)

/-! ### The ladder -/

theorem actHibernateLowPriority_eq (evidence : JsonObject) (w : World) :
    actHibernateLowPriority codec h evidence w =
      match lowHibernate h evidence w with
      | none => w.ask
      | some (id, w) =>
          event h (some id) "pressure" "hibernate_low_priority" "warn" (hibernate codec h id w).1 := by
  unfold actHibernateLowPriority lowHibernate
  dsimp only
  cases List.find? _ _ <;> rfl

theorem staged_hibernateLow {evidence : JsonObject} {s : World × Option String}
    (hl : L → Live s.1.ledger) :
    Staged codec h L s.1 (actionCalls h evidence s .hibernateLowPriority)
      (actHibernateLowPriority codec h evidence s.1) := by
  rw [actHibernateLowPriority_eq]
  show Staged codec h L s.1 ((lowHibernate h evidence s.1).toList.map _) _
  cases hc : lowHibernate h evidence s.1 with
  | none => exact (quiet_ask s.1).calm.staged
  | some x =>
      obtain ⟨id, w⟩ := x
      have hstart : Quiet s.1 w ∧ w.ledger = s.1.ledger := by
        unfold lowHibernate at hc
        dsimp only at hc
        split at hc
        · cases hc
        · obtain ⟨rfl, rfl⟩ := Prod.mk.inj (Option.some.inj hc)
          exact ⟨(quiet_ask s.1).trans (quiet_audit _ _ _ _ _), rfl⟩
      have hcall := @StopCall.staged codec h L ⟨.hibernate, id, w⟩ (hstart.2 ▸ hl)
      exact (hstart.1.calm.staged.trans hcall).trans (quiet_event _ _ _ _ _).calm.staged

theorem staged_recycleBloated {evidence : JsonObject} {s : World × Option String}
    (hl : L → Live s.1.ledger) :
    Staged codec h L s.1 (actionCalls h evidence s .recycleBloatedProviders)
      (actRecycleBloated codec h evidence s.1) := by
  unfold actRecycleBloated
  show Staged codec h L s.1 ((bloatedRecycle h evidence s.1).toList.map _) _
  cases hc : bloatedRecycle h evidence s.1 with
  | none => exact (quiet_ask s.1).calm.staged
  | some x =>
      obtain ⟨id, w⟩ := x
      obtain ⟨reason, hw⟩ := bloatedRecycle_some h hc
      dsimp only at hw
      have hstart : Quiet s.1 w := by
        rw [hw]
        exact (quiet_ask s.1).trans (quiet_audit _ _ _ _ _)
      have hL : w.ledger = s.1.ledger := by
        rw [hw]
        rfl
      have hcall := @StopCall.staged codec h L ⟨.recycle, id, w⟩ (hL ▸ hl)
      exact (hstart.calm.staged.trans hcall).trans (quiet_event _ _ _ _ _).calm.staged

theorem staged_terminateVictim {id : String} {evidence : JsonObject} {w : World}
    (hl : L → Live w.ledger) :
    Staged codec h L w (actionCalls h evidence (w, some id) .terminateLowestPriorityTree)
      (actTerminateVictim h id evidence w) := by
  let w₁ := audit h (some id) "terminate_lowest_priority"
    PressureAction.terminateLowestPriorityTree.describe (some evidence) w
  have hcall := @StopCall.staged codec h L ⟨.terminate, id, w₁⟩ hl
  exact ((quiet_audit _ _ _ _ w).calm.staged.trans hcall).trans (quiet_event _ _ _ _ _).calm.staged

/-- **One action of the ladder** makes its calls, and stops nobody else. -/
theorem staged_applyAction {evidence : JsonObject} (s : World × Option String) (a : PressureAction)
    (hl : L → Live s.1.ledger) :
    Staged codec h L s.1 (actionCalls h evidence s a) (applyAction codec h evidence s a).1 := by
  have advisory : ∀ e : PressureAction, Staged codec h L s.1 []
      (event h none "pressure" "pressure_action_advisory" "info"
        (audit h none "pressure_action_advisory" e.describe (some evidence) s.1)) := fun _ =>
    ((quiet_audit _ _ _ _ _).trans (quiet_event _ _ _ _ _)).calm.staged
  cases a with
  | reclaimIdleChildren => exact (quiet_actReclaimEscaped evidence s.1).calm.staged
  | hibernateLowPriority => exact staged_hibernateLow hl
  | recycleBloatedProviders => exact staged_recycleBloated hl
  | preserveGitState =>
      exact (calm_actPreserveGitState evidence s.1).staged
  | terminateLowestPriorityTree =>
      obtain ⟨w, preserved⟩ := s
      cases preserved with
      | none => exact (Quiet.refl w).calm.staged
      | some id => exact staged_terminateVictim hl
  | blockLowPriorityStarts => exact (quiet_event _ _ _ _ _).calm.staged
  | notifyOperator =>
      exact ((quiet_audit _ _ _ _ _).trans (quiet_event _ _ _ _ _)).calm.staged
  | routineCompaction => exact advisory _
  | trimRenderCaches => exact advisory _
  | rotateBuffers => exact advisory _
  | stopIdleSharedWorkers => exact advisory _
  | reduceWorkerConcurrency => exact advisory _

theorem live_applyAction {evidence : JsonObject} (s : World × Option String) (a : PressureAction)
    (hl : Live s.1.ledger) : Live (applyAction codec h evidence s a).1.ledger := by
  have hm : AnyMoves s.1.ledger (applyAction codec h evidence s a).1.ledger :=
    applyAction_moves s.1 s.2 a hl fun _ _ _ _ => trivial
  exact hm.live hl

theorem staged_applyActions {evidence : JsonObject} (as : List PressureAction)
    (s : World × Option String) (hl : L → Live s.1.ledger) :
    Staged codec h L s.1 (stageCalls codec h evidence as s)
      (as.foldl (applyAction codec h evidence) s).1 := by
  induction as generalizing s with
  | nil => exact .nil
  | cons a as ih => exact (staged_applyAction s a hl).trans (ih _ fun l => live_applyAction s a (hl l))

/-- **A pressure tick makes its calls**, and stops nobody else. -/
theorem staged_pressureTick {now : UInt64} {w : World} (hl : L → Live w.ledger) :
    Staged codec h L w (pressureCalls codec h now w) (pressureTick codec h now w) := by
  have hi := @quiet_readPressure h now w
  have hL := World.ledger_of_books (@readPressure_books h now w)
  unfold pressureTick pressureCalls
  split
  · exact .nil
  · rcases hr : readPressure h now w with ⟨w₁, stage, evidence⟩
    rw [hr] at hi hL
    rw [← hL] at hl
    dsimp only
    split
    · exact hi.calm.staged
    · exact hi.calm.staged.trans (staged_applyActions stage.actions (w₁, none) hl)

/-! ### One operation -/

theorem staged_triggered (ts : List (String × Nat × String)) {w : World} (hl : L → Live w.ledger) :
    Staged codec h L w ((triggered codec h ts w).map fun x => ⟨.recycle, x.1, x.2⟩)
      (ts.foldl (triggerRecycle codec h) w) := by
  induction ts generalizing w with
  | nil => exact .nil
  | cons t ts ih =>
      have hann : Quiet w (announceTrigger h w t) := quiet_audit _ _ _ _ _
      have hcall := @StopCall.staged codec h L ⟨.recycle, t.1, announceTrigger h w t⟩ hl
      have hm (l : L) : AnyMoves w.ledger (triggerRecycle codec h w t).ledger :=
        @recycle_moves codec h _ _ t.1 (announceTrigger h w t) (hl l) fun _ => trivial
      exact (hann.calm.staged.trans hcall).trans (ih fun l => (hm l).live (hl l))

theorem staged_checkRecycleTriggers {now : UInt64} {w : World} (hl : L → Live w.ledger) :
    Staged codec h L w ((thresholdRecycles codec h now w).map fun x => ⟨.recycle, x.1, x.2⟩)
      (checkRecycleTriggers codec h now w) := by
  have hmeasured : Quiet w (measureProviders h now w).1 := .of_mem rfl rfl rfl rfl rfl
  unfold checkRecycleTriggers thresholdRecycles
  split
  · exact .nil
  · exact hmeasured.calm.staged.trans
      (@staged_triggered codec h L _ (measureProviders h now w).1 hl)

/-- Before the ladder and the triggers the pump ends tasks at most. -/
theorem live_sampled {now : UInt64} {w : World} (hl : Live w.ledger) :
    Live (sampleTick h now (retireExited h now w)).ledger := by
  have hm : AnyMoves w.ledger (retireExited h now w).ledger := retireExited_moves now w
  rw [World.ledger_of_books (sampleTick_books now _)]
  exact hm.live hl

theorem staged_pump {now : UInt64} {w : World} (hl : L → Live w.ledger) :
    Staged codec h L w (pumpCalls codec h now w) (pump codec h now w) := by
  have hfirst : Calm w (sampleTick h now (retireExited h now w)) :=
    (@written_retireExited codec h .calm now w).calm.trans (quiet_sampleTick now _).calm
  have hl₁ : L → Live (sampleTick h now (retireExited h now w)).ledger := fun l =>
    live_sampled (hl l)
  unfold pumpCalls
  show Staged codec h L w _ (tryAdmitPending h now (checkRecycleTriggers codec h now
    (pressureTick codec h now (sampleTick h now (retireExited h now w)))))
  dsimp only
  generalize sampleTick h now (retireExited h now w) = w₁ at hfirst hl₁ ⊢
  have hm (l : L) : AnyMoves w₁.ledger (pressureTick codec h now w₁).ledger :=
    pressureTick_moves (hl₁ l) fun _ _ _ => trivial
  have hpass := (@written_tryAdmitPending codec h .calm now (checkRecycleTriggers codec h now
    (pressureTick codec h now w₁)) fun l _ => l.permitted_calm).calm
  have hcalls := (@staged_pressureTick codec h L now w₁ hl₁).trans
    (@staged_checkRecycleTriggers codec h L now _ fun l => (hm l).live (hl₁ l))
  have hall := (hfirst.staged.trans hcalls).trans hpass.staged
  rwa [List.append_nil] at hall

/-- **An operation makes its calls**, and stops nobody else. -/
theorem staged_perform {i : Input} {w : World} :
    Staged codec h (Live w.ledger) w (callsOf codec h i w) (perform codec h i w) := by
  have hbegin : Staged codec h (Live w.ledger) w [] (w.begin h) := (quiet_begin w).calm.staged
  refine hbegin.trans ?_
  cases i with
  | tick =>
      have hask : Staged codec h (Live w.ledger) (w.begin h) [] (w.begin h).ask := (quiet_ask _).calm.staged
      exact hask.trans (@staged_pump codec h _ (h.now 0) (w.begin h).ask id)
  | request r =>
      cases r with
      | terminateTask id => exact @StopCall.staged codec h _ ⟨.terminate, id, w.begin h⟩ fun hl => hl
      | hibernateTask id => exact @StopCall.staged codec h _ ⟨.hibernate, id, w.begin h⟩ fun hl => hl
      | recycleTask id => exact @StopCall.staged codec h _ ⟨.recycle, id, w.begin h⟩ fun hl => hl
      | _ => exact (calm_handle rfl).staged

/-- **The stops of an operation are those of its calls**, in order. -/
theorem stops_perform (i : Input) (w : World) :
    stopsIn w (perform codec h i w)
      = (callsOf codec h i w).flatMap fun c => stopsIn c.world (c.run codec h) :=
  staged_perform.stops

/-- Two calls of an operation do not share a stop. -/
theorem call_unique {i : Input} {w : World} {c d : StopCall}
    (hc : c ∈ callsOf codec h i w) (hd : d ∈ callsOf codec h i w) {s : Nat × String}
    (hs : s ∈ stopsIn c.world (c.run codec h)) (ht : s ∈ stopsIn d.world (d.run codec h)) : c = d := by
  have hnodup : (stopsIn w (perform codec h i w)).Nodup := stopsFrom_nodup _ _
  rw [stops_perform] at hnodup
  by_contra hne
  obtain ⟨-, hpair⟩ := List.nodup_flatMap.mp hnodup
  have : Std.Symm (Function.onFun List.Disjoint fun c : StopCall =>
      stopsIn c.world (c.run codec h)) := ⟨fun _ _ hdis => hdis.symm⟩
  exact hpair.forall hc hd hne hs ht

/-! ### Hibernations and recycles -/

/-- A checkpoint captured after `n` calls can be stored: its directory is made, its artifact is
written and its reference commits. -/
def Storable (h : Host) (n : Nat) : Prop :=
  h.makeDir (n + 3) = true ∧ h.writeFile (n + 4) = true ∧ h.commit (n + 5) = true

instance (h : Host) (n : Nat) : Decidable (Storable h n) :=
  inferInstanceAs (Decidable (_ ∧ _ ∧ _))

/-- The recorded state of a task with a live provider is one the gate lets through. -/
theorem assess_running {t : Task} (ht : Running t.state) : assess (activity t) = .ready := by
  rcases ht with ht | ht <;> simp [assess, activity, ht]

theorem persistCheckpoint_stores {cp : Checkpoint} {w : World} {n : Nat} (hn : w.calls = n + 3) :
    (Storable h n ∧ ∃ w', persistCheckpoint codec h cp w = (w', .ok ()) ∧ w'.calls = n + 6) ∨
      (¬ Storable h n ∧ ∃ w' e, persistCheckpoint codec h cp w = (w', .error e)) := by
  unfold Storable persistCheckpoint executes
  dsimp only [World.ask, World.note]
  simp only [hn, Nat.add_assoc, Nat.reduceAdd]
  cases h.makeDir (n + 3) with
  | false => exact Or.inr ⟨nofun, _, _, rfl⟩
  | true =>
      cases h.writeFile (n + 4) with
      | false => exact Or.inr ⟨nofun, _, _, rfl⟩
      | true =>
          cases h.commit (n + 5) with
          | false => exact Or.inr ⟨nofun, _, _, rfl⟩
          | true => exact Or.inl ⟨⟨rfl, rfl, rfl⟩, _, rfl, rfl⟩

/-- **The gate never refuses a live provider**: what it is shown is a state it lets through. -/
theorem checkpointLive_stops {verb failed id : String} {now : UInt64} {w : World}
    (hl : Live w.ledger) :
    (id ∈ w.mem.runtimes ∧ Storable h w.calls ∧
        ∃ w' p, checkpointLive codec h verb failed id now w = (w', .ok p) ∧
          w'.calls = w.calls + 6) ∨
      (¬ (id ∈ w.mem.runtimes ∧ Storable h w.calls) ∧
        ∃ w' r, checkpointLive codec h verb failed id now w = (w', .error r)) := by
  unfold checkpointLive
  split
  · next hid => exact Or.inr ⟨fun hin => hid hin.1, _, _, rfl⟩
  · next hid =>
    obtain ⟨t, ht, hrun⟩ := hl id (not_not.mp hid)
    have ht' : w.mem.tasks.lookup id = some t := ht
    rw [ht']
    dsimp only
    rw [assess_running hrun]
    have hcalls : (captureCheckpoint codec h id t now w).1.calls = w.calls + 3 := rfl
    obtain ⟨hst, w', hp, hc⟩ | ⟨hst, w', e, hp⟩ := @persistCheckpoint_stores codec h
      (captureCheckpoint codec h id t now w).2 _ w.calls hcalls
    · refine Or.inl ⟨not_not.mp hid, hst, w', (t, (captureCheckpoint codec h id t now w).2), ?_, hc⟩
      dsimp only
      rw [hp]
    · refine Or.inr ⟨fun hin => hst hin.2, w', .error (failed ++ e), ?_⟩
      dsimp only
      rw [hp]

/-- What is written when a checkpoint is stored. -/
theorem checkpointLive_durable {verb failed id : String} {now : UInt64} {w w' : World} {task : Task}
    {cp : Checkpoint} (hc : checkpointLive codec h verb failed id now w = (w', .ok (task, cp))) :
    w'.durable = w.durable.writeAll [.capture id (captureDir id task w.mem),
      .writeArtifact (checkpointPath w.mem.root cp.taskId) (codec.encode cp),
      .commit (.saveCheckpointRef (refOf w.mem.root cp))] := by
  obtain ⟨-, -, -, -, hp⟩ := checkpointLive_ok codec h hc
  refine (persistCheckpoint_ok hp).trans ?_
  show (w.durable.writeAll [.capture id (captureDir id task w.mem)]).writeAll _ = _
  simp [Journal.writeAll, captureCheckpoint]

/-- A provider that is taken down is stopped by the first effect. -/
theorem shutdown_stops {id : String} {w : World} (hid : id ∈ w.mem.runtimes) :
    Grown w (shutdownRuntime h id w).1 ∧
      stopsIn w (shutdownRuntime h id w).1 = [(w.durable.log.length, id)] := by
  obtain ⟨rt, hrt⟩ := KeyMap.mem_iff_lookup.mp hid
  have hrest := (@idle_stopped h .calm id rt w hrt).calm
  have hd : (stopRuntime h id rt (w.dropped id)).durable
      = w.durable.writeAll [.stop id (rt.pid.map asI32)] := rfl
  have hgrown : Grown w (stopRuntime h id rt (w.dropped id)) := ⟨_, hd, fun _ _ => trivial⟩
  refine ⟨hgrown.trans hrest.grown, ?_⟩
  rw [stopsIn_trans hgrown hrest.grown, hrest.stops, stopsIn_writeAll hd]
  rfl

/-- A provider that is taken down after three entries of the log, and nothing else, is stopped by the
fourth. -/
theorem stopsIn_frozen {id : String} {w w₁ w₂ : World} {a b c : Effect}
    (hd : w₁.durable = w.durable.writeAll [a, b, c]) (habc : ∀ e ∈ [a, b, c], e.stopped = none)
    (hid : id ∈ w₁.mem.runtimes) (hrest : Calm (shutdownRuntime h id w₁).1 w₂) :
    stopsIn w w₂ = [(w.durable.log.length + 3, id)] := by
  have hfirst : Calm w w₁ := ⟨_, hd, habc⟩
  obtain ⟨hgrown, hstops⟩ := @shutdown_stops h id w₁ hid
  rw [stopsIn_trans hfirst.grown (hgrown.trans hrest.grown), stopsIn_trans hgrown hrest.grown,
    hfirst.stops, hstops, hrest.stops, hd, Journal.writeAll_log, List.length_append]
  rfl

theorem hibernate_stops {id : String} {w : World} (hl : Live w.ledger) :
    stopsIn w (hibernate codec h id w).1
      = if id ∈ w.mem.runtimes ∧ Storable h (w.calls + 1) then [(w.durable.log.length + 3, id)]
        else [] := by
  obtain ⟨hw, hload⟩ := @written_checkpointLive codec h .calm "hibernate" "checkpoint failed: " id
    (h.now w.calls) w.ask hl
  have hstops := @checkpointLive_stops codec h "hibernate" "checkpoint failed: " id (h.now w.calls)
    w.ask hl
  rcases hibernate_cases codec h w id with ⟨w', r, hc, -, heq⟩ | ⟨w', task, cp, hc, hmem, heq⟩
  · rw [hc] at hw hstops
    obtain ⟨-, -, u, p, hu, -⟩ | ⟨hn, -⟩ := hstops
    · cases hu
    · have hnot : ¬ (id ∈ w.mem.runtimes ∧ Storable h (w.calls + 1)) := hn
      rw [heq, if_neg hnot]
      exact Calm.stops ((quiet_ask w).calm.trans hw.calm)
  · rw [hc] at hload hstops
    obtain ⟨hid, hst, -⟩ | ⟨-, u, r, hu⟩ := hstops
    · obtain ⟨-, ht, -⟩ := checkpointLive_ok codec h hc
      have hin : id ∈ w'.mem.tasks := by
        rw [hmem]
        exact KeyMap.mem_iff_lookup.mpr ⟨task, ht⟩
      have hshut := @idle_shutdownRuntime h .any id trivial w'
      have hrest := (@written_frozen codec h .calm id cp (h.now w.calls) w' (mem_idle hshut hin)
        (hshut.loads (hload _ rfl))).calm
      have hd := checkpointLive_durable hc
      rw [heq, if_pos ⟨hid, hst⟩]
      exact stopsIn_frozen (w := w) hd (by simp [Effect.stopped]) (hmem ▸ hid) hrest
    · cases hu

theorem recycle_stops {id : String} {w : World} (hl : Live w.ledger) :
    stopsIn w (recycle codec h id w).1
      = if id ∈ w.mem.runtimes ∧ Storable h (w.calls + 2) then [(w.durable.log.length + 3, id)]
        else [] := by
  obtain ⟨hw, -⟩ := @written_checkpointLive codec h .calm "recycle" "recycle checkpoint failed: " id
    (h.now w.calls) w.ask.ask hl
  have hstops := @checkpointLive_stops codec h "recycle" "recycle checkpoint failed: " id
    (h.now w.calls) w.ask.ask hl
  rcases recycle_cases codec h w id with ⟨w', r, hc, -, heq⟩ | ⟨w', task, cp, hc, hmem, hcases⟩
  · rw [hc] at hw hstops
    obtain ⟨-, -, u, p, hu, -⟩ | ⟨hn, -⟩ := hstops
    · cases hu
    · have hnot : ¬ (id ∈ w.mem.runtimes ∧ Storable h (w.calls + 2)) := hn
      rw [heq, if_neg hnot]
      exact Calm.stops (((quiet_ask w).trans (quiet_ask _)).calm.trans hw.calm)
  · rw [hc] at hstops
    obtain ⟨hid, hst, -⟩ | ⟨-, u, r, hu⟩ := hstops
    · obtain ⟨-, ht, -⟩ := checkpointLive_ok codec h hc
      have hshut := @idle_shutdownRuntime h .any id trivial w'
      have ht' : (shutdownRuntime h id w').1.mem.tasks.lookup id = some task := by
        rw [hshut.tasks, hmem]
        exact ht
      obtain ⟨hre, hin⟩ := @written_relaunched codec h .calm id task cp (h.now w.calls) w' ht'
        (Launch.permitted_calm _)
      -- whether the relaunch succeeds or is rolled back, it stops nobody
      have hrest : Calm (shutdownRuntime h id w').1 (recycle codec h id w).1 := by
        rcases hcases with ⟨w₂, cleanup, e, hr, heq⟩ | ⟨w₂, cleanup, o, hr, heq⟩
        · rw [hr] at hre hin
          rw [heq]
          exact (hre.trans (written_rollBack e _ hin)).calm
        · rw [hr] at hre hin
          rw [heq]
          obtain ⟨u, hu⟩ := KeyMap.mem_iff_lookup.mp hin
          exact (hre.trans (written_finishRecycle cp _ cleanup o _ hu)).calm
      have hd := checkpointLive_durable hc
      rw [if_pos ⟨hid, hst⟩]
      exact stopsIn_frozen (w := w) hd (by simp [Effect.stopped]) (hmem ▸ hid) hrest
    · cases hu

/-- The number of calls made when a hibernation or a recycle begins its checkpoint: a recycle measures
its provider first. -/
def StopCall.asked (c : StopCall) : Nat :=
  c.world.calls + if c.stopper = .recycle then 2 else 1

/-- The place in the log that follows the checkpoint. -/
def StopCall.stored (c : StopCall) : Nat := c.world.durable.log.length + 3

/-- **A hibernation or a recycle stops its provider right after the checkpoint**, if there is a provider
and the checkpoint can be stored, and stops nothing else. -/
theorem freeze_stops {c : StopCall} (hc : c.stopper ≠ .terminate) (hl : Live c.world.ledger) :
    stopsIn c.world (c.run codec h)
      = if c.id ∈ c.world.mem.runtimes ∧ Storable h c.asked then [(c.stored, c.id)] else [] := by
  obtain ⟨stopper, id, w⟩ := c
  cases stopper with
  | hibernate => exact hibernate_stops hl
  | recycle => exact recycle_stops hl
  | terminate => exact absurd rfl hc

/-! ### Recycles -/

theorem mem_stageCalls {evidence : JsonObject} {as : List PressureAction} {s : World × Option String}
    {x : String × World} (hx : x ∈ stageRecycles codec h evidence as s) :
    ⟨.recycle, x.1, x.2⟩ ∈ stageCalls codec h evidence as s := by
  induction as generalizing s with
  | nil => cases hx
  | cons a as ih =>
      rcases List.mem_append.mp hx with hfirst | hrest
      · refine List.mem_append_left _ ?_
        split at hfirst
        · next ha =>
          rw [ha]
          exact List.mem_map.mpr ⟨x, hfirst, rfl⟩
        · cases hfirst
      · exact List.mem_append_right _ (ih hrest)

/-- The recycles of an operation are among its calls. -/
theorem mem_callsOf {i : Input} {w : World} {x : String × World} (hx : x ∈ recyclesOf codec h i w) :
    ⟨.recycle, x.1, x.2⟩ ∈ callsOf codec h i w := by
  cases i with
  | tick =>
      rcases List.mem_append.mp hx with hpress | hthresh
      · refine List.mem_append_left _ ?_
        unfold pressureRecycles at hpress
        unfold pressureCalls
        split at hpress
        · cases hpress
        · next hnow =>
          rw [if_neg hnow]
          dsimp only at hpress ⊢
          split at hpress
          · cases hpress
          · next hst =>
            rw [if_neg hst]
            exact mem_stageCalls hpress
      · exact List.mem_append_right _ (List.mem_map.mpr ⟨x, hthresh, rfl⟩)
  | request r =>
      cases r with
      | recycleTask id =>
          obtain rfl := List.mem_singleton.mp hx
          exact List.mem_singleton.mpr rfl
      | _ => cases hx

/-- **Every recycle starts in a world whose live providers belong to running tasks.** -/
theorem live_recyclesOf {i : Input} {w : World} (hl : Live w.ledger) :
    ∀ x ∈ recyclesOf codec h i w, Live x.2.ledger := fun _ hx =>
  staged_perform.live hl _ (mem_callsOf hx)

end MemMux
