/-
MemMux/TrailKeeps.lean

What the daemon does without a word in its record: transitions and saves, sweeps of processes,
checkpoints, samples, and all that a handler prepares before it tells the outcome.  None of it is an
entry of the `Trail`, and none of it cuts a worktree or changes the pressure (`Keeps`).
-/
import MemMux.Trail

namespace MemMux.Trail

section Operations

variable (codec : CheckpointCodec) (h : Host)

/-- A statement that is no entry of the trail may commit or be refused. -/
theorem keeps_exec (q : Stmt) (hq : entry (.commit q) = none) (w : World) :
    Keeps w (exec h q w) :=
  ⟨rfl, rfl, @writes_exec h (fun e => entry e = none) q hq rfl w⟩

/-- An event that tells nothing of a provider may be recorded. -/
theorem keeps_appendEvent {id : Option String} {c t s : String} {p : Option JsonObject}
    (hq : ofEvent id t = none) (w : World) : Keeps w (appendEvent h id c t s p w) :=
  keeps_exec h (.appendEvent ⟨id, h.now w.calls, c, t, s, "daemon", p⟩) hq w

theorem keeps_event {id : Option String} {c t s : String}
    (hq : ofEvent id t = none) (w : World) : Keeps w (event h id c t s w) :=
  keeps_appendEvent h hq w

/-- So may a decision that tells nothing of a provider or a worktree. -/
theorem keeps_audit {id : Option String} {a r : String} {e : Option JsonObject}
    (hq : ofDecision id a e = none) (w : World) : Keeps w (audit h id a r e w) :=
  keeps_exec h (.recordDecision ⟨id, h.now w.calls, a, r, e⟩) hq w

/-- Transitions are recorded in a table of their own. -/
theorem keeps_advance (id : String) (next : TaskState) (reason : String) (now : UInt64)
    (w : World) : Keeps w (advance h id next reason now w) := by
  refine ⟨rfl, rfl, ?_⟩
  unfold advance
  cases stepTask id next reason now w.mem.tasks with
  | none => exact .of_durable rfl
  | some r =>
      refine ⟨[_], rfl, fun e he => ?_⟩
      rw [List.mem_singleton.mp he]
      split <;> rfl

theorem keeps_save (id : String) (w : World) : Keeps w (saveTask h id w) := by
  refine ⟨rfl, rfl, ?_⟩
  unfold saveTask
  cases w.mem.tasks.lookup id with
  | none => exact .of_durable rfl
  | some t =>
      refine ⟨[_], rfl, fun e he => ?_⟩
      rw [List.mem_singleton.mp he]
      split <;> rfl

theorem keeps_move (id : String) (next : TaskState) (reason : String) (now : UInt64) (w : World) :
    Keeps w (saveTask h id (advance h id next reason now w)) :=
  (keeps_advance h id next reason now w).trans (keeps_save h id _)

/-! ### Processes -/

/-- Signals leave the log and the records alone. -/
theorem keeps_signalAll (kill : Bool) (pids : List Pid) (w : World) :
    Keeps w (signalAll h kill pids w) := by
  refine ⟨rfl, rfl, pids.map (.signal · kill), rfl, fun e he => ?_⟩
  obtain ⟨p, -, rfl⟩ := List.mem_map.mp he
  rfl

theorem keeps_terminatePids (pids : List Pid) (w : World) :
    Keeps w (terminatePids h pids w).1 := by
  unfold terminatePids
  generalize ((pids.filter (1 < ·)).dedup).insertionSort (· ≤ ·) = targeted
  dsimp only
  split
  · exact .refl w
  · have hterm := (keeps_signalAll h false targeted.reverse w).trans (keeps_ask _)
    split
    · exact hterm
    · split
      · exact hterm
      · -- both ways of the second snapshot end after the second sweep
        have hkill := fun survivors =>
          hterm.trans ((keeps_signalAll h true survivors _).trans (keeps_ask _))
        split <;> exact hkill _

theorem keeps_terminateSubtree (root : Pid) (w : World) :
    Keeps w (terminateSubtree h root w).1 := by
  unfold terminateSubtree
  split
  · exact .refl w
  · split
    · exact keeps_ask w
    · exact (keeps_ask w).trans (keeps_terminatePids h _ _)

/-- A stop is an effect, and no entry: it is told by whoever asked for it. -/
theorem keeps_stopAndFlush (id : String) (rt : RuntimeInstance) (w : World) :
    Keeps w (stopAndFlush h id rt w) := by
  have hdrop : Keeps w { w with mem := { w.mem with runtimes := w.mem.runtimes.erase id } } :=
    .of_mem rfl rfl rfl
  have hstop : ∀ w, Keeps w (stopRuntime h id rt w) := fun w => .of_write rfl rfl rfl
  exact (hdrop.trans (hstop _)).trans (.of_mem rfl rfl rfl)

theorem keeps_stopLive (id : String) (w : World) : Keeps w (stopLive h id w) := by
  unfold stopLive
  cases w.mem.runtimes.lookup id with
  | none => exact .refl w
  | some rt => exact keeps_stopAndFlush h id rt w

/-- The runtime is gone from memory before the stop, so nothing is left to tell. -/
theorem keeps_shutdownRuntime (id : String) (w : World) : Keeps w (shutdownRuntime h id w).1 := by
  unfold shutdownRuntime
  cases w.mem.runtimes.lookup id with
  | none => exact .refl w
  | some rt =>
      have hstop := keeps_stopAndFlush h id rt w
      dsimp only
      cases rt.pid.map asI32 with
      | none => exact hstop
      | some root => exact hstop.trans (keeps_terminateSubtree h root _)

/-- A sweep changes nothing in memory. -/
theorem reapSweep_mem (id : String) (targets : List Pid) (w : World) :
    (reapSweep h id targets w).mem = w.mem := by
  have hsweep := terminatePids_mem h w targets
  unfold reapSweep
  rcases ht : terminatePids h targets w with ⟨w', r | r⟩ <;>
  · rw [ht] at hsweep
    exact hsweep

theorem keeps_reapSweep (id : String) (targets : List Pid) (w : World) :
    Keeps w (reapSweep h id targets w) := by
  have hsweep := keeps_terminatePids h targets w
  unfold reapSweep
  rcases ht : terminatePids h targets w with ⟨w', r | r⟩ <;> rw [ht] at hsweep
  · exact hsweep.trans (keeps_audit h rfl _)
  · exact hsweep.trans ((keeps_event h rfl _).trans (keeps_audit h rfl _))

theorem keeps_reapTaskProcesses (id : String) (rootPid : Option Nat) (w : World) :
    Keeps w (reapTaskProcesses h id rootPid w) := by
  unfold reapTaskProcesses
  dsimp only
  split
  · exact (keeps_ask w).trans (.of_mem rfl rfl rfl)
  · have hmem := reapSweep_mem h id (reapTargets h id rootPid w) w.ask
    refine ((keeps_ask w).trans (keeps_reapSweep h id _ _)).trans (.of_mem ?_ ?_ rfl) <;>
    · rw [hmem]
      rfl

/-! ### Worktrees -/

/-- What git is asked for is no entry. -/
theorem keeps_removeWorktree (handle : WorktreeHandle) (w : World) :
    Keeps w (removeWorktree h handle w) := by
  have hask : Keeps w (askStatus h handle.path w) := .of_write rfl rfl rfl
  unfold removeWorktree
  cases statusOf h w handle.path with
  | none => exact hask
  | some status =>
      dsimp only
      split
      · exact hask
      · split
        · exact hask.trans (.of_write rfl rfl rfl)
        · exact hask.trans (keeps_ask _)

theorem keeps_dirtyManifest (handle : WorktreeHandle) (w : World) :
    Keeps w (dirtyManifest h handle w).1 := by
  have hask : Keeps w (askStatus h handle.path w) := .of_write rfl rfl rfl
  unfold dirtyManifest
  cases statusOf h w handle.path with
  | none => exact hask
  | some status => exact hask.trans (keeps_ask _)

/-- A worktree is told once the daemon holds it. -/
theorem keeps_createWorktree (id : String) (task : Task) (w : World) :
    Keeps w (createWorktree h id task w).1 := by
  unfold createWorktree
  dsimp only
  split
  · exact .refl w
  · split
    · exact keeps_ask w
    · have hask : Keeps w w.ask.ask := (keeps_ask w).trans (keeps_ask _)
      split_ifs
      · exact hask
      · exact hask
      · exact hask.trans (.of_write rfl rfl rfl)
      · exact hask

/-- A launch is told when the runtime is installed. -/
theorem told_beginLaunch {up up' : Set String} (id : String) (now : UInt64) {w w' : World}
    (ht : Told up up' w w') : Told up up' w (beginLaunch h id now w') :=
  ht.keeps ((keeps_advance h id .admitting _ now w').trans (keeps_advance h id .starting _ now _))

/-- A launch that failed is a transition, and a decision that tells nothing. -/
theorem keeps_launchFailed (id e : String) (now : UInt64) (w : World) :
    Keeps w (launchFailed h id e now w) :=
  (keeps_move h id .failed "launch failed" now w).trans (keeps_audit h rfl _)

theorem keeps_forceRequeue (id : String) (now : UInt64) (n : Nat) (w : World) :
    Keeps w (forceRequeue h id now n w) := by
  induction n generalizing w with
  | zero => exact .refl w
  | succ n ih =>
      unfold forceRequeue
      cases w.mem.tasks.lookup id with
      | none => exact .refl w
      | some task =>
          dsimp only
          split
          · exact .refl w
          · cases requeueNext task.state with
            | none => exact .refl w
            | some s => exact (keeps_advance h id s _ now w).trans (ih _)

theorem keeps_drive (id : String) (now : UInt64) (w : World) : Keeps w (drive h id now w) := by
  unfold drive
  refine Keeps.trans ?_ (keeps_advance h id .terminated "torn down" now _)
  cases w.mem.tasks.lookup id with
  | none => exact .refl w
  | some task =>
      dsimp only
      split
      · exact keeps_advance h id .terminating "operator terminate" now w
      · exact .refl w

/-- The end of a task is a transition; that its provider is gone was told before. -/
theorem keeps_retireTask (id : String) (now : UInt64) (w : World) :
    Keeps w (retireTask h id now w) := by
  unfold retireTask
  cases w.mem.tasks.lookup id with
  | none => exact .refl w
  | some task =>
      dsimp only
      split
      · exact .refl w
      · exact (keeps_advance h id .terminating "provider exited" now w).trans
          (keeps_move h id .terminated "provider exited" now _)

theorem keeps_releaseReservation (id : String) (w : World) : Keeps w (releaseReservation id w) :=
  .of_mem rfl rfl rfl

/-- A deferral is a decision about a task that is not running. -/
theorem follows_deferOne (w : World) (d : String × String) : Follows w (deferOne h w d) := by
  have hquiet : Quiet w (deferOne h w d) := quiet_deferOne w d
  refine Keeps.follows ?_ hquiet.runtimes
  unfold deferOne
  dsimp only
  split
  · exact ((keeps_audit h rfl w).trans (keeps_event h rfl _)).trans
      (.of_mem rfl rfl rfl)
  · exact .of_mem rfl rfl rfl

theorem keeps_drainRuntimes (ids : List String) (w : World) :
    Keeps w (drainRuntimes h ids w).1 := by
  induction ids generalizing w with
  | nil => exact .refl w
  | cons id ids ih =>
      have hflush : Keeps w (flushHistory h id w) := .of_mem rfl rfl rfl
      exact (hflush.trans (keeps_ask _)).trans (ih _)

theorem keeps_captureCheckpoint (id : String) (task : Task) (now : UInt64) (w : World) :
    Keeps w (captureCheckpoint codec h id task now w).1 :=
  .of_write rfl rfl rfl

/-- Checkpoints have a table of their own, whether the reference commits or not. -/
theorem keeps_persistCheckpoint (cp : Checkpoint) (w : World) :
    Keeps w (persistCheckpoint codec h cp w).1 := by
  unfold persistCheckpoint
  dsimp only
  split
  · exact keeps_ask w
  · split
    · exact (keeps_ask w).trans (.of_write rfl rfl rfl)
    · generalize hw : (w.ask.ask).note
        (.writeArtifact (checkpointPath w.ask.mem.root cp.taskId) (codec.encode cp)) = w₁
      have hart : Keeps w w₁ := by
        subst hw
        exact ((keeps_ask w).trans (keeps_ask _)).trans (.of_write rfl rfl rfl)
      exact hart.trans (keeps_exec h (.saveCheckpointRef _) rfl w₁)

/-- A checkpoint that is captured and persisted. -/
theorem keeps_checkpoint (id : String) (task : Task) (now : UInt64) (w : World) :
    Keeps w (persistCheckpoint codec h (captureCheckpoint codec h id task now w).2
      (captureCheckpoint codec h id task now w).1).1 :=
  (keeps_captureCheckpoint codec h id task now w).trans (keeps_persistCheckpoint codec h _ _)

/-- A checkpoint tells nothing, however it ends: the provider is still there. -/
theorem keeps_checkpointLive (verb failed id : String) (now : UInt64)
    (hv : actions.lookup (verb ++ "_deferred") = none) (w : World) :
    Keeps w (checkpointLive codec h verb failed id now w).1 := by
  unfold checkpointLive
  split
  · exact .refl w
  · cases w.mem.tasks.lookup id with
    | none => exact .refl w
    | some task =>
        dsimp only
        cases assess (activity task) with
        | wait reason =>
            refine keeps_audit h ?_ w
            show (actions.lookup (verb ++ "_deferred")).map (· id) = none
            rw [hv]
            rfl
        | ready =>
            have hpers := keeps_checkpoint codec h id task now w
            dsimp only
            rcases hp : persistCheckpoint codec h (captureCheckpoint codec h id task now w).2
              (captureCheckpoint codec h id task now w).1 with ⟨w', e | u⟩ <;>
            · rw [hp] at hpers
              exact hpers

theorem keeps_wakeUp (id r₁ r₂ : String) (now : UInt64) (w : World) :
    Keeps w (wakeUp h id r₁ r₂ now w) :=
  (keeps_advance h id .resuming r₁ now w).trans (keeps_move h id .active r₂ now _)

theorem keeps_installRuntime (id : String) (rt : RuntimeInstance) (w : World) :
    Keeps w (installRuntime h id rt w) :=
  .of_mem rfl rfl rfl

theorem keeps_installRelaunched (id : String) (mode : ResumeMode) (rt : RuntimeInstance)
    (started : UInt64) (w : World) : Keeps w (installRelaunched h id mode rt started w).1 := by
  unfold installRelaunched
  split
  · exact keeps_ask w
  · exact ((keeps_ask w).trans (keeps_ask _)).trans (keeps_installRuntime h id rt _)

/-- A spawn is no entry: it is told once the provider is installed. -/
theorem keeps_spawnPty (id : String) (provider : Provider) (pty : PtySpec) (w : World) :
    Keeps w (spawnPty h id provider pty w).1 :=
  .of_write rfl rfl rfl

theorem keeps_relaunchFallback (id : String) (task : Task) (spec : LaunchSpec) (e : String)
    (started : UInt64) (w : World) : Keeps w (relaunchFallback h id task spec e started w).1 := by
  have hspawn := keeps_spawnPty h id task.spec.provider (task.spec.provider.command spec) w
  unfold relaunchFallback
  rcases hs : spawnPty h id task.spec.provider (task.spec.provider.command spec) w
    with ⟨w₁, e' | rt⟩ <;> rw [hs] at hspawn
  · exact hspawn
  · exact (Keeps.trans hspawn (keeps_ask w₁)).trans (keeps_installRuntime h id rt _)

/-- A relaunch is told by the operation that asked for it. -/
theorem keeps_relaunch (id : String) (task : Task) (cp : Checkpoint) (w : World) :
    Keeps w (relaunchFromCheckpoint h id task cp w).1 := by
  unfold relaunchFromCheckpoint
  dsimp only
  generalize relaunchPty _ _ _ _ = pty
  have hspawn := (keeps_ask w).trans (keeps_spawnPty h id task.spec.provider pty w.ask)
  rcases hs : spawnPty h id task.spec.provider pty w.ask with ⟨w₁, e | rt⟩ <;> rw [hs] at hspawn
  · dsimp only
    split
    · exact Keeps.trans hspawn (keeps_relaunchFallback h id task _ e _ w₁)
    · exact hspawn
  · exact Keeps.trans hspawn (keeps_installRelaunched h id _ rt _ w₁)

theorem keeps_relaunchLive (id : String) (task : Task) (cp : Checkpoint) (now : UInt64)
    (w : World) : Keeps w (relaunchLive h id task cp now w).1 := by
  have hshut := keeps_shutdownRuntime h id w
  unfold relaunchLive
  dsimp only
  exact (hshut.trans (keeps_move h id .recycling "recycling provider" now _)).trans
    (keeps_relaunch h id task cp _)

/-- The old provider is gone; the new one is installed, if it came up. -/
theorem relaunchLive_runtimes (id : String) (task : Task) (cp : Checkpoint) (now : UInt64)
    (w : World) :
    (∃ o rt, (relaunchLive h id task cp now w).2.2 = .ok o ∧
        (relaunchLive h id task cp now w).1.mem.runtimes
          = (w.mem.runtimes.erase id).insert id rt) ∨
      (∃ e, (relaunchLive h id task cp now w).2.2 = .error e) ∧
        (relaunchLive h id task cp now w).1.mem.runtimes = w.mem.runtimes.erase id := by
  obtain ⟨hist, hmem⟩ := shutdownRuntime_mem h w id
  have hdown : (beginRecycle h id now (shutdownRuntime h id w).1).mem.runtimes
      = w.mem.runtimes.erase id := by
    show (shutdownRuntime h id w).1.mem.runtimes = _
    rw [hmem]
  unfold relaunchLive
  dsimp only
  rcases relaunch_cases h (beginRecycle h id now (shutdownRuntime h id w).1) id task cp
    with ⟨o, rt, hist', ho, hmem'⟩ | ⟨he, hmem'⟩
  · refine .inl ⟨o, rt, ho, ?_⟩
    rw [hmem', ← hdown]
  · refine .inr ⟨he, ?_⟩
    rw [hmem', hdown]

/-- A task that is retired loses its runtime. -/
theorem retire_runtimes (now : UInt64) (w : World) (id : String) :
    (retire h now w id).mem.runtimes = w.mem.runtimes.erase id := by
  let w₀ : World := { w with mem := { w.mem with runtimes := w.mem.runtimes.erase id } }
  let w₁ := reapTaskProcesses h id ((w.mem.runtimes.lookup id).bind (·.pid)) (flushHistory h id w₀)
  show (cleanupWorktree h id (retireTask h id now w₁)).mem.runtimes = _
  rw [cleanupWorktree_mem]
  show (retireTask h id now w₁).mem.runtimes = _
  rw [retireTask_runtimes]
  exact (quiet_reapTaskProcesses id _ (flushHistory h id w₀)).runtimes

/-! ### Registration, sampling and workspaces -/

/-- A new task has no provider yet. -/
theorem keeps_createTask (req : CreateTaskRequest) (w : World) :
    Keeps w (createTask h req w).1 := by
  unfold createTask
  cases parseProvider req.provider with
  | none => exact .refl w
  | some provider =>
      dsimp only
      let w₀ : World := { w.ask with mem := { w.mem with seq := w.mem.seq + 1 } }
      have hseq : Keeps w w₀ := .of_mem rfl rfl rfl
      generalize hspec : queuedTask (specOf (newTaskId (h.now w.calls) (w.mem.seq + 1)) provider req)
        (h.now w.calls) = task
      have hrow : Keeps w (exec h (.upsertTask task) w₀) := hseq.trans (keeps_exec h _ rfl w₀)
      split
      · -- its first transition, an event and a decision follow
        refine hrow.trans ?_
        unfold registerTask
        exact (((keeps_exec h (.recordTransition _ _) rfl _).trans
          (keeps_event h rfl _)).trans (keeps_audit h rfl _)).trans
          (.of_mem rfl rfl rfl)
      · exact hrow

/-- What is deleted is not in the trail, which keeps what it was told. -/
theorem keeps_deleteTask (id : String) (w : World) : Keeps w (deleteTask h id w).1 := by
  have h₁ := keeps_exec h (.deleteTransitions id) rfl w
  have h₂ := h₁.trans (keeps_exec h (.deleteCheckpoints id) rfl _)
  unfold deleteTask
  split
  · dsimp only
    split
    · exact h₂.trans (keeps_exec h (.deleteTaskRow id) rfl _)
    · exact h₂
  · exact h₁

/-- Where the store commits, a deletion goes through. -/
theorem deleteTask_commits (hc : ∀ n, h.commit n = true) (id : String) (w : World) :
    (deleteTask h id w).2 = true := by
  unfold deleteTask executes
  simp only [hc, Tables.accepts, Bool.and_true, if_true]

theorem keeps_sampleAll (tree : ProcessTree) (roots : List (String × Pid)) (now : UInt64)
    (w : World) : Keeps w (sampleAll h tree roots now w) := by
  have hone : ∀ w r, Keeps w (sampleOne h tree now w r) := fun w r =>
    (keeps_exec h (.recordSample now (some r.1) (tree.subtreeRssBytes r.2)
      (tree.subtreeAccountedBytes r.2)) rfl w).trans (.of_mem rfl rfl rfl)
  let w₀ : World :=
    { w with
        mem := { w.mem with
          seenPids := KeyMap.filter (fun id _ => decide (id ∈ roots.map (·.1))) w.mem.seenPids
          samples := ∅ } }
  let w₁ := roots.foldl (sampleOne h tree now) w₀
  let used := wrapSum (roots.map fun r => tree.subtreeAccountedBytes r.2)
  let w₂ : World := { w₁ with mem := { w₁.mem with usedBytes := used } }
  have h₀ : Keeps w w₀ := .of_mem rfl rfl rfl
  have h₁ : Keeps w₀ w₁ := keeps_foldl hone roots w₀
  have h₂ : Keeps w₁ w₂ := .of_mem rfl rfl rfl
  exact ((h₀.trans h₁).trans h₂).trans (keeps_exec h (.recordSample now none used used) rfl w₂)

theorem keeps_reportEscaped (w : World) (f : FlaggedProcess) : Keeps w (reportEscaped h w f) := by
  unfold reportEscaped
  split
  · exact .refl w
  · refine Keeps.trans (Keeps.trans ?_ (keeps_appendEvent h rfl _))
      (keeps_audit h rfl _)
    exact .of_mem rfl rfl rfl

theorem keeps_reconcileManaged (report : ReconciliationReport) (w : World) :
    Keeps w (reconcileManaged h report w) := by
  unfold reconcileManaged
  dsimp only
  let w₀ : World := { w with mem := { w.mem with attributedFraction := report.attributedFraction } }
  have hset : Keeps w w₀ := .of_mem rfl rfl rfl
  have hwarn : Keeps w₀ (if report.attributedFraction < 0.95 then
      event h none "process" "attribution_below_gate" "warn" w₀ else w₀) := by
    split
    · exact keeps_event h rfl _
    · exact .refl _
  exact ((hset.trans hwarn).trans (keeps_foldl (keeps_reportEscaped h) report.escaped _)).trans
    (.of_mem rfl rfl rfl)

/-- A sample tells of escaped processes only. -/
theorem keeps_sampleTick (now : UInt64) (w : World) : Keeps w (sampleTick h now w) := by
  let w₀ : World := { w with mem := { w.mem with lastSampleMs := now } }
  let roots := taskRoots w₀.mem (walk h w₀.mem.runtimes w₀)
  have h₀ : Keeps w w₀.ask.ask := .of_mem rfl rfl rfl
  have hsampled : Keeps w (sampleRoots h roots now w₀.ask.ask) :=
    (h₀.trans (keeps_sampleAll h _ roots now _)).trans (keeps_reconcileManaged h _ _)
  unfold sampleTick
  dsimp only
  split
  · exact .refl w
  · split
    · exact .of_mem rfl rfl rfl
    · split
      · exact h₀
      · exact hsampled

/-- Workspaces are not in the trail. -/
theorem keeps_addWorkspace (path : Path) (w : World) : Keeps w (addWorkspace h path w).1 := by
  unfold addWorkspace
  cases gitToplevel h path w with
  | none => exact keeps_ask w
  | some toplevel =>
      dsimp only
      generalize (⟨repoIdFor toplevel, toplevel, _, _⟩ : Workspace) = ws
      let w₁ := exec h (.saveWorkspace ws) w.ask.ask
      let w₂ : World :=
        { w₁ with mem := { w₁.mem with
          workspaces := w₁.mem.workspaces.insert (repoIdFor toplevel) ws } }
      have h₁ : Keeps w w₁ := ((keeps_ask w).trans (keeps_ask _)).trans (keeps_exec h _ rfl _)
      have h₂ : Keeps w₁ w₂ := .of_mem rfl rfl rfl
      split
      · exact (h₁.trans h₂).trans
          ((keeps_event h rfl w₂).trans (keeps_audit h rfl _))
      · exact h₁

theorem keeps_removeWorkspace (id : String) (w : World) : Keeps w (removeWorkspace h id w).1 := by
  unfold removeWorkspace
  split
  · exact .refl w
  · let w₀ : World := { w with mem := { w.mem with workspaces := w.mem.workspaces.erase id } }
    have h₀ : Keeps w w₀ := .of_mem rfl rfl rfl
    exact (h₀.trans (keeps_exec h (.deleteWorkspace id) rfl w₀)).trans
      (keeps_event h rfl _)

/-- Reclaimed processes are no providers. -/
theorem keeps_actReclaimEscaped (evidence : JsonObject) (w : World) :
    Keeps w (actReclaimEscaped h evidence w) := by
  unfold actReclaimEscaped
  dsimp only
  split
  · exact .refl w
  · let w₀ : World := { w with mem := { w.mem with escapedReported := [] } }
    have hset : Keeps w w₀ := .of_mem rfl rfl rfl
    have hi : Keeps w (terminatePids h w.mem.escapedReported w₀).1 :=
      hset.trans (keeps_terminatePids h _ w₀)
    generalize terminatePids h w.mem.escapedReported w₀ = r at hi ⊢
    obtain ⟨w', _ | report⟩ := r
    · exact hi
    · exact (hi.trans (keeps_audit h rfl _)).trans (keeps_event h rfl _)

theorem createTask_runtimes (req : CreateTaskRequest) (w : World) :
    (createTask h req w).1.mem.runtimes = w.mem.runtimes := by
  unfold createTask
  cases parseProvider req.provider with
  | none => rfl
  | some provider =>
      dsimp only
      split <;> rfl

theorem preserveVictim_mem (id : String) (task : Task) (evidence : JsonObject) (w : World) :
    (preserveVictim codec h id task evidence w).1.mem = w.mem := by
  have hmem := persistCheckpoint_mem codec h
    (captureCheckpoint codec h id task (h.now w.calls) w.ask).1
    (captureCheckpoint codec h id task (h.now w.calls) w.ask).2
  unfold preserveVictim
  dsimp only
  rcases hp : persistCheckpoint codec h (captureCheckpoint codec h id task (h.now w.calls) w.ask).2
    (captureCheckpoint codec h id task (h.now w.calls) w.ask).1 with ⟨w', e | u⟩ <;>
  · rw [hp] at hmem
    exact hmem

/-- Preserving a victim leaves the records in memory as they are. -/
theorem actPreserveGitState_mem (evidence : JsonObject) (w : World) :
    (actPreserveGitState codec h evidence w).1.mem = w.mem := by
  unfold actPreserveGitState
  dsimp only
  split
  · rfl
  · split
    · rfl
    · exact preserveVictim_mem codec h _ _ evidence w.ask

theorem keeps_preserveVictim (id : String) (task : Task) (evidence : JsonObject) (w : World) :
    Keeps w (preserveVictim codec h id task evidence w).1 := by
  have hall := (keeps_ask w).trans (keeps_checkpoint codec h id task (h.now w.calls) w.ask)
  unfold preserveVictim
  dsimp only
  rcases hp : persistCheckpoint codec h (captureCheckpoint codec h id task (h.now w.calls) w.ask).2
    (captureCheckpoint codec h id task (h.now w.calls) w.ask).1 with ⟨w', e | u⟩ <;> rw [hp] at hall
  · exact Keeps.trans hall (keeps_audit h rfl w')
  · exact Keeps.trans hall
      ((keeps_audit h rfl w').trans (keeps_appendEvent h rfl _))

theorem keeps_actPreserveGitState (evidence : JsonObject) (w : World) :
    Keeps w (actPreserveGitState codec h evidence w).1 := by
  unfold actPreserveGitState
  dsimp only
  split
  · exact keeps_ask w
  · split
    · exact (keeps_ask w).trans (keeps_ask _)
    · exact (keeps_ask w).trans (keeps_preserveVictim codec h _ _ evidence w.ask)

/-- **A preserved victim still runs**, and nothing that is told of it says otherwise. -/
theorem follows_actPreserveGitState (evidence : JsonObject) (w : World) :
    Follows w (actPreserveGitState codec h evidence w).1 := by
  refine (keeps_actPreserveGitState codec h evidence w).follows ?_
  rw [actPreserveGitState_mem]

end Operations

end MemMux.Trail
