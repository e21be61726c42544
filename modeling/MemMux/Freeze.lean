/-
MemMux/Freeze.lean

Freezing a task to a checkpoint and bringing it back (`memmuxd/src/daemon.rs`): hibernate, resume,
recycle, and the relaunch the last two share.
-/
import MemMux.Lifecycle

namespace MemMux

variable (codec : CheckpointCodec) (h : Host)

/-- The activity snapshot used for safe-point detection: the task's last state. -/
def activity (task : Task) : ActivitySnapshot where
  subState := task.state
  toolRunning := decide (task.state = .toolRunning)
  writing := false

/-- What `hibernate` and `recycle` begin with: the task must have a live provider and be at a
safe point, and its checkpoint is captured and persisted.  `verb` and `failed` are the words in
which the two differ. -/
def checkpointLive (verb failed : String) (id : String) (now : UInt64) (w : World) :
    World × Except Response (Task × Checkpoint) :=
  if id ∉ w.mem.runtimes then
    (w, .error (.error ("task " ++ id ++ " has no live provider to " ++ verb)))
  else
    match w.mem.tasks.lookup id with
    | none => (w, .error (.error ("no such task: " ++ id)))
    | some task =>
        match assess (activity task) with
        | .wait reason =>
            (audit h (some id) (verb ++ "_deferred") reason none w,
              .error (.error ("not at a safe point: " ++ reason)))
        | .ready =>
            let (w, cp) := captureCheckpoint codec h id task now w
            match persistCheckpoint codec h cp w with
            | (w, .error e) => (w, .error (.error (failed ++ e)))
            | (w, .ok ()) => (w, .ok (task, cp))

/-! ### Hibernate -/

/-- The part of `hibernate` after the checkpoint was persisted. -/
def freeze (id : String) (cp : Checkpoint) (now : UInt64) (w : World) : World :=
  let (w, cleanup) := shutdownRuntime h id w
  let w := releaseReservation id w
  let w := advance h id .checkpointing "capturing checkpoint" now w
  let w := advance h id .hibernated "provider stopped; task frozen" now w
  let w := saveTask h id w
  let w := event h (some id) "lifecycle" "hibernated" "info" w
  audit h (some id) "hibernated"
    ("checkpoint " ++ cp.gitPatchHash ++ " captured; " ++ cleanup)
    (some [("git_head", .str cp.gitHead), ("git_patch_hash", .str cp.gitPatchHash),
      ("transcript_cursor", .num cp.transcriptCursor.toNat),
      ("rss_baseline_bytes", .num cp.resourceBaselineBytes)]) w

/-- Freeze an idle task to a checkpoint and stop its provider. -/
def hibernate (id : String) (w : World) : World × Response :=
  let now := h.now w.calls
  match checkpointLive codec h "hibernate" "checkpoint failed: " id now w.ask with
  | (w, .error r) => (w, r)
  | (w, .ok (_, cp)) =>
      let w := freeze h id cp now w
      (w, viewOf id w)

/-! ### Relaunch -/

/-- The launch specification of a relaunch: the task's worktree, when the daemon holds one. -/
def relaunchSpec (id : String) (task : Task) (m : DaemonState) : LaunchSpec :=
  let spec := launchSpecFor h.getEnv task
  match m.worktrees.lookup id with
  | some handle => { spec with cwd := some handle.path }
  | none => spec

/-- The outcome `relaunch_from_checkpoint` reports for a mode. -/
def outcomeOf (mode : ResumeMode) (latency : UInt64) : ResumeOutcome :=
  match mode with
  | .native => .native latency
  | .reconstructed => .reconstructed latency "no native session handle"
  | .coldStart => .coldStart latency "provider does not support resume"

/-- `now_ms().saturating_sub(started)`. -/
def latencySince (started : UInt64) (w : World) : UInt64 :=
  if started ≤ h.now w.calls then h.now w.calls - started else 0

/-- Validation and installation of a relaunched provider: it must actually be running. -/
def installRelaunched (id : String) (mode : ResumeMode) (rt : RuntimeInstance)
    (started : UInt64) (w : World) : World × Except String ResumeOutcome :=
  if !h.running w.calls then (w.ask, .error "resumed provider exited immediately")
  else
    let w := w.ask
    let latency := latencySince h started w
    (installRuntime h id rt w.ask, .ok (outcomeOf mode latency))

/-- The fallback of a native resume that failed to spawn: a reconstructed session. -/
def relaunchFallback (id : String) (task : Task) (spec : LaunchSpec) (e : String)
    (started : UInt64) (w : World) : World × Except String ResumeOutcome :=
  match spawnPty h id task.spec.provider (task.spec.provider.command spec) w with
  | (w, .error e') => (w, .error e')
  | (w, .ok rt) =>
      let latency := latencySince h started w
      (installRuntime h id rt w.ask,
        .ok (.reconstructed latency ("native resume failed: " ++ e)))

/-- The command of a relaunch: a native resume when that is the mode and the provider has one. -/
def relaunchPty (provider : Provider) (spec : LaunchSpec) (cp : Checkpoint) :
    ResumeMode → PtySpec
  | .native =>
      (provider.resumeCommand spec (cp.providerSessionRef.getD "")).getD (provider.command spec)
  | .reconstructed | .coldStart => provider.command spec

/-- A relaunch is made in the directory its spec names. -/
theorem relaunchPty_cwd (provider : Provider) (spec : LaunchSpec) (cp : Checkpoint)
    (mode : ResumeMode) : (relaunchPty provider spec cp mode).cwd = spec.cwd := by
  cases mode with
  | native =>
      unfold relaunchPty
      cases hr : provider.resumeCommand spec (cp.providerSessionRef.getD "") with
      | none => exact Provider.command_cwd _ _
      | some pty => exact Provider.resumeCommand_cwd hr
  | reconstructed => exact Provider.command_cwd _ _
  | coldStart => exact Provider.command_cwd _ _

/-- Relaunch a task from its checkpoint, choosing native resume or a reconstructed session, and
install the new runtime on success. -/
def relaunchFromCheckpoint (id : String) (task : Task) (cp : Checkpoint) (w : World) :
    World × Except String ResumeOutcome :=
  let provider := task.spec.provider
  let spec := relaunchSpec h id task w.mem
  let mode := planResume provider.resumeFidelity cp.hasNativeSession
  let started := h.now w.calls
  match spawnPty h id provider (relaunchPty provider spec cp mode) w.ask with
  | (w, .ok rt) => installRelaunched h id mode rt started w
  | (w, .error e) =>
      if mode = .native then relaunchFallback h id task spec e started w else (w, .error e)

/-- The payload of a resume outcome. -/
def outcomeJson (o : ResumeOutcome) : JsonObject :=
  [("mode", .str o.mode.slug), ("latency_ms", .num o.latencyMs.toNat),
    ("validated", .bool o.validated), ("detail", .str o.detail)]

def emitResumeEvent (id : String) (o : ResumeOutcome) (w : World) : World :=
  let w := appendEvent h (some id) "lifecycle" "resumed" "info" (some (outcomeJson o)) w
  audit h (some id) "resumed"
    ("resumed via " ++ o.mode.label ++ " in " ++ toString o.latencyMs.toNat
      ++ " ms (validated=" ++ toString o.validated ++ ")")
    (some (outcomeJson o)) w

/-! ### Resume -/

/-- The part of `resume` after a successful relaunch. -/
def thaw (id : String) (cls : ResourceClass) (o : ResumeOutcome) (now : UInt64) (w : World) :
    World :=
  let w := advance h id .resuming "restoring from checkpoint" now w
  let w := advance h id .active "provider resumed" now w
  let w := saveTask h id w
  let w := reserve id cls w
  let w := exec h (.deleteCheckpoints id) w
  emitResumeEvent h id o w

/-- What a resume needs before it launches: a hibernated task and its verified checkpoint. -/
def prepareResume (id : String) (w : World) : Except Response (Task × Checkpoint) :=
  match w.mem.tasks.lookup id with
  | none => .error (.error ("no such task: " ++ id))
  | some task =>
      if task.state ≠ .hibernated then
        .error (.error
          ("task " ++ id ++ " is not hibernated (state " ++ task.state.display ++ ")"))
      else
        match loadCheckpoint codec id w.disk with
        | .error e => .error (.error ("cannot resume " ++ id ++ ": " ++ e))
        | .ok cp => .ok (task, cp)

/-- Restore a hibernated task from its checkpoint. -/
def resume (id : String) (w : World) : World × Response :=
  let now := h.now w.calls
  let w := w.ask
  match prepareResume codec id w with
  | .error r => (w, r)
  | .ok (task, cp) =>
      match relaunchFromCheckpoint h id task cp w with
      | (w, .error e) =>
          (audit h (some id) "resume_failed"
            ("resume failed, checkpoint retained: " ++ e) none w,
            .error ("resume failed (task remains hibernated): " ++ e))
      | (w, .ok outcome) =>
          let w := thaw h id task.spec.resourceClass outcome now w
          (w, viewOf id w)

/-! ### Recycle -/

/-- `Active → Recycling` while the provider is down. -/
def beginRecycle (id : String) (now : UInt64) (w : World) : World :=
  saveTask h id (advance h id .recycling "recycling provider" now w)

/-- The rollback of `recycle`: the task fails, its checkpoint is retained. -/
def rollBack (id : String) (e : String) (now : UInt64) (w : World) : World :=
  let w := advance h id .failed "recycle resume failed" now w
  let w := saveTask h id w
  audit h (some id) "recycle_rolled_back"
    ("resume after recycle failed, checkpoint retained: " ++ e) none w

/-- The payload of a recycle record. -/
def recordJson (r : RecycleRecord) : JsonObject :=
  [("rss_before", .num r.rssBefore), ("rss_after", .num r.rssAfter),
    ("reclaimed_bytes", .num r.reclaimedBytes), ("resume_mode", .str r.resumeMode.slug),
    ("resume_latency_ms", .num r.resumeLatencyMs.toNat),
    ("git_patch_hash", .str r.gitPatchHash)]

/-- The part of `recycle` after a successful relaunch. -/
def finishRecycle (id : String) (cp : Checkpoint) (rssBefore : Nat) (cleanup : String)
    (o : ResumeOutcome) (now : UInt64) (w : World) : World :=
  let reclamation : Reclamation := ⟨rssBefore, runtimeRss h id w⟩
  let w := advance h id .resuming "restoring from checkpoint" now w.ask
  let w := advance h id .active "provider recycled" now w
  let w := saveTask h id w
  let w := exec h (.deleteCheckpoints id) w
  let record := RecycleRecord.new reclamation o.mode o.latencyMs cp.gitPatchHash
  let w := appendEvent h (some id) "lifecycle" "runtime_recycled" "info"
    (some (recordJson record)) w
  audit h (some id) "recycled"
    (reclamation.summary ++ "; resume " ++ o.mode.label ++ "; " ++ cleanup)
    (some (recordJson record)) w

/-- A recycle after its checkpoint: the old provider is stopped, a new one launched. -/
def relaunchLive (id : String) (task : Task) (cp : Checkpoint) (now : UInt64) (w : World) :
    World × String × Except String ResumeOutcome :=
  let (w, cleanup) := shutdownRuntime h id w
  let (w, outcome) := relaunchFromCheckpoint h id task cp (beginRecycle h id now w)
  (w, cleanup, outcome)

/-- Recycle a running provider: checkpoint, stop, relaunch, and ledger the reclaimed memory.  The
subtree is sampled before the checkpoint is taken. -/
def recycle (id : String) (w : World) : World × Response :=
  let now := h.now w.calls
  let w := w.ask
  let rssBefore := runtimeRss h id w
  match checkpointLive codec h "recycle" "recycle checkpoint failed: " id now w.ask with
  | (w, .error r) => (w, r)
  | (w, .ok (task, cp)) =>
      match relaunchLive h id task cp now w with
      | (w, _, .error e) =>
          (rollBack h id e now w, .error ("recycle failed, checkpoint retained: " ++ e))
      | (w, cleanup, .ok outcome) =>
          let w := finishRecycle h id cp rssBefore cleanup outcome now w
          (w, viewOf id w)

/-! ### What they leave alone -/

section Frame

variable (w : World)

@[simp] theorem checkpointLive_mem (verb failed id : String) (now : UInt64) :
    (checkpointLive codec h verb failed id now w).1.mem = w.mem := by
  unfold checkpointLive
  split
  · rfl
  · cases w.mem.tasks.lookup id with
    | none => rfl
    | some task =>
        dsimp only
        cases assess (activity task) with
        | wait reason => rfl
        | ready =>
            have hp := persistCheckpoint_mem codec h (captureCheckpoint codec h id task now w).1
              (captureCheckpoint codec h id task now w).2
            dsimp only
            rcases hc : persistCheckpoint codec h (captureCheckpoint codec h id task now w).2
              (captureCheckpoint codec h id task now w).1 with ⟨w', e | u⟩
            · rw [hc] at hp
              exact hp
            · rw [hc] at hp
              exact hp

/-- A checkpoint is taken of a registered task with a live provider, at a safe point. -/
theorem checkpointLive_ok {verb failed id : String} {now : UInt64} {w w' : World} {task : Task}
    {cp : Checkpoint} (hc : checkpointLive codec h verb failed id now w = (w', .ok (task, cp))) :
    id ∈ w.mem.runtimes ∧ w.mem.tasks.lookup id = some task ∧ assess (activity task) = .ready ∧
      cp = (captureCheckpoint codec h id task now w).2 ∧
      persistCheckpoint codec h cp (captureCheckpoint codec h id task now w).1 = (w', .ok ()) := by
  unfold checkpointLive at hc
  split at hc
  · simp at hc
  · next hid =>
    cases ht : w.mem.tasks.lookup id with
    | none =>
        rw [ht] at hc
        simp at hc
    | some t =>
        rw [ht] at hc
        dsimp only at hc
        cases ha : assess (activity t) with
        | wait reason =>
            rw [ha] at hc
            simp at hc
        | ready =>
            rw [ha] at hc
            dsimp only at hc
            rcases hp : persistCheckpoint codec h (captureCheckpoint codec h id t now w).2
              (captureCheckpoint codec h id t now w).1 with ⟨w₁, e | u⟩
            · rw [hp] at hc
              simp at hc
            · rw [hp] at hc
              simp only [Prod.mk.injEq, Except.ok.injEq] at hc
              obtain ⟨rfl, rfl, rfl⟩ := hc
              exact ⟨not_not.mp hid, rfl, ha, rfl, hp⟩

/-- **How a hibernation goes**: its checkpoint is refused and nothing is done, or the task is frozen. -/
theorem hibernate_cases (id : String) :
    (∃ w' r, checkpointLive codec h "hibernate" "checkpoint failed: " id (h.now w.calls) w.ask
          = (w', .error r) ∧
        w'.mem = w.mem ∧ hibernate codec h id w = (w', r)) ∨
      ∃ w' task cp, checkpointLive codec h "hibernate" "checkpoint failed: " id (h.now w.calls) w.ask
          = (w', .ok (task, cp)) ∧
        w'.mem = w.mem ∧ (hibernate codec h id w).1 = freeze h id cp (h.now w.calls) w' := by
  have hmem := checkpointLive_mem codec h w.ask "hibernate" "checkpoint failed: " id (h.now w.calls)
  unfold hibernate
  dsimp only
  rcases hc : checkpointLive codec h "hibernate" "checkpoint failed: " id (h.now w.calls) w.ask
    with ⟨w', r | ⟨task, cp⟩⟩ <;> rw [hc] at hmem
  · exact .inl ⟨w', r, rfl, hmem, rfl⟩
  · exact .inr ⟨w', task, cp, rfl, hmem, rfl⟩

/-- **How a recycle goes**: its checkpoint is refused and nothing is done, the relaunch fails and it is
rolled back, or the task goes on with the new provider. -/
theorem recycle_cases (id : String) :
    (∃ w' r, checkpointLive codec h "recycle" "recycle checkpoint failed: " id (h.now w.calls)
          w.ask.ask = (w', .error r) ∧
        w'.mem = w.mem ∧ recycle codec h id w = (w', r)) ∨
      ∃ w' task cp, checkpointLive codec h "recycle" "recycle checkpoint failed: " id (h.now w.calls)
          w.ask.ask = (w', .ok (task, cp)) ∧
        w'.mem = w.mem ∧
        ((∃ w₂ cleanup e, relaunchLive h id task cp (h.now w.calls) w' = (w₂, cleanup, .error e) ∧
            recycle codec h id w = (rollBack h id e (h.now w.calls) w₂,
              .error ("recycle failed, checkpoint retained: " ++ e))) ∨
          ∃ w₂ cleanup o, relaunchLive h id task cp (h.now w.calls) w' = (w₂, cleanup, .ok o) ∧
            (recycle codec h id w).1
              = finishRecycle h id cp (runtimeRss h id w.ask) cleanup o (h.now w.calls) w₂) := by
  have hmem := checkpointLive_mem codec h w.ask.ask "recycle" "recycle checkpoint failed: " id
    (h.now w.calls)
  unfold recycle
  dsimp only
  rcases hc : checkpointLive codec h "recycle" "recycle checkpoint failed: " id (h.now w.calls)
    w.ask.ask with ⟨w', r | ⟨task, cp⟩⟩ <;> rw [hc] at hmem
  · exact .inl ⟨w', r, rfl, hmem, rfl⟩
  · refine .inr ⟨w', task, cp, rfl, hmem, ?_⟩
    dsimp only
    rcases relaunchLive h id task cp (h.now w.calls) w' with ⟨w₂, cleanup, e | o⟩
    · exact .inl ⟨w₂, cleanup, e, rfl, rfl⟩
    · exact .inr ⟨w₂, cleanup, o, rfl, rfl⟩

/-- Stopping a provider changes the runtimes and its own history. -/
theorem shutdownRuntime_mem (id : String) :
    ∃ hist, (shutdownRuntime h id w).1.mem
      = { w.mem with runtimes := w.mem.runtimes.erase id, histories := hist } := by
  unfold shutdownRuntime
  cases hrt : w.mem.runtimes.lookup id with
  | none =>
      refine ⟨w.mem.histories, ?_⟩
      rw [KeyMap.erase_of_not_mem (KeyMap.not_mem_iff_lookup.mpr hrt)]
  | some rt =>
      dsimp only
      rw [verifySubtreeGone_mem]
      exact stopAndFlush_mem h w id rt

/-- The way a relaunch may end: the new provider is installed, or the daemon's state is as it
was. -/
def Relaunched (id : String) (m : DaemonState) (r : World × Except String ResumeOutcome) : Prop :=
  (∃ o rt hist, r.2 = .ok o ∧
      r.1.mem = { m with runtimes := m.runtimes.insert id rt, histories := hist }) ∨
    ((∃ e, r.2 = .error e) ∧ r.1.mem = m)

theorem installRelaunched_cases (id : String) (mode : ResumeMode) (rt : RuntimeInstance)
    (started : UInt64) : Relaunched id w.mem (installRelaunched h id mode rt started w) := by
  unfold installRelaunched
  split
  · exact Or.inr ⟨⟨_, rfl⟩, rfl⟩
  · obtain ⟨hist, hmem⟩ := installRuntime_mem h w.ask.ask id rt
    exact Or.inl ⟨_, rt, hist, rfl, hmem⟩

theorem relaunchFallback_cases (id : String) (task : Task) (spec : LaunchSpec) (e : String)
    (started : UInt64) : Relaunched id w.mem (relaunchFallback h id task spec e started w) := by
  unfold relaunchFallback
  rcases hs : spawnPty h id task.spec.provider (task.spec.provider.command spec) w
    with ⟨w₁, e' | rt⟩
  · obtain ⟨rfl, -⟩ := Prod.mk.inj hs
    exact Or.inr ⟨⟨_, rfl⟩, rfl⟩
  · obtain ⟨rfl, -⟩ := Prod.mk.inj hs
    obtain ⟨hist, hmem⟩ := installRuntime_mem h
      (attemptSpawn h id (task.spec.provider.command spec).cwd w).ask id rt
    exact Or.inl ⟨_, rt, hist, rfl, hmem⟩

theorem relaunch_cases (id : String) (task : Task) (cp : Checkpoint) :
    Relaunched id w.mem (relaunchFromCheckpoint h id task cp w) := by
  unfold relaunchFromCheckpoint
  dsimp only
  split
  · next w₁ rt hs =>
    obtain ⟨rfl, -⟩ := Prod.mk.inj hs
    exact installRelaunched_cases h _ id _ rt _
  · next w₁ e hs =>
    obtain ⟨rfl, -⟩ := Prod.mk.inj hs
    split
    · exact relaunchFallback_cases h _ id task _ e _
    · exact Or.inr ⟨⟨_, rfl⟩, rfl⟩

/-- **How a resume goes**: it is refused, the provider does not come up, or the task is thawed with the
new provider. -/
theorem resume_cases (id : String) :
    (∃ r, prepareResume codec id w.ask = .error r ∧ resume codec h id w = (w.ask, r)) ∨
      ∃ task cp, prepareResume codec id w.ask = .ok (task, cp) ∧
        ((∃ w' e, relaunchFromCheckpoint h id task cp w.ask = (w', .error e) ∧ w'.mem = w.mem ∧
            resume codec h id w
              = (audit h (some id) "resume_failed"
                  ("resume failed, checkpoint retained: " ++ e) none w',
                .error ("resume failed (task remains hibernated): " ++ e))) ∨
          ∃ w' o rt hist, relaunchFromCheckpoint h id task cp w.ask = (w', .ok o) ∧
            w'.mem = { w.mem with runtimes := w.mem.runtimes.insert id rt, histories := hist } ∧
            resume codec h id w
              = (thaw h id task.spec.resourceClass o (h.now w.calls) w',
                viewOf id (thaw h id task.spec.resourceClass o (h.now w.calls) w'))) := by
  unfold resume
  dsimp only
  cases prepareResume codec id w.ask with
  | error r => exact .inl ⟨r, rfl, rfl⟩
  | ok p =>
      obtain ⟨task, cp⟩ := p
      refine .inr ⟨task, cp, rfl, ?_⟩
      have hcases := relaunch_cases h w.ask id task cp
      dsimp only
      rcases hr : relaunchFromCheckpoint h id task cp w.ask with ⟨w', e | o⟩ <;> rw [hr] at hcases
      · obtain ⟨o, rt, hist, ho, -⟩ | ⟨-, hmem⟩ := hcases
        · cases ho
        · exact .inl ⟨w', e, rfl, hmem, rfl⟩
      · obtain ⟨o', rt, hist, -, hmem⟩ | ⟨⟨e, he⟩, -⟩ := hcases
        · exact .inr ⟨w', o, rt, hist, rfl, hmem, rfl⟩
        · cases he

/-- What a resume starts from: a hibernated task and a checkpoint that loads. -/
theorem prepareResume_ok {id : String} {w : World} {task : Task} {cp : Checkpoint}
    (hp : prepareResume codec id w = .ok (task, cp)) :
    w.mem.tasks.lookup id = some task ∧ task.state = .hibernated ∧
      loadCheckpoint codec id w.disk = .ok cp := by
  unfold prepareResume at hp
  cases ht : w.mem.tasks.lookup id with
  | none =>
      rw [ht] at hp
      simp at hp
  | some t =>
      rw [ht] at hp
      dsimp only at hp
      split at hp
      · simp at hp
      · next hs =>
        cases hl : loadCheckpoint codec id w.disk with
        | error e =>
            rw [hl] at hp
            simp at hp
        | ok c =>
            rw [hl] at hp
            simp only [Except.ok.injEq, Prod.mk.injEq] at hp
            obtain ⟨rfl, rfl⟩ := hp
            exact ⟨rfl, not_not.mp hs, rfl⟩

end Frame

end MemMux
