/-
MemMux/Lifecycle.lean

The handlers that move a task through its life (`memmuxd/src/daemon.rs`): create, start, restart,
forget, terminate, hibernate, resume and recycle, and the admission pass.

Each handler takes a world to a world and a response.  Early returns of the source are the
branches of a `match` or an `if`; what follows the last of them is a helper of its own, a
straight sequence of primitives.
-/
import MemMux.Admission
import MemMux.Launch

namespace MemMux

variable (codec : CheckpointCodec) (h : Host)

/-! ### Creating a task -/

/-- The id `create_task` generates: the clock and the low 16 bits of the request counter. -/
def newTaskId (now seq : UInt64) : String :=
  "task_" ++ hex now.toNat ++ hexPad 4 (seq &&& 0xffff).toNat

/-- The specification of a create request. -/
def specOf (id : String) (provider : Provider) (req : CreateTaskRequest) : TaskSpec :=
  let title := if trim req.title = "" then autoTitle provider req.repositoryPath
    else trim req.title
  let spec := TaskSpec.new id (repoIdFor req.repositoryPath) req.repositoryPath title provider
    req.baseBranch
  { spec with
      resourceClass := (req.resourceClass.bind parseResourceClass).getD spec.resourceClass
      priority := (req.priority.bind parsePriority).getD spec.priority
      command := req.command }

/-- The `Created → Queued` transition of a new task. -/
def submitted (now : UInt64) : StateTransition := ⟨.created, .queued, now, "submitted"⟩

/-- A new task right after it was queued. -/
def queuedTask (spec : TaskSpec) (now : UInt64) : Task where
  spec := spec
  state := .queued
  createdAtMs := now
  updatedAtMs := now
  history := [submitted now]

/-- `Created → Queued` is legal, so a new task is always queued. -/
theorem transition_new (spec : TaskSpec) (now : UInt64) :
    (Task.new spec now).transition .queued "submitted" now
      = .ok (queuedTask spec now, submitted now) := rfl

/-- The reason recorded for a created task. -/
def queuedReason (peak budget : Nat) : String :=
  if peak ≤ budget then
    "queued; predicted peak " ++ toString (peak / (1024 * 1024)) ++ " MiB fits the "
      ++ toString (budget / (1024 * 1024)) ++ " MiB budget"
  else
    "queued; predicted peak " ++ toString (peak / (1024 * 1024)) ++ " MiB exceeds the "
      ++ toString (budget / (1024 * 1024)) ++ " MiB budget — will await headroom"

/-- The part of `create_task` after the row was stored. -/
def registerTask (task : Task) (w : World) : World :=
  let id := task.spec.id
  let w := exec h (.recordTransition id (submitted task.createdAtMs)) w
  let w := event h (some id) "lifecycle" "task_created" "info" w
  let peak := (classReservation task.spec.resourceClass).peakBytes
  let budget := w.mem.envelope.agentBudgetBytes
  let w := audit h (some id) "queued" (queuedReason peak budget)
    (some [("predicted_peak_bytes", .num peak), ("agent_budget_bytes", .num budget),
      ("resource_class", .str task.spec.resourceClass.debug)]) w
  { w with mem := { w.mem with tasks := w.mem.tasks.insert id task } }

def createTask (req : CreateTaskRequest) (w : World) : World × Response :=
  match parseProvider req.provider with
  | none => (w, .error ("unknown provider: " ++ req.provider))
  | some provider =>
      let now := h.now w.calls
      let w : World := { w.ask with mem := { w.mem with seq := w.mem.seq + 1 } }
      let task := queuedTask (specOf (newTaskId now w.mem.seq) provider req) now
      if executes h (.upsertTask task) w then
        (registerTask h task (exec h (.upsertTask task) w), .task (view task))
      else (exec h (.upsertTask task) w, .error ("store error: " ++ h.failure w.calls))

/-! ### Admission -/

/-- A pending task that may be considered in an admission pass. -/
def admissible (id : String) (m : DaemonState) : Option Task :=
  match m.tasks.lookup id with
  | none => none
  | some task => if task.state ≠ .queued ∨ id ∈ m.runtimes then none else some task

/-- Low-priority starts are held under sustained pressure. -/
def held (task : Task) (stage : PressureStage) : Bool :=
  decide (task.spec.priority = .low) && decide (PressureStage.high.rank ≤ stage.rank)

/-- The admission candidate a pending task becomes. -/
def candidateOf (id : String) (task : Task) (now : UInt64) (budget : Nat) : Candidate Float :=
  let peak := (classReservation task.spec.resourceClass).peakBytes
  let inputs : ScoreInputs :=
    { priority := task.spec.priority
      interactivity := 0.0
      ageMs := if task.createdAtMs ≤ now then now - task.createdAtMs else 0
      dependencyCriticality := 0.0
      predictedPeakBytes := peak
      resumeCost := 0.0
      conflictRisk := 0.0 }
  ⟨id, score ScoreWeights.default inputs budget, peak⟩

/-- The loop over `pending`: drop what is no longer a candidate, hold low priority under pressure,
and score the rest. -/
def collectCandidates (now : UInt64) :
    List String → DaemonState → DaemonState × List (Candidate Float)
  | [], m => (m, [])
  | id :: pending, m =>
      match admissible id m with
      | none =>
          collectCandidates now pending
            { m with
                pendingAdmission := m.pendingAdmission.filter (· ≠ id)
                queuedReasons := m.queuedReasons.erase id }
      | some task =>
          if held task m.pressureStage then
            collectCandidates now pending
              { m with
                  queuedReasons := m.queuedReasons.insert id
                    ("held: under " ++ m.pressureStage.debug ++ " memory pressure") }
          else
            let (m, cs) := collectCandidates now pending m
            (m, candidateOf id task now m.envelope.agentBudgetBytes :: cs)

/-- One admitted task: launch it, and drop it from the pending set whatever the launch did. -/
def admitOne (now : UInt64) (w : World) (id : String) : World :=
  match w.mem.tasks.lookup id with
  | none => w
  | some snapshot =>
      let w := audit h (some id) "admitted" "scored in and fits the budget" none w
      let w := (launchQueued h id snapshot now w).1
      { w with
          mem := { w.mem with
            pendingAdmission := w.mem.pendingAdmission.filter (· ≠ id)
            queuedReasons := w.mem.queuedReasons.erase id } }

/-- One deferred task: its reason is recorded, and announced when it changed. -/
def deferOne (w : World) (d : String × String) : World :=
  let (id, reason) := d
  let announced : World :=
    if w.mem.queuedReasons.lookup id ≠ some reason then
      event h (some id) "admission" "deferred" "info"
        (audit h (some id) "admission_deferred" reason none w)
    else w
  { announced with
      mem := { w.mem with queuedReasons := w.mem.queuedReasons.insert id reason } }

/-- Run one admission pass over the pending tasks: score the queued candidates, admit the
highest-scoring that fit the remaining budget, and leave the rest queued with a reason. -/
def tryAdmitPending (now : UInt64) (w : World) : World :=
  let pending := w.mem.pendingAdmission.dedup.insertionSort (· ≤ ·)
  let (m, candidates) := collectCandidates now pending w.mem
  let w := { w with mem := m }
  let available := m.envelope.availableBytes (reservedBytes m)
  let plan := planAdmission candidates available
  plan.deferred.foldl (deferOne h) (plan.admitted.foldl (admitOne h now) w)

/-- Admit and launch a task's provider in a PTY, or leave it queued with a reason. -/
def startTask (id : String) (w : World) : World × Response :=
  let now := h.now w.calls
  let w := w.ask
  if id ∈ w.mem.runtimes then (w, viewOf id w)
  else
    match w.mem.tasks.lookup id with
    | none => (w, .error ("no such task: " ++ id))
    | some snapshot =>
        if snapshot.state ≠ .queued then
          (w, .error ("task " ++ id ++ " is not startable from " ++ snapshot.state.display))
        else
          let w := tryAdmitPending h now
            { w with
                mem := { w.mem with
                  pendingAdmission := id :: w.mem.pendingAdmission.filter (· ≠ id) } }
          (w, match w.mem.tasks.lookup id with
            | some t =>
                .task { view t with
                  rssBytes := ((w.mem.samples.lookup id).map (·.rssBytes)).getD 0
                  accountedBytes := ((w.mem.samples.lookup id).map (·.accountedBytes)).getD 0
                  queuedReason := w.mem.queuedReasons.lookup id }
            | none => .error ("no such task: " ++ id))

/-! ### Restart and forget -/

/-- The state `force_requeue` tries next. -/
def requeueNext (s : TaskState) : Option TaskState :=
  [TaskState.queued, .failed, .active].find? s.canTransitionTo

/-- Drive a non-running task to `Queued` via legal transitions, at most `n` of them. -/
def forceRequeue (id : String) (now : UInt64) : Nat → World → World
  | 0, w => w
  | n + 1, w =>
      match w.mem.tasks.lookup id with
      | none => w
      | some task =>
          if task.state = .queued then w
          else
            match requeueNext task.state with
            | none => w
            | some s => forceRequeue id now n (advance h id s "restart: re-queue" now w)

/-- `restart` up to its launch: the answer to a refused restart, or the re-queued task. -/
def prepareRestart (id : String) (w : World) : World × Except Response Task :=
  let now := h.now w.calls
  let w := w.ask
  if id ∈ w.mem.runtimes then (w, .error (viewOf id w))
  else
    match w.mem.tasks.lookup id with
    | none => (w, .error (.error ("no such task: " ++ id)))
    | some snapshot =>
        if snapshot.state = .terminated then
          (w, .error (.error ("task " ++ id ++ " is terminated and cannot be restarted")))
        else
          let w := forceRequeue h id now 6 w
          match w.mem.tasks.lookup id with
          | none => (w, .error (.error ("no such task: " ++ id)))
          | some requeued =>
              if requeued.state ≠ .queued then
                (w, .error (.error ("task " ++ id ++ " cannot be restarted from "
                  ++ snapshot.state.display)))
              else
                let w := saveTask h id w
                (event h (some id) "lifecycle" "restarted" "info" w, .ok requeued)

/-- Restart a non-running task: discard the stale session, re-queue, and relaunch. -/
def restart (id : String) (w : World) : World × Response :=
  match prepareRestart h id w with
  | (w', .error r) => (w', r)
  | (w', .ok requeued) => launchQueued h id requeued (h.now w.calls) w'

/-- `Store::delete_task`: three statements, the first failure ends it. -/
def deleteTask (id : String) (w : World) : World × Bool :=
  if executes h (.deleteTransitions id) w then
    let w := exec h (.deleteTransitions id) w
    if executes h (.deleteCheckpoints id) w then
      let w := exec h (.deleteCheckpoints id) w
      (exec h (.deleteTaskRow id) w, executes h (.deleteTaskRow id) w)
    else (exec h (.deleteCheckpoints id) w, false)
  else (exec h (.deleteTransitions id) w, false)

/-- Forget a terminal task: remove it from the registry and the durable store. -/
def forget (id : String) (w : World) : World × Response :=
  if id ∈ w.mem.runtimes then
    (w, .error ("task " ++ id ++ " is still running — terminate it before forgetting"))
  else
    match w.mem.tasks.lookup id with
    | none => (w, .error ("no such task: " ++ id))
    | some task =>
        if task.state ≠ .failed ∧ task.state ≠ .terminated then
          (w, .error ("task " ++ id ++ " is " ++ task.state.display
            ++ " — terminate it before forgetting"))
        else
          let w : World :=
            { w with
                mem := { w.mem with
                  tasks := w.mem.tasks.erase id
                  histories := w.mem.histories.erase id } }
          match deleteTask h id w with
          | (w, false) => (w, .error ("store error forgetting " ++ id ++ ": "
              ++ h.failure w.calls))
          | (w, true) =>
              let w := audit h (some id) "forgotten" "task removed from the registry" none w
              (event h (some id) "lifecycle" "forgotten" "info" w, .ok)

/-! ### Stopping a provider -/

/-- The note `verify_subtree_gone` returns for a sweep. -/
def verifyNote (h : Host) (w : World) : Option TerminationReport → String
  | some r => "process-tree cleanup " ++ r.cleanupPercent ++ "%"
      ++ (if r.usedSigkill then " (sigkill)" else "")
  | none => "process-tree verify error: " ++ h.failure w.calls

/-- Verify that the process subtree of a stopped provider is gone, and reap what is left of it. -/
def verifySubtreeGone (root : Option Pid) (w : World) : World × String :=
  match root with
  | none => (w, "no pid to verify")
  | some root =>
      let (w, report) := terminateSubtree h root w
      (w, verifyNote h w report)

/-- Take the provider `rt` of a task down: drop it, stop it and flush its scrollback. -/
def stopAndFlush (id : String) (rt : RuntimeInstance) (w : World) : World :=
  flushHistory h id
    (stopRuntime h id rt { w with mem := { w.mem with runtimes := w.mem.runtimes.erase id } })

/-- Take the provider of a task down, if it has one. -/
def stopLive (id : String) (w : World) : World :=
  match w.mem.runtimes.lookup id with
  | some rt => stopAndFlush h id rt w
  | none => w

/-- Stop a task's live provider, flush its scrollback and verify its process subtree is gone. -/
def shutdownRuntime (id : String) (w : World) : World × String :=
  match w.mem.runtimes.lookup id with
  | none => (w, "no live provider")
  | some rt => verifySubtreeGone h (rt.pid.map asI32) (stopAndFlush h id rt w)

/-- The pids `reap_task_processes` targets: the live subtree of the root, if it can be sampled, and
every pid recorded under the task. -/
def reapTargets (id : String) (rootPid : Option Nat) (w : World) : List Pid :=
  let live := match rootPid with
    | some pid =>
        if h.sampler w.calls then
          asI32 pid :: (ProcessTree.fromSamples w.procs).descendants (asI32 pid)
        else []
    | none => []
  (live ++ (w.mem.seenPids.lookup id).getD []).filter (1 < ·)

/-- The sweep of `reap_task_processes` and its record. -/
def reapSweep (id : String) (targets : List Pid) (w : World) : World :=
  let (w, report) := terminatePids h targets w
  match report with
  | some r =>
      let summary := "process-tree cleanup " ++ r.cleanupPercent ++ "% ("
        ++ toString r.targeted.length ++ " targeted, " ++ toString r.survivors.length
        ++ " survived" ++ (if r.usedSigkill then ", sigkill" else "") ++ ")"
      let severity := if r.fullyCleaned then "info" else "warn"
      let w := event h (some id) "process" "process_reclaimed" severity w
      audit h (some id) "process_reclaimed" summary none w
  | none =>
      audit h (some id) "process_reclaimed"
        ("process-tree reclaim error: " ++ h.failure w.calls) none w

/-- Reap every process MemMux owns for a task, and forget its sampling state. -/
def reapTaskProcesses (id : String) (rootPid : Option Nat) (w : World) : World :=
  let targets := reapTargets h id rootPid w
  let swept : World := if targets = [] then w.ask else reapSweep h id targets w.ask
  { swept with
      mem := { w.mem with
        seenPids := w.mem.seenPids.erase id
        samples := w.mem.samples.erase id } }

/-- Drive a task `ANY → TERMINATING → TERMINATED` with an operator's reasons. -/
def drive (id : String) (now : UInt64) (w : World) : World :=
  let w := match w.mem.tasks.lookup id with
    | some task =>
        if task.state ≠ .terminating ∧ task.state ≠ .terminated then
          advance h id .terminating "operator terminate" now w
        else w
    | none => w
  advance h id .terminated "torn down" now w

/-- Terminate a task: reap its process tree, stop its provider, tear its worktree down. -/
def terminate (id : String) (w : World) : World × Response :=
  let now := h.now w.calls
  let w := w.ask
  if id ∉ w.mem.tasks then (w, .error ("no such task: " ++ id))
  else
    let w := reapTaskProcesses h id ((w.mem.runtimes.lookup id).bind (·.pid)) w
    let w := stopLive h id w
    let w := cleanupWorktree h id w
    let w := releaseReservation id w
    let w := drive h id now w
    let w := saveTask h id w
    let w := audit h (some id) "terminated" "task terminated by operator" none w
    let w := event h (some id) "lifecycle" "terminated" "info" w
    (w, viewOf id w)

/-! ### What they leave alone -/

section Frame

variable (w : World)

theorem installRuntime_mem (id : String) (rt : RuntimeInstance) :
    ∃ hist, (installRuntime h id rt w).mem
      = { w.mem with runtimes := w.mem.runtimes.insert id rt, histories := hist } :=
  ⟨_, rfl⟩

theorem stopAndFlush_mem (id : String) (rt : RuntimeInstance) :
    ∃ hist, (stopAndFlush h id rt w).mem
      = { w.mem with runtimes := w.mem.runtimes.erase id, histories := hist } :=
  ⟨_, rfl⟩

theorem stopLive_mem (id : String) :
    ∃ hist, (stopLive h id w).mem
      = { w.mem with runtimes := w.mem.runtimes.erase id, histories := hist } := by
  unfold stopLive
  cases hrt : w.mem.runtimes.lookup id with
  | none =>
      refine ⟨w.mem.histories, ?_⟩
      rw [KeyMap.erase_of_not_mem (KeyMap.not_mem_iff_lookup.mpr hrt)]
  | some rt => exact stopAndFlush_mem h w id rt

@[simp] theorem verifySubtreeGone_mem (root : Option Pid) :
    (verifySubtreeGone h root w).1.mem = w.mem := by
  cases root with
  | none => rfl
  | some root => exact terminateSubtree_mem h w root

@[simp] theorem deleteTask_mem (id : String) : (deleteTask h id w).1.mem = w.mem := by
  unfold deleteTask
  dsimp only
  split_ifs <;> rfl

/-- Driving a task down changes the state and the history of one task. -/
theorem drive_mem (id : String) (now : UInt64) :
    ∃ ts, (drive h id now w).mem = { w.mem with tasks := ts } ∧ KeyMap.Off id w.mem.tasks ts := by
  have key : ∃ w₁, drive h id now w = advance h id .terminated "torn down" now w₁ ∧
      ∃ ts, w₁.mem = { w.mem with tasks := ts } ∧ KeyMap.Off id w.mem.tasks ts := by
    unfold drive
    cases w.mem.tasks.lookup id with
    | none => exact ⟨w, rfl, _, rfl, .refl _ _⟩
    | some task =>
        dsimp only
        split
        · exact ⟨_, rfl, _, rfl, off_advance h w id _ _ now⟩
        · exact ⟨w, rfl, _, rfl, .refl _ _⟩
  obtain ⟨w₁, hw₁, ts, hmem, hoff⟩ := key
  have hoff₁ := off_advance h w₁ id .terminated "torn down" now
  rw [hw₁]
  refine ⟨(advance h id .terminated "torn down" now w₁).mem.tasks, ?_, hoff.trans ?_⟩
  · calc (advance h id .terminated "torn down" now w₁).mem
        = { w₁.mem with
            tasks := (advance h id .terminated "torn down" now w₁).mem.tasks } := rfl
      _ = _ := by rw [hmem]
  · rw [hmem] at hoff₁
    exact hoff₁

/-- Re-queueing changes the state and the history of one task. -/
theorem forceRequeue_mem (id : String) (now : UInt64) (n : Nat) (w : World) :
    ∃ ts, (forceRequeue h id now n w).mem = { w.mem with tasks := ts } ∧
      KeyMap.Off id w.mem.tasks ts ∧
      (ts.lookup id).map (·.spec) = (w.mem.tasks.lookup id).map (·.spec) := by
  induction n generalizing w with
  | zero => exact ⟨_, rfl, .refl _ _, rfl⟩
  | succ n ih =>
      unfold forceRequeue
      cases ht : w.mem.tasks.lookup id with
      | none => exact ⟨_, rfl, .refl _ _, by rw [ht]⟩
      | some task =>
          dsimp only
          split
          · exact ⟨_, rfl, .refl _ _, by rw [ht]⟩
          · cases requeueNext task.state with
            | none => exact ⟨_, rfl, .refl _ _, by rw [ht]⟩
            | some s =>
                obtain ⟨ts, hmem, hoff, hspec⟩ := ih (advance h id s "restart: re-queue" now w)
                refine ⟨ts, hmem, (off_advance h w id s _ now).trans hoff, hspec.trans ?_⟩
                rw [lookup_advance_self h w ht]
                simp

/-- What a restart does before its launch: a refused one may have moved the task, one that goes
on has queued it. -/
theorem prepareRestart_spec {id : String} {w w' : World} {r : Except Response Task}
    (hp : prepareRestart h id w = (w', r)) :
    (∃ ts, w'.mem = { w.mem with tasks := ts } ∧ KeyMap.Off id w.mem.tasks ts) ∧
      (id ∈ w.mem.runtimes → w'.mem = w.mem ∧ ∃ e, r = .error e) ∧
      ∀ requeued, r = .ok requeued → id ∉ w.mem.runtimes ∧
        w'.mem.tasks.lookup id = some requeued ∧ requeued.state = .queued ∧
        ∃ t, w.mem.tasks.lookup id = some t ∧ requeued.spec = t.spec := by
  unfold prepareRestart at hp
  dsimp only at hp
  split at hp
  · obtain ⟨rfl, rfl⟩ := Prod.mk.inj hp
    exact ⟨⟨_, rfl, .refl _ _⟩, fun _ => ⟨rfl, _, rfl⟩, by simp⟩
  · next hid =>
    rw [ask_mem] at hid hp
    cases ht : w.mem.tasks.lookup id with
    | none =>
        rw [ht] at hp
        obtain ⟨rfl, rfl⟩ := Prod.mk.inj hp
        exact ⟨⟨_, rfl, .refl _ _⟩, fun hin => absurd hin hid, by simp⟩
    | some t =>
        rw [ht] at hp
        dsimp only at hp
        split at hp
        · obtain ⟨rfl, rfl⟩ := Prod.mk.inj hp
          exact ⟨⟨_, rfl, .refl _ _⟩, fun hin => absurd hin hid, by simp⟩
        · -- the tasks change off `id` not at all, whether it ends up queued or not
          obtain ⟨ts, hmem, hoff, hspec⟩ := forceRequeue_mem h id (h.now w.calls) 6 w.ask
          generalize forceRequeue h id (h.now w.calls) 6 w.ask = w₁ at hp hmem
          have hts : w₁.mem.tasks = ts := by rw [hmem]
          rw [← hts, ask_mem, ht] at hspec
          split at hp
          · obtain ⟨rfl, rfl⟩ := Prod.mk.inj hp
            exact ⟨⟨ts, hmem, hoff⟩, fun hin => absurd hin hid, by simp⟩
          · next requeued hr =>
            rw [hr] at hspec
            split at hp
            · obtain ⟨rfl, rfl⟩ := Prod.mk.inj hp
              exact ⟨⟨ts, hmem, hoff⟩, fun hin => absurd hin hid, by simp⟩
            · next hq =>
              obtain ⟨rfl, rfl⟩ := Prod.mk.inj hp
              refine ⟨⟨ts, hmem, hoff⟩, fun hin => absurd hin hid, fun u hu => ?_⟩
              obtain rfl := Except.ok.inj hu
              exact ⟨hid, hr, not_not.mp hq, t, rfl, Option.some.inj hspec⟩

end Frame

end MemMux
