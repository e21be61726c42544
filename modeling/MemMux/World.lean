/-
MemMux/World.lean

The daemon together with the world it acts on: its in-memory state (`DaemonState` of
`memmuxd/src/daemon.rs`), the disk, and the process table.

A `World` holds all three.  The disk is a `Journal`: everything the daemon does to the outside
is an `Effect`, appended to the log in the order it happens, and the disk is the replay of
that log.  A crash therefore leaves the replay of a prefix.

What the outside answers (clock, SQLite, file system, git, process launches, the process
sampler) is given by a `Host`.  Its functions take the number of calls made so far in the
operation, so a host may answer every call differently and any call may fail; it also says in
which order a hash map is walked.  Primitives are written as one record update each, so that
everything they leave alone is left alone by definition.
-/
import MemMux.Adapter
import MemMux.Journal
import MemMux.ProcessTree
import MemMux.Proto
import MemMux.Worktree

namespace MemMux

/-! ### State of the daemon -/

/-- A task's latest memory sample. -/
structure TaskSample where
  rssBytes : Nat
  accountedBytes : Nat
  deriving DecidableEq, Repr

/-- A launched provider session.  `cwd` is the working directory of its process. -/
structure RuntimeInstance where
  provider : Provider
  pid : Option Nat
  cwd : Option Path
  deriving DecidableEq, Repr

/-- The in-memory state of the daemon.  `histories` keeps the line count of each open history;
the captured lines themselves are not part of this model; `pendingAdmission` and `escapedReported` are
sets, and each list of `seenPids` is one. -/
structure DaemonState where
  envelope : ResourceEnvelope
  root : Path
  tasks : KeyMap String Task
  runtimes : KeyMap String RuntimeInstance
  histories : KeyMap String UInt64
  workspaces : KeyMap String Workspace
  worktrees : KeyMap String WorktreeHandle
  lastRecycleCheckMs : UInt64
  samples : KeyMap String TaskSample
  usedBytes : Nat
  lastSampleMs : UInt64
  seenPids : KeyMap String (List Pid)
  escapedReported : List Pid
  attributedFraction : Float
  lastPressureCheckMs : UInt64
  lastSwapUsedBytes : Option Nat
  pressureStage : PressureStage
  reservations : KeyMap String Reservation
  pendingAdmission : List String
  queuedReasons : KeyMap String String
  seq : UInt64

/-! ### Disk and effects -/

/-- What survives the daemon: the store, the checkpoint artifacts and the git state. -/
structure Disk where
  tables : Tables
  files : KeyMap Path (List UInt8)
  git : GitDisk

/-- One thing the daemon does to the outside. -/
inductive Effect
  /-- a statement committed -/
  | commit (q : Stmt)
  /-- a statement SQLite refused -/
  | refuse (q : Stmt)
  /-- a checkpoint artifact was written -/
  | writeArtifact (path : Path) (bytes : List UInt8)
  /-- writing an artifact failed and left it truncated -/
  | tornArtifact (path : Path)
  /-- the repository state of `dir` was read for a checkpoint of `id` -/
  | capture (id : String) (dir : Path)
  /-- a provider launch was attempted for `id` -/
  | spawn (id : String) (cwd : Option Path) (started : Bool)
  /-- the provider of `id` was killed -/
  | stop (id : String) (pid : Option Pid)
  /-- `SIGTERM` (or `SIGKILL`) was sent to `pid` -/
  | signal (pid : Pid) (kill : Bool)
  /-- `git status --porcelain` was run in a worktree, and what it printed -/
  | gitStatus (path : Path) (printed : Option String)
  | worktreeAdd (repo : Path) (branch : String) (path : Path)
  | worktreeRemove (path : Path)
  deriving DecidableEq, Repr

instance : Replay Disk Effect where
  apply d
    | .commit q => { d with tables := d.tables.apply q }
    | .writeArtifact path bytes => { d with files := d.files.insert path bytes }
    | .tornArtifact path => { d with files := d.files.insert path [] }
    | .worktreeAdd repo branch path => { d with git := d.git.add repo branch path }
    | .worktreeRemove path => { d with git := d.git.remove path }
    | .refuse _ | .capture _ _ | .spawn _ _ _ | .stop _ _ | .signal _ _ | .gitStatus _ _ => d

/-- What the outside answers during one operation; the first argument of each function is the
number of calls made so far. -/
structure Host where
  /-- the process table when the operation starts -/
  table : List ProcessSample
  now : Nat → UInt64
  commit : Nat → Bool
  makeDir : Nat → Bool
  writeFile : Nat → Bool
  lock : Nat → Bool
  /-- standard output of a read-only git query, if it succeeds -/
  git : Nat → Path → List String → Option String
  /-- the text of an operating-system error -/
  failure : Nat → String
  getEnv : String → Option String
  /-- the pid of a launched provider, or nothing when the launch fails -/
  spawn : Nat → Option (Option Nat)
  running : Nat → Bool
  /-- whether the process table can be sampled -/
  sampler : Nat → Bool
  /-- the processes that die with a provider's terminal -/
  hangup : Nat → Pid → Bool
  ignoresTerm : Pid → Bool
  swap : Nat → Option Nat
  /-- how many lines a capture buffer evicts -/
  evicted : Nat → UInt64
  /-- the lines on disk when a history is opened, if it can be -/
  history : Nat → Option UInt64
  screen : String → ScreenView
  page : String → UInt64 → Nat → Option HistoryPage
  /-- the order in which a hash map's keys are visited -/
  order : Nat → List String → List String
  order_perm : ∀ n xs, (order n xs).Perm xs

/-- The daemon and what it acts on. -/
structure World where
  mem : DaemonState
  durable : Journal Disk Effect
  procs : List ProcessSample
  calls : Nat

/-- The disk as it is now. -/
def World.disk (w : World) : Disk := w.durable.state

/-! ### Calls and effects -/

namespace World

/-- A call to the outside that leaves no trace. -/
def ask (w : World) : World := { w with calls := w.calls + 1 }

/-- An effect on the outside. -/
def note (e : Effect) (w : World) : World := { w with durable := w.durable.write e }

end World

section Primitives

variable (h : Host)

/-- Whether a statement commits: SQLite may fail, and the schema may refuse it. -/
def executes (q : Stmt) (w : World) : Bool := h.commit w.calls && w.disk.tables.accepts q

/-- Run one statement against the store. -/
def exec (q : Stmt) (w : World) : World :=
  { w with
      durable := w.durable.write (if executes h q w then .commit q else .refuse q)
      calls := w.calls + 1 }

/-- Append an event with a payload. -/
def appendEvent (taskId : Option String) (category eventType severity : String)
    (payload : Option JsonObject) (w : World) : World :=
  exec h (.appendEvent ⟨taskId, h.now w.calls, category, eventType, severity, "daemon", payload⟩) w

def event (taskId : Option String) (category eventType severity : String) (w : World) : World :=
  appendEvent h taskId category eventType severity none w

def audit (taskId : Option String) (action reason : String) (evidence : Option JsonObject)
    (w : World) : World :=
  exec h (.recordDecision ⟨taskId, h.now w.calls, action, reason, evidence⟩) w

/-! ### Task transitions -/

/-- What `transition` makes of task `id`, when the task is there and the move is legal. -/
def stepTask (id : String) (next : TaskState) (reason : String) (now : UInt64)
    (tasks : KeyMap String Task) : Option (Task × StateTransition) :=
  match tasks.lookup id with
  | none => none
  | some t =>
      match t.transition next reason now with
      | .ok r => some r
      | .error _ => none

/-- `if let Ok(t) = task.transition(..) { let _ = store.record_transition(id, &t); }` -/
def advance (id : String) (next : TaskState) (reason : String) (now : UInt64) (w : World) :
    World :=
  let step := stepTask id next reason now w.mem.tasks
  { w with
      mem := { w.mem with
        tasks := match step with
          | some (t, _) => w.mem.tasks.insert id t
          | none => w.mem.tasks }
      durable := match step with
        | some (_, tr) =>
            w.durable.write (if executes h (.recordTransition id tr) w
              then .commit (.recordTransition id tr) else .refuse (.recordTransition id tr))
        | none => w.durable
      calls := w.calls + 1 }

/-- `let _ = store.upsert_task(task);` for the task `id` in memory. -/
def saveTask (id : String) (w : World) : World :=
  { w with
      durable := match w.mem.tasks.lookup id with
        | some t =>
            w.durable.write (if executes h (.upsertTask t) w
              then .commit (.upsertTask t) else .refuse (.upsertTask t))
        | none => w.durable
      calls := w.calls + 1 }

/-! ### Processes -/

/-- The process table after some processes are gone: their children are reparented to pid 1. -/
def exitProcesses (gone : Pid → Bool) (procs : List ProcessSample) : List ProcessSample :=
  (procs.filter fun s => !gone s.pid).map fun s => if gone s.ppid then { s with ppid := 1 } else s

/-- Send a signal to every pid of a list, in order. -/
def signalAll (kill : Bool) (pids : List Pid) (w : World) : World :=
  { w with
      durable := w.durable.writeAll (pids.map (.signal · kill))
      procs := exitProcesses (fun p => decide (p ∈ pids) && (kill || !h.ignoresTerm p)) w.procs }

/-- `rt.stop()`: kill the provider; its terminal closes, and others may die of that. -/
def stopRuntime (id : String) (rt : RuntimeInstance) (w : World) : World :=
  let root := rt.pid.map asI32
  { w with
      durable := w.durable.write (.stop id root)
      procs := exitProcesses (fun p => root == some p || h.hangup w.calls p) w.procs
      calls := w.calls + 1 }

/-- The outcome of a termination sweep. -/
structure TerminationReport where
  targeted : List Pid
  survivors : List Pid
  usedSigkill : Bool
  deriving DecidableEq, Repr

namespace TerminationReport

/-- Whether every targeted process was reclaimed. -/
def fullyCleaned (r : TerminationReport) : Bool := r.survivors.isEmpty

/-- `cleanup_fraction() * 100.0` with no decimals (rounded half to even). -/
def cleanupPercent (r : TerminationReport) : String :=
  if r.targeted.isEmpty then "100"
  else
    let total := r.targeted.length
    let cleaned := (total - r.survivors.length) * 100
    let rest := cleaned % total
    let up := total < 2 * rest || (2 * rest = total && cleaned / total % 2 = 1)
    toString (cleaned / total + if up then 1 else 0)

end TerminationReport

/-- SIGTERM, grace, SIGKILL for an explicit set of pids; `none` when a snapshot fails. -/
def terminatePids (pids : List Pid) (w : World) : World × Option TerminationReport :=
  let targeted := ((pids.filter (1 < ·)).dedup).insertionSort (· ≤ ·)
  if targeted = [] then (w, some ⟨targeted, [], false⟩)
  else
    let w := signalAll h false targeted.reverse w
    if !h.sampler w.calls then (w.ask, none)
    else
      let alive := ProcessTree.fromSamples w.procs
      let survivors := targeted.filter fun p => (alive.get p).isSome
      if survivors = [] then (w.ask, some ⟨targeted, [], false⟩)
      else
        let w := signalAll h true survivors w.ask
        if !h.sampler w.calls then (w.ask, none)
        else
          let after := ProcessTree.fromSamples w.procs
          (w.ask, some ⟨targeted, survivors.filter fun p => (after.get p).isSome, true⟩)

/-- Terminate the process subtree rooted at `root`, sampled now; `none` for an error. -/
def terminateSubtree (root : Pid) (w : World) : World × Option TerminationReport :=
  if root ≤ 1 then (w, none)
  else if !h.sampler w.calls then (w.ask, none)
  else terminatePids h (terminationTargets (ProcessTree.fromSamples w.procs) root) w.ask

/-- Resident bytes of the process subtree rooted at `pid` (0 if it cannot be sampled). -/
def sampleSubtreeRss (pid : Nat) (w : World) : Nat :=
  if h.sampler w.calls then (ProcessTree.fromSamples w.procs).subtreeRssBytes (asI32 pid) else 0

/-- The subtree bytes of the provider of `id`, 0 without one. -/
def runtimeRss (id : String) (w : World) : Nat :=
  match (w.mem.runtimes.lookup id).bind (·.pid) with
  | some pid => sampleSubtreeRss h pid w
  | none => 0

/-! ### Histories -/

/-- Flush the scrollback evicted by a provider into its history, when that is open. -/
def flushHistory (id : String) (w : World) : World :=
  { w with
      mem := { w.mem with
        histories := match w.mem.histories.lookup id with
          | some total => w.mem.histories.insert id (total + h.evicted w.calls)
          | none => w.mem.histories }
      calls := w.calls + 1 }

/-- Install a live runtime and ensure its history store exists. -/
def installRuntime (id : String) (rt : RuntimeInstance) (w : World) : World :=
  { w with
      mem := { w.mem with
        runtimes := w.mem.runtimes.insert id rt
        histories := match w.mem.histories.lookup id, h.history w.calls with
          | none, some total => w.mem.histories.insert id total
          | _, _ => w.mem.histories }
      calls := w.calls + 1 }

/-! ### Reservations -/

/-- Sum of predicted-peak reservations across admitted tasks. -/
def reservedBytes (m : DaemonState) : Nat :=
  wrapSum (KeyMap.values m.reservations |>.map (·.peakBytes))

/-- Release a task's budget reservation and clear its admission bookkeeping. -/
def releaseReservation (id : String) (w : World) : World :=
  { w with
      mem := { w.mem with
        reservations := w.mem.reservations.erase id
        pendingAdmission := w.mem.pendingAdmission.filter (· ≠ id)
        queuedReasons := w.mem.queuedReasons.erase id } }

/-- Reserve a task's predicted peak against the budget. -/
def reserve (id : String) (cls : ResourceClass) (w : World) : World :=
  { w with
      mem := { w.mem with reservations := w.mem.reservations.insert id (classReservation cls) } }

end Primitives

/-! ### What the primitives leave alone -/

section Frame

variable (h : Host) (w : World)

@[simp] theorem ask_mem : w.ask.mem = w.mem := rfl

@[simp] theorem note_mem (e : Effect) : (w.note e).mem = w.mem := rfl

@[simp] theorem exec_mem (q : Stmt) : (exec h q w).mem = w.mem := rfl

@[simp] theorem appendEvent_mem (id : Option String) (c t s : String) (p : Option JsonObject) :
    (appendEvent h id c t s p w).mem = w.mem := rfl

@[simp] theorem event_mem (id : Option String) (c t s : String) :
    (event h id c t s w).mem = w.mem := rfl

@[simp] theorem audit_mem (id : Option String) (a r : String) (e : Option JsonObject) :
    (audit h id a r e w).mem = w.mem := rfl

@[simp] theorem saveTask_mem (id : String) : (saveTask h id w).mem = w.mem := rfl

@[simp] theorem signalAll_mem (kill : Bool) (pids : List Pid) :
    (signalAll h kill pids w).mem = w.mem := rfl

@[simp] theorem stopRuntime_mem (id : String) (rt : RuntimeInstance) :
    (stopRuntime h id rt w).mem = w.mem := rfl

@[simp] theorem terminatePids_mem (pids : List Pid) : (terminatePids h pids w).1.mem = w.mem := by
  unfold terminatePids
  dsimp only
  split_ifs <;> rfl

@[simp] theorem terminateSubtree_mem (root : Pid) :
    (terminateSubtree h root w).1.mem = w.mem := by
  unfold terminateSubtree
  split_ifs <;> simp

/-- **One transition, seen from the task map**: the task is moved if the move is legal, every
other task stays. -/
theorem lookup_advance (id : String) (next : TaskState) (reason : String) (now : UInt64)
    (j : String) :
    (advance h id next reason now w).mem.tasks.lookup j
      = if j = id then (w.mem.tasks.lookup id).map (·.attempt next reason now)
        else w.mem.tasks.lookup j := by
  show (match stepTask id next reason now w.mem.tasks with
    | some (t, _) => w.mem.tasks.insert id t
    | none => w.mem.tasks).lookup j = _
  unfold stepTask Task.attempt
  cases hid : w.mem.tasks.lookup id with
  | none =>
      by_cases hj : j = id
      · subst hj
        simp [hid]
      · simp [hj]
  | some t =>
      cases htr : t.transition next reason now with
      | ok r => simp [KeyMap.lookup_insert_ite, htr]
      | error e =>
          by_cases hj : j = id
          · subst hj
            simp [hid, htr]
          · simp [hj, htr]

theorem lookup_advance_self {id : String} {t : Task} (ht : w.mem.tasks.lookup id = some t)
    (next : TaskState) (reason : String) (now : UInt64) :
    (advance h id next reason now w).mem.tasks.lookup id
      = some (t.attempt next reason now) := by
  rw [lookup_advance, if_pos rfl, ht]
  rfl

theorem off_advance (id : String) (next : TaskState) (reason : String) (now : UInt64) :
    KeyMap.Off id w.mem.tasks (advance h id next reason now w).mem.tasks := by
  intro j hj
  rw [lookup_advance, if_neg hj]

theorem mem_tasks_advance (id : String) (next : TaskState) (reason : String) (now : UInt64)
    (j : String) : j ∈ (advance h id next reason now w).mem.tasks ↔ j ∈ w.mem.tasks := by
  simp only [← AList.lookup_isSome, lookup_advance]
  by_cases hj : j = id
  · subst hj
    simp
  · simp [hj]

end Frame

end MemMux
