/-
MemMux/Daemon.lean

The daemon as a transition system (`memmuxd/src/daemon.rs`, `server.rs`): boot, request dispatch,
and the runs of the whole.

The server holds one lock around every request and every pump, so the daemon's history is a
sequence of whole operations (`Input`).  An `Event` of a run is an operation, a restart of the
daemon on the same disk, or a crash in the middle of an operation: after the first `k` effects
of the log reached the disk, the next daemon boots from what is there.
-/
import MemMux.CheckpointJson
import MemMux.Pump
import MemMux.Run

namespace MemMux

variable (codec : CheckpointCodec) (h : Host)

/-! ### Boot -/

/-- The state of a daemon that has just opened the store: all tasks and workspaces are loaded,
everything else is empty. -/
def bootState (envelope : ResourceEnvelope) (root : Path) (tb : Tables) : DaemonState where
  envelope := envelope
  root := root
  tasks := KeyMap.ofList (tb.loadTasks.map fun t => (t.spec.id, t))
  runtimes := ∅
  histories := ∅
  workspaces := KeyMap.ofList (tb.loadWorkspaces.map fun ws => (ws.id, ws))
  worktrees := ∅
  lastRecycleCheckMs := 0
  samples := ∅
  usedBytes := 0
  lastSampleMs := 0
  seenPids := ∅
  escapedReported := []
  attributedFraction := 1.0
  lastPressureCheckMs := 0
  lastSwapUsedBytes := none
  pressureStage := .normal
  reservations := ∅
  pendingAdmission := []
  queuedReasons := ∅
  seq := 0

/-- Boot a daemon on what a journal left on disk. -/
def boot (envelope : ResourceEnvelope) (root : Path) (disk : Journal Disk Effect) : World :=
  let m := bootState envelope root disk.state.tables
  audit h none "recovered"
    ("reconstructed " ++ toString m.tasks.keys.length
      ++ " task(s) from the durable store on boot") none
    { mem := m, durable := disk, procs := h.table, calls := 0 }

/-- A disk no daemon has written to yet. -/
def freshDisk (repos : List Path) : Journal Disk Effect :=
  ⟨⟨Tables.empty, ∅, ⟨repos, [], []⟩⟩, []⟩

/-! ### Workspaces and read-only requests -/

/-- The git repository root containing `path`. -/
def gitToplevel (path : Path) (w : World) : Option Path :=
  ((h.git w.calls path ["rev-parse", "--show-toplevel"]).map trim).filter (· ≠ "")

def workspaceView (m : DaemonState) (ws : Workspace) : WorkspaceView where
  id := ws.id
  path := ws.path
  name := ws.name
  createdAtMs := ws.createdAtMs
  taskCount := ((KeyMap.values m.tasks).filter fun t => t.spec.repository = ws.id).length

/-- Register a folder as a workspace, validating it is a git repository. -/
def addWorkspace (path : Path) (w : World) : World × Response :=
  match gitToplevel h path w with
  | none => (w.ask, .error ("not a git repository: " ++ path))
  | some toplevel =>
      let w := w.ask
      let id := repoIdFor toplevel
      let createdAtMs := match w.mem.workspaces.lookup id with
        | some old => old.createdAtMs
        | none => h.now w.calls
      let ws : Workspace := ⟨id, toplevel, (Path.fileName toplevel).getD "workspace", createdAtMs⟩
      let w := w.ask
      if executes h (.saveWorkspace ws) w then
        let w := exec h (.saveWorkspace ws) w
        let w : World :=
          { w with mem := { w.mem with workspaces := w.mem.workspaces.insert id ws } }
        let w := event h none "workspace" "workspace_added" "info" w
        let w := audit h none "workspace_added"
          ("registered workspace " ++ ws.name ++ " at " ++ ws.path) none w
        (w, .workspace (workspaceView w.mem ws))
      else (exec h (.saveWorkspace ws) w, .error ("store error: " ++ h.failure w.calls))

/-- Remove a registered workspace.  Tasks already created under it are unaffected. -/
def removeWorkspace (id : String) (w : World) : World × Response :=
  if id ∉ w.mem.workspaces then (w, .error ("no such workspace: " ++ id))
  else
    let w : World := { w with mem := { w.mem with workspaces := w.mem.workspaces.erase id } }
    let w := exec h (.deleteWorkspace id) w
    (event h none "workspace" "workspace_removed" "info" w, .ok)

/-- A task view with the latest memory sample overlaid. -/
def taskView (m : DaemonState) (t : Task) : TaskView :=
  { view t with
      rssBytes := ((m.samples.lookup t.spec.id).map (·.rssBytes)).getD 0
      accountedBytes := ((m.samples.lookup t.spec.id).map (·.accountedBytes)).getD 0
      queuedReason := m.queuedReasons.lookup t.spec.id }

def pressureView (m : DaemonState) : PressureView :=
  let utilization := m.envelope.utilization m.usedBytes
  let hardLimit := decide (m.envelope.agentBudgetBytes < m.usedBytes)
  { agentBudgetBytes := m.envelope.agentBudgetBytes
    usedBytes := m.usedBytes
    utilizationPct := utilizationPct utilization
    stage := (PressureStage.classify utilization false hardLimit).debug }

/-- The values of a map in key order, as a `BTreeMap` is walked. -/
def sortedValues {β : Type} (m : KeyMap String β) : List β :=
  (m.entries.insertionSort fun a b => a.1 ≤ b.1).map (·.2)

/-- The answer to a request that changes nothing. -/
def answer (r : Request) (w : World) : Response :=
  match r with
  | .daemonInfo =>
      .daemonInfo ⟨"0.1.0", "0.9.1", w.mem.tasks.keys.length, w.mem.envelope.agentBudgetBytes⟩
  | .getTask id =>
      match w.mem.tasks.lookup id with
      | some t => .task (taskView w.mem t)
      | none => .error ("no such task: " ++ id)
  | .listTasks => .tasks ((sortedValues w.mem.tasks).map (taskView w.mem))
  | .listWorkspaces => .workspaces ((sortedValues w.mem.workspaces).map (workspaceView w.mem))
  | .systemPressure => .pressure (pressureView w.mem)
  | .readEvents afterSeq limit => .events (w.disk.tables.readEventsAfter afterSeq limit)
  | .getScreen id =>
      if id ∈ w.mem.runtimes then .screen (h.screen id) else .error ("task not running: " ++ id)
  | .readHistory id cursor limit =>
      if id ∈ w.mem.histories then
        match h.page id cursor limit with
        | some page => .history page
        | none => .error "history error"
      else .history ⟨[], cursor, 0⟩
  | _ => .error "attach must be handled as a stream"

/-- Dispatch a request to its handler. -/
def handle (r : Request) (w : World) : World × Response :=
  match r with
  | .createTask req => createTask h req w
  | .terminateTask id => terminate h id w
  | .forgetTask id => forget h id w
  | .restartTask id => restart h id w
  | .hibernateTask id => hibernate codec h id w
  | .resumeTask id => resume codec h id w
  | .recycleTask id => recycle codec h id w
  | .addWorkspace path => addWorkspace h path w
  | .removeWorkspace id => removeWorkspace h id w
  | .startTask id => startTask h id w
  | .daemonInfo => (w, answer h .daemonInfo w)
  | .getTask id => (w, answer h (.getTask id) w)
  | .listTasks => (w, answer h .listTasks w)
  | .listWorkspaces => (w, answer h .listWorkspaces w)
  | .systemPressure => (w, answer h .systemPressure w)
  | .readEvents afterSeq limit => (w, answer h (.readEvents afterSeq limit) w)
  | .getScreen id => (w, answer h (.getScreen id) w)
  | .readHistory id cursor limit => (w, answer h (.readHistory id cursor limit) w)
  | .attach id => (w, answer h (.attach id) w)

/-! ### Runs -/

/-- One operation of the daemon: a client request or a tick of the pump timer. -/
inductive Input
  | request (r : Request)
  | tick
  deriving DecidableEq, Repr

/-- An operation begins: the host's answers start over, and the process table is as the host has
it. -/
def World.begin (w : World) : World := { w with procs := h.table, calls := 0 }

/-- One whole operation. -/
def perform (i : Input) (w : World) : World :=
  match i with
  | .request r => (handle codec h r (w.begin h)).1
  | .tick => pump codec h (h.now 0) ((w.begin h).ask)

/-- One event of a run. -/
inductive Event
  | op (h : Host) (i : Input)
  | reboot (h : Host)
  | crash (h : Host) (i : Input) (k : Nat) (h' : Host)

/-- What an event does to the world.  A crash during an operation leaves the effects before it and
the first `k` of its own. -/
def next (w : World) : Event → World
  | .op h i => perform codec h i w
  | .reboot h => boot h w.mem.envelope w.mem.root w.durable
  | .crash h i k h' =>
      boot h' w.mem.envelope w.mem.root
        ((perform codec h i w).durable.cut (w.durable.log.length + k))

/-- The world after the events `es`. -/
abbrev runs (w : World) (es : List Event) : World := Run.run (next codec) w es

/-- A state some run reaches from some boot. -/
def Reachable (w : World) : Prop :=
  ∃ h envelope root disk es, w = runs codec (boot h envelope root disk) es

/-! ### A small run

A host on which everything succeeds, and a task that is created and restarted on it: the concrete
runs of the development start from here. -/

/-- A host whose answers never change: every write commits, every lock is free, every git query
succeeds on a clean tree, and a launched provider gets pid 100 and stays up. -/
def steadyHost : Host where
  table := []
  now _ := 1000
  commit _ := true
  makeDir _ := true
  writeFile _ := true
  lock _ := true
  git _ _ _ := some ""
  failure _ := "os error"
  getEnv _ := none
  spawn _ := some (some 100)
  running _ := true
  sampler _ := true
  hangup _ _ := false
  ignoresTerm _ := false
  swap _ := none
  evicted _ := 0
  history _ := some 0
  screen _ := ⟨[], 0, 0, true⟩
  page _ _ _ := none
  order _ ids := ids
  order_perm _ ids := .refl ids

/-- A host of 8 GiB: the default reserves leave 512 MiB, less than any class needs. -/
def smallHost : ResourceEnvelope := .withDefaultReserves (8 * gib) (by decide)

/-- A request for a Claude Code task in `/repo`. -/
def fixLoginRequest : CreateTaskRequest where
  title := "fix login"
  repositoryPath := "/repo"
  provider := "claude-code"
  baseBranch := "main"
  resourceClass := none
  priority := none
  command := none

/-- The id `fixLoginRequest` gets on the steady host. -/
def fixLogin : String := newTaskId 1000 1

/-- A task is created, and restarted instead of started. -/
def createAndRestart : List Event :=
  [.op steadyHost (.request (.createTask fixLoginRequest)),
    .op steadyHost (.request (.restartTask fixLogin))]

/-- A task that is created, restarted and running. -/
def runningWorld : World :=
  runs serdeJson (boot steadyHost smallHost "/memmux" (freshDisk ["/repo"])) createAndRestart

theorem runningWorld_reachable : Reachable serdeJson runningWorld :=
  ⟨steadyHost, smallHost, "/memmux", freshDisk ["/repo"], createAndRestart, rfl⟩

end MemMux
