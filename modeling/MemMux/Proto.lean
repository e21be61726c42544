/-
MemMux/Proto.lean

Requests, responses and views of the client protocol (`memmux-proto/src/lib.rs`), and the parsers
the daemon applies to request fields.

The two requests that page terminal content, `GetScreen` and `ReadHistory`, change nothing in
the daemon; their content comes from the capture pipeline and the `vt100` screen.
-/
import MemMux.Pressure
import MemMux.Store

namespace MemMux

structure CreateTaskRequest where
  title : String
  repositoryPath : Path
  provider : String
  baseBranch : String
  resourceClass : Option String
  priority : Option String
  command : Option (List String)
  deriving DecidableEq, Repr

inductive Request
  | daemonInfo
  | createTask (req : CreateTaskRequest)
  | getTask (id : String)
  | listTasks
  | terminateTask (id : String)
  | forgetTask (id : String)
  | restartTask (id : String)
  | hibernateTask (id : String)
  | resumeTask (id : String)
  | recycleTask (id : String)
  | addWorkspace (path : Path)
  | listWorkspaces
  | removeWorkspace (id : String)
  | systemPressure
  | readEvents (afterSeq : UInt64) (limit : Nat)
  | startTask (id : String)
  | getScreen (id : String)
  | readHistory (id : String) (cursor : UInt64) (limit : Nat)
  | attach (id : String)
  deriving DecidableEq, Repr

structure DaemonInfo where
  protocolVersion : String
  daemonVersion : String
  taskCount : Nat
  agentBudgetBytes : Nat
  deriving DecidableEq, Repr

structure TaskView where
  id : String
  title : String
  provider : String
  state : String
  repository : String
  baseBranch : String
  createdAtMs : UInt64
  updatedAtMs : UInt64
  rssBytes : Nat
  accountedBytes : Nat
  queuedReason : Option String
  deriving DecidableEq, Repr

structure WorkspaceView where
  id : String
  path : Path
  name : String
  createdAtMs : UInt64
  taskCount : Nat
  deriving DecidableEq, Repr

structure PressureView where
  agentBudgetBytes : Nat
  usedBytes : Nat
  utilizationPct : Nat
  stage : String
  deriving DecidableEq, Repr

structure ScreenView where
  rows : List String
  cursorRow : Nat
  cursorCol : Nat
  running : Bool
  deriving DecidableEq, Repr

structure HistoryPage where
  lines : List String
  nextCursor : UInt64
  total : UInt64
  deriving DecidableEq, Repr

inductive Response
  | daemonInfo (info : DaemonInfo)
  | task (v : TaskView)
  | tasks (vs : List TaskView)
  | pressure (v : PressureView)
  | events (es : List StoredEvent)
  | screen (v : ScreenView)
  | history (p : HistoryPage)
  | workspace (v : WorkspaceView)
  | workspaces (vs : List WorkspaceView)
  | ok
  | error (message : String)
  deriving DecidableEq, Repr

/-- The answer is an error. -/
def Response.isError : Response → Bool
  | .error _ => true
  | _ => false

/-! ### Parsing request fields -/

def parseProvider (slug : String) : Option Provider :=
  match slug with
  | "claude-code" | "claude" => some .claudeCode
  | "codex" => some .codex
  | "gemini-cli" | "gemini" => some .geminiCli
  | "opencode" => some .openCode
  | "generic" => some .generic
  | _ => none

def parseResourceClass (slug : String) : Option ResourceClass :=
  match slug with
  | "small" => some .small
  | "standard" => some .standard
  | "browser-heavy" => some .browserHeavy
  | "build-heavy" => some .buildHeavy
  | "custom" => some .custom
  | _ => none

def parsePriority (slug : String) : Option Priority :=
  match slug with
  | "low" => some .low
  | "normal" => some .normal
  | "high" => some .high
  | "urgent" => some .urgent
  | _ => none

/-- Every provider's slug names that provider again. -/
theorem parseProvider_slug (p : Provider) : parseProvider p.slug = some p := by
  cases p <;> rfl

/-- A human default title when none is given: `<provider> · <repo basename>`. -/
def autoTitle (provider : Provider) (repoPath : Path) : String :=
  let base := ((Path.fileName repoPath).filter (· ≠ "")).getD "repo"
  provider.slug ++ " · " ++ base

/-- The base view of a task. -/
def view (task : Task) : TaskView where
  id := task.spec.id
  title := task.spec.title
  provider := task.spec.provider.slug
  state := task.state.display
  repository := task.spec.repository
  baseBranch := task.spec.baseBranch
  createdAtMs := task.createdAtMs
  updatedAtMs := task.updatedAtMs
  rssBytes := 0
  accountedBytes := 0
  queuedReason := none

end MemMux
