/-
MemMux/Store.lean

The durable store (`memmux-store/src/lib.rs`) as tables and statements.

Every SQL statement of the source that changes a table is one constructor of `Stmt`, because each
commits on its own: `delete_task` is three of them.  `Tables.apply` says what a committed
statement does, and the loaders read the tables back.  Columns hold `i64` timestamps; JSON
columns hold the value they encode.

A task row carries the id of its specification as its key (`TaskTable.keyed`), since the only
statement that inserts one takes both from the same task.
-/
import Mathlib.Data.List.Sort
import MemMux.KeyMap
import MemMux.Budget

namespace MemMux

/-! ### Records -/

/-- A scalar of a JSON object written by the daemon. -/
inductive JsonValue
  | num (n : Int)
  | str (s : String)
  | bool (b : Bool)
  | null
  deriving DecidableEq, Repr

/-- The JSON objects the daemon writes are flat. -/
abbrev JsonObject := List (String × JsonValue)

/-- An event to append to the log. -/
structure EventInput where
  taskId : Option String
  tsMs : UInt64
  category : String
  eventType : String
  severity : String
  source : String
  payload : Option JsonObject
  deriving DecidableEq, Repr

/-- A stored event with its assigned monotonic sequence. -/
structure StoredEvent extends EventInput where
  seq : UInt64
  deriving DecidableEq, Repr

/-- An explainable control decision: reason and resource evidence. -/
structure Decision where
  taskId : Option String
  tsMs : UInt64
  action : String
  reason : String
  evidence : Option JsonObject
  deriving DecidableEq, Repr

/-- A durable reference to a checkpoint. -/
structure CheckpointRef where
  taskId : String
  createdAtMs : UInt64
  artifactPath : Path
  integrity : String
  deriving DecidableEq, Repr

/-- A registered workspace: a git repository the daemon manages tasks under. -/
structure Workspace where
  id : String
  path : Path
  name : String
  createdAtMs : UInt64
  deriving DecidableEq, Repr

/-! ### Tables -/

structure TaskRow where
  repositoryId : String
  spec : TaskSpec
  state : TaskState
  createdAtMs : Int64
  updatedAtMs : Int64
  deriving DecidableEq, Repr

/-- The `tasks` table: rows by primary key, which is the id of the stored specification. -/
structure TaskTable where
  rows : KeyMap String TaskRow
  keyed : ∀ id row, rows.lookup id = some row → row.spec.id = id

structure TransitionRow where
  taskId : String
  fromState : TaskState
  toState : TaskState
  atMs : Int64
  reason : String
  deriving DecidableEq, Repr

structure EventRow where
  seq : Int64
  taskId : Option String
  tsMs : Int64
  category : String
  eventType : String
  severity : String
  source : String
  payload : Option JsonObject
  deriving DecidableEq, Repr

/-- `map_event`. -/
def EventRow.toStored (e : EventRow) : StoredEvent where
  taskId := e.taskId
  tsMs := e.tsMs.toUInt64
  category := e.category
  eventType := e.eventType
  severity := e.severity
  source := e.source
  payload := e.payload
  seq := e.seq.toUInt64

structure DecisionRow where
  taskId : Option String
  tsMs : Int64
  action : String
  reason : String
  evidence : Option JsonObject
  deriving DecidableEq, Repr

structure SampleRow where
  tsMs : Int64
  taskId : Option String
  rssBytes : Int
  accountedBytes : Int
  deriving DecidableEq, Repr

structure CheckpointRow where
  createdAtMs : Int64
  artifactPath : Path
  integrity : String
  deriving DecidableEq, Repr

structure WorkspaceRow where
  path : Path
  name : String
  createdAtMs : Int64
  deriving DecidableEq, Repr

/-- The tables of the store.  `transitions`, `events`, `decisions` and `samples` are in row-id
order. -/
structure Tables where
  tasks : TaskTable
  transitions : List TransitionRow
  events : List EventRow
  decisions : List DecisionRow
  samples : List SampleRow
  checkpoints : KeyMap String CheckpointRow
  workspaces : KeyMap String WorkspaceRow

/-- A freshly created store. -/
def Tables.empty : Tables where
  tasks := ⟨∅, by simp⟩
  transitions := []
  events := []
  decisions := []
  samples := []
  checkpoints := ∅
  workspaces := ∅

/-- The row an upsert of `t` leaves: a conflict updates the specification, the state and the
update time only. -/
def TaskRow.upsert (old : Option TaskRow) (t : Task) : TaskRow :=
  match old with
  | some row => { row with spec := t.spec, state := t.state, updatedAtMs := t.updatedAtMs.toInt64 }
  | none => ⟨t.spec.repository, t.spec, t.state, t.createdAtMs.toInt64, t.updatedAtMs.toInt64⟩

theorem TaskRow.upsert_spec (old : Option TaskRow) (t : Task) :
    (TaskRow.upsert old t).spec = t.spec := by
  cases old <;> rfl

theorem TaskRow.upsert_state (old : Option TaskRow) (t : Task) :
    (TaskRow.upsert old t).state = t.state := by
  cases old <;> rfl

namespace TaskTable

def upsert (tbl : TaskTable) (t : Task) : TaskTable where
  rows := tbl.rows.insert t.spec.id (TaskRow.upsert (tbl.rows.lookup t.spec.id) t)
  keyed := by
    intro id row h
    rw [KeyMap.lookup_insert_ite] at h
    split at h
    · next heq =>
      rw [← Option.some.inj h, TaskRow.upsert_spec]
      exact heq.symm
    · exact tbl.keyed id row h

def delete (tbl : TaskTable) (id : String) : TaskTable where
  rows := tbl.rows.erase id
  keyed := by
    intro id' row h
    rw [KeyMap.lookup_erase_ite] at h
    split at h
    · cases h
    · exact tbl.keyed id' row h

end TaskTable

/-! ### Statements -/

/-- One SQL statement, committed on its own. -/
inductive Stmt
  | upsertTask (t : Task)
  | recordTransition (id : String) (tr : StateTransition)
  | deleteTransitions (id : String)
  | deleteCheckpoints (id : String)
  | deleteTaskRow (id : String)
  | saveCheckpointRef (r : CheckpointRef)
  | appendEvent (ev : EventInput)
  | recordDecision (d : Decision)
  | recordSample (tsMs : UInt64) (taskId : Option String) (rssBytes accountedBytes : Nat)
  | saveWorkspace (w : Workspace)
  | deleteWorkspace (id : String)
  deriving DecidableEq, Repr

namespace Tables

/-- What a committed statement does. -/
def apply (tb : Tables) : Stmt → Tables
  | .upsertTask t => { tb with tasks := tb.tasks.upsert t }
  | .recordTransition id tr =>
      { tb with
          transitions := tb.transitions
            ++ [⟨id, tr.fromState, tr.toState, tr.atMs.toInt64, tr.reason⟩] }
  | .deleteTransitions id =>
      { tb with transitions := tb.transitions.filter (·.taskId ≠ id) }
  | .deleteCheckpoints id => { tb with checkpoints := tb.checkpoints.erase id }
  | .deleteTaskRow id => { tb with tasks := tb.tasks.delete id }
  | .saveCheckpointRef r =>
      { tb with
          checkpoints := tb.checkpoints.insert r.taskId
            ⟨r.createdAtMs.toInt64, r.artifactPath, r.integrity⟩ }
  | .appendEvent ev =>
      { tb with
          events := tb.events
            ++ [⟨Int64.ofNat (tb.events.length + 1), ev.taskId, ev.tsMs.toInt64, ev.category,
              ev.eventType, ev.severity, ev.source, ev.payload⟩] }
  | .recordDecision d =>
      { tb with
          decisions := tb.decisions
            ++ [⟨d.taskId, d.tsMs.toInt64, d.action, d.reason, d.evidence⟩] }
  | .recordSample ts id rss acc =>
      { tb with samples := tb.samples ++ [⟨ts.toInt64, id, asI64 rss, asI64 acc⟩] }
  | .saveWorkspace w =>
      let row : WorkspaceRow :=
        match tb.workspaces.lookup w.id with
        | some old => { old with path := w.path, name := w.name }
        | none => ⟨w.path, w.name, w.createdAtMs.toInt64⟩
      { tb with workspaces := tb.workspaces.insert w.id row }
  | .deleteWorkspace id => { tb with workspaces := tb.workspaces.erase id }

/-- Whether the constraints of the schema admit a statement: workspace paths are unique. -/
def accepts (tb : Tables) : Stmt → Bool
  | .saveWorkspace w =>
      tb.workspaces.entries.all fun e => e.1 == w.id || !(e.2.path == w.path)
  | _ => true

/-! ### Loaders -/

/-- The history of a task, in row-id order. -/
def loadHistory (tb : Tables) (id : String) : List StateTransition :=
  (tb.transitions.filter (·.taskId = id)).map fun r =>
    ⟨r.fromState, r.toState, r.atMs.toUInt64, r.reason⟩

/-- The task a row and its history stand for. -/
def taskOfRow (row : TaskRow) (history : List StateTransition) : Task where
  spec := row.spec
  state := row.state
  createdAtMs := row.createdAtMs.toUInt64
  updatedAtMs := row.updatedAtMs.toUInt64
  history := history

/-- Load one task (with its transition history) by id. -/
def loadTask (tb : Tables) (id : String) : Option Task :=
  (tb.tasks.rows.lookup id).map fun row => taskOfRow row (tb.loadHistory id)

/-- Load every task: the ids ordered by creation time, then each task. -/
def loadTasks (tb : Tables) : List Task :=
  let rows := tb.tasks.rows.entries.insertionSort fun a b =>
    a.2.createdAtMs ≤ b.2.createdAtMs
  rows.filterMap fun e => tb.loadTask e.1

/-- Load a task's checkpoint reference, if one exists. -/
def loadCheckpointRef (tb : Tables) (id : String) : Option CheckpointRef :=
  (tb.checkpoints.lookup id).map fun row =>
    ⟨id, row.createdAtMs.toUInt64, row.artifactPath, row.integrity⟩

/-- Load all registered workspaces (ordered by registration time). -/
def loadWorkspaces (tb : Tables) : List Workspace :=
  (tb.workspaces.entries.insertionSort fun a b => a.2.createdAtMs ≤ b.2.createdAtMs).map
    fun e => ⟨e.1, e.2.path, e.2.name, e.2.createdAtMs.toUInt64⟩

/-- `LIMIT n`; a negative one is none. -/
def sqlLimit {α : Type} (n : Int) (rows : List α) : List α :=
  if n < 0 then rows else rows.take n.toNat

/-- Read up to `limit` events with sequence greater than `afterSeq`.  Both are bound as `i64`. -/
def readEventsAfter (tb : Tables) (afterSeq : UInt64) (limit : Nat) : List StoredEvent :=
  (sqlLimit (asI64 limit) ((tb.events.filter fun e => afterSeq.toInt64 < e.seq).insertionSort
    fun a b => a.seq ≤ b.seq)).map (·.toStored)

/-! ### What the loaders see of a statement -/

variable (tb : Tables) (id : String)

theorem lookup_upsertTask (t : Task) :
    (tb.apply (.upsertTask t)).tasks.rows.lookup id
      = if id = t.spec.id then some (TaskRow.upsert (tb.tasks.rows.lookup t.spec.id) t)
        else tb.tasks.rows.lookup id :=
  KeyMap.lookup_insert_ite _ _ _ _

theorem lookup_deleteTaskRow (i : String) :
    (tb.apply (.deleteTaskRow i)).tasks.rows.lookup id
      = if id = i then none else tb.tasks.rows.lookup id :=
  KeyMap.lookup_erase_ite _ _ _

theorem loadHistory_recordTransition (i : String) (tr : StateTransition) :
    (tb.apply (.recordTransition i tr)).loadHistory id
      = if id = i then tb.loadHistory id ++ [tr] else tb.loadHistory id := by
  by_cases h : id = i
  · subst h
    simp [loadHistory, apply]
  · have hne : i ≠ id := fun e => h e.symm
    simp [loadHistory, apply, h, hne]

theorem loadHistory_deleteTransitions (i : String) :
    (tb.apply (.deleteTransitions i)).loadHistory id
      = if id = i then [] else tb.loadHistory id := by
  by_cases h : id = i
  · subst h
    simp [loadHistory, apply, List.filter_filter]
  · simp only [loadHistory, apply, if_neg h, List.filter_filter]
    congr 1
    refine List.filter_congr fun r _ => ?_
    by_cases hr : r.taskId = id
    · simp [hr, h]
    · simp [hr]

theorem lookup_saveCheckpointRef (r : CheckpointRef) :
    (tb.apply (.saveCheckpointRef r)).loadCheckpointRef id
      = if id = r.taskId then some r else tb.loadCheckpointRef id := by
  unfold loadCheckpointRef
  by_cases h : id = r.taskId
  · subst h
    simp [apply]
  · simp [apply, h]

theorem lookup_deleteCheckpoints (i : String) :
    (tb.apply (.deleteCheckpoints i)).loadCheckpointRef id
      = if id = i then none else tb.loadCheckpointRef id := by
  unfold loadCheckpointRef
  by_cases h : id = i
  · subst h
    simp [apply]
  · simp [apply, h]

/-- A row that is there loads as a task with its id, state and history. -/
theorem loadTask_eq_some_iff {t : Task} :
    tb.loadTask id = some t ↔
      ∃ row, tb.tasks.rows.lookup id = some row ∧ t = taskOfRow row (tb.loadHistory id) := by
  unfold loadTask
  rw [Option.map_eq_some_iff]
  constructor
  · rintro ⟨row, hrow, rfl⟩
    exact ⟨row, hrow, rfl⟩
  · rintro ⟨row, hrow, rfl⟩
    exact ⟨row, hrow, rfl⟩

theorem spec_id_of_loadTask {t : Task} (h : tb.loadTask id = some t) : t.spec.id = id := by
  obtain ⟨row, hrow, rfl⟩ := (loadTask_eq_some_iff tb id).mp h
  exact tb.tasks.keyed id row hrow

/-- A new row loads back as the task it was made from, with the history on record. -/
theorem taskOfRow_upsert_none (t : Task) (history : List StateTransition) :
    taskOfRow (TaskRow.upsert none t) history = { t with history := history } := by
  simp [taskOfRow, TaskRow.upsert]

/-- Updating a row keeps the creation time of the row. -/
theorem taskOfRow_upsert_some (row : TaskRow) (t : Task) (history : List StateTransition) :
    taskOfRow (TaskRow.upsert (some row) t) history
      = { t with createdAtMs := row.createdAtMs.toUInt64, history := history } := by
  simp [taskOfRow, TaskRow.upsert]

/-- **The task map built at boot is the loader, read as a map.** -/
theorem lookup_ofList_loadTasks :
    (KeyMap.ofList (tb.loadTasks.map fun t => (t.spec.id, t))).lookup id = tb.loadTask id := by
  refine KeyMap.lookup_ofList (fun k t => ?_) id
  simp only [loadTasks, List.mem_map, List.mem_filterMap, List.mem_insertionSort,
    Prod.mk.injEq]
  constructor
  · rintro ⟨t, ⟨e, -, he⟩, rfl, rfl⟩
    rwa [spec_id_of_loadTask tb e.1 he]
  · intro h
    obtain ⟨row, hrow, -⟩ := (loadTask_eq_some_iff tb _).mp h
    exact ⟨t, ⟨⟨k, row⟩, AList.mem_lookup_iff.mp hrow, h⟩, spec_id_of_loadTask tb k h, rfl⟩

end Tables

end MemMux
