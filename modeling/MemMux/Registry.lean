/-
MemMux/Registry.lean

Changes to the registry that are refused (`create_task`, `forget` and `add_workspace` in
`memmuxd/src/daemon.rs`, `delete_task` in `memmux-store/src/lib.rs`).

`create_task` and `add_workspace` store first and touch their maps afterwards.  `forget` goes the
other way, and its delete is three statements, each of which commits on its own.
`keepsOnError_iff` is the exact condition under which a request that answers with an error has
left everything as it was.
-/
import MemMux.Daemon

namespace MemMux

variable {codec : CheckpointCodec} {h : Host}

/-! ### The registry -/

/-- What is registered, in memory and in the store. -/
structure Registry where
  tasks : KeyMap String Task
  histories : KeyMap String UInt64
  workspaces : KeyMap String Workspace
  taskRows : TaskTable
  transitionRows : List TransitionRow
  checkpointRows : KeyMap String CheckpointRow
  workspaceRows : KeyMap String WorkspaceRow

/-- The registry of a world. -/
def World.registry (w : World) : Registry where
  tasks := w.mem.tasks
  histories := w.mem.histories
  workspaces := w.mem.workspaces
  taskRows := w.disk.tables.tasks
  transitionRows := w.disk.tables.transitions
  checkpointRows := w.disk.tables.checkpoints
  workspaceRows := w.disk.tables.workspaces

/-- The requests that register something, or forget it. -/
def Request.editsRegistry : Request → Bool
  | .createTask _ | .forgetTask _ | .addWorkspace _ => true
  | _ => false

/-- **A refused change leaves everything as it was.** -/
def KeepsOnError (codec : CheckpointCodec) (h : Host) (r : Request) (w : World) : Prop :=
  (handle codec h r w).2.isError = true → (handle codec h r w).1.registry = w.registry

/-! ### Statements that fail -/

theorem registry_exec_refused {q : Stmt} {w : World} (hq : executes h q w = false) :
    (exec h q w).registry = w.registry := by
  have hdisk : (exec h q w).disk = w.disk := by
    unfold exec World.disk
    rw [hq]
    exact Journal.state_write _ _
  unfold World.registry
  rw [hdisk]
  rfl

theorem keepsOnError_createTask (req : CreateTaskRequest) (w : World) :
    KeepsOnError codec h (.createTask req) w := by
  show (createTask h req w).2.isError = true → (createTask h req w).1.registry = w.registry
  unfold createTask
  split
  · exact fun _ => rfl
  · dsimp only
    split_ifs with hq
    · exact nofun
    · exact fun _ => registry_exec_refused (Bool.eq_false_iff.mpr hq)

theorem keepsOnError_addWorkspace (path : Path) (w : World) :
    KeepsOnError codec h (.addWorkspace path) w := by
  show (addWorkspace h path w).2.isError = true → (addWorkspace h path w).1.registry = w.registry
  unfold addWorkspace
  split
  · exact fun _ => rfl
  · dsimp only
    split_ifs with hq
    · exact nofun
    · exact fun _ => registry_exec_refused (Bool.eq_false_iff.mpr hq)

/-! ### Forgetting -/

/-- `forget` gets as far as its deletes: the task is registered, over, and without a provider. -/
def MayForget (id : String) (m : DaemonState) : Prop :=
  id ∉ m.runtimes ∧ ∃ t, m.tasks.lookup id = some t ∧ (t.state = .failed ∨ t.state = .terminated)

/-- The three statements of `delete_task` commit. -/
def Deletes (h : Host) (w : World) : Prop :=
  h.commit w.calls = true ∧ h.commit (w.calls + 1) = true ∧ h.commit (w.calls + 2) = true

theorem deleteTask_eq_true {id : String} {w : World} :
    (deleteTask h id w).2 = true ↔ Deletes h w := by
  have hexec : ∀ (q : Stmt) (w : World), (∀ tb : Tables, tb.accepts q = true) →
      executes h q w = h.commit w.calls := fun q w hq => by rw [executes, hq, Bool.and_true]
  unfold deleteTask Deletes
  rw [hexec _ _ fun _ => rfl]
  cases h.commit w.calls with
  | false => simp
  | true =>
      simp only [if_true, hexec (.deleteCheckpoints id) _ fun _ => rfl]
      show (if h.commit (w.calls + 1) = true then _ else _ : World × Bool).2 = true ↔ _
      cases h.commit (w.calls + 1) with
      | false => simp
      | true =>
          simp only [if_true, hexec (.deleteTaskRow id) _ fun _ => rfl, true_and]
          rfl

/-- **Forgetting keeps everything on an error** exactly if it never comes to a delete that fails. -/
theorem keepsOnError_forgetTask (id : String) (w : World) :
    KeepsOnError codec h (.forgetTask id) w ↔ (MayForget id w.mem → Deletes h w) := by
  show ((forget h id w).2.isError = true → (forget h id w).1.registry = w.registry) ↔ _
  unfold forget
  by_cases hrun : id ∈ w.mem.runtimes
  · rw [if_pos hrun]
    exact iff_of_true (fun _ => rfl) fun hf => absurd hrun hf.1
  rw [if_neg hrun]
  cases ht : w.mem.tasks.lookup id with
  | none =>
      refine iff_of_true (fun _ => rfl) ?_
      rintro ⟨-, t, ht', -⟩
      rw [ht] at ht'
      cases ht'
  | some t =>
      dsimp only
      by_cases hstate : t.state ≠ .failed ∧ t.state ≠ .terminated
      · rw [if_pos hstate]
        refine iff_of_true (fun _ => rfl) ?_
        rintro ⟨-, t', ht', hover⟩
        obtain rfl := Option.some.inj (ht.symm.trans ht')
        exact absurd hover (not_or.mpr hstate)
      · rw [if_neg hstate]
        have hforget : MayForget id w.mem := ⟨hrun, t, ht, by tauto⟩
        rw [forall_prop_of_true hforget]
        -- the maps are touched before the store is asked
        set w₁ : World := { w with
          mem := { w.mem with
            tasks := w.mem.tasks.erase id
            histories := w.mem.histories.erase id } } with hw₁
        have hdeletes : (deleteTask h id w₁).2 = true ↔ Deletes h w := deleteTask_eq_true
        rw [← hdeletes]
        have hmem := deleteTask_mem h w₁ id
        generalize deleteTask h id w₁ = r at hmem ⊢
        obtain ⟨w₂, deleted⟩ := r
        cases deleted with
        | true => exact iff_of_true nofun rfl
        | false =>
            refine iff_of_false (fun hkeep => ?_) Bool.false_ne_true
            have htasks : w₂.mem.tasks = w.mem.tasks := congrArg Registry.tasks (hkeep rfl)
            have hmem₂ : w₂.mem = w₁.mem := hmem
            have hgone : w₂.mem.tasks.lookup id = none := by
              rw [hmem₂]
              exact AList.lookup_erase _ _
            rw [htasks, ht] at hgone
            cases hgone

/-- The request never comes to a delete that fails. -/
def NoDeleteFails (h : Host) (r : Request) (w : World) : Prop :=
  match r with
  | .forgetTask id => MayForget id w.mem → Deletes h w
  | _ => True

/-- **A request to change the registry keeps everything on an error** exactly if it is not the
forgetting of a task one of whose three deletes fails. -/
theorem keepsOnError_iff (codec : CheckpointCodec) (h : Host) (r : Request)
    (hr : r.editsRegistry = true) (w : World) : KeepsOnError codec h r w ↔ NoDeleteFails h r w := by
  cases r with
  | createTask req => exact iff_of_true (keepsOnError_createTask req w) trivial
  | addWorkspace path => exact iff_of_true (keepsOnError_addWorkspace path w) trivial
  | forgetTask id => exact keepsOnError_forgetTask id w
  | _ => cases hr

/-- A store that refuses the second statement of an operation. -/
def lockedStore : Host := { steadyHost with commit := fun n => n != 1 }

/-- A task that was created and terminated. -/
def terminatedWorld : World :=
  runs serdeJson (boot steadyHost smallHost "/memmux" (freshDisk ["/repo"]))
    [.op steadyHost (.request (.createTask fixLoginRequest)),
      .op steadyHost (.request (.terminateTask fixLogin))]

theorem keepsOnError_terminatedWorld :
    KeepsOnError serdeJson lockedStore (.forgetTask fixLogin) (terminatedWorld.begin lockedStore)
      ↔ NoDeleteFails lockedStore (.forgetTask fixLogin) (terminatedWorld.begin lockedStore) :=
  keepsOnError_iff serdeJson lockedStore _ rfl _

/-- **A task is gone from memory, and the answer is an error**: its transitions are deleted, its
checkpoint is not. -/
theorem refused_forget_loses_task :
    ¬ KeepsOnError serdeJson lockedStore (.forgetTask fixLogin)
      (terminatedWorld.begin lockedStore) := by
  intro hkeep
  have htasks := congrArg (fun r => (r.tasks.lookup fixLogin).isSome) (hkeep (by decide +kernel))
  revert htasks
  decide +kernel

end MemMux
