/-
MemMux/Task.lean

Task specifications and the live task record (`memmux-core/src/task.rs`,
`memmux-core/src/runtime.rs`).

Only the fields of `TaskSpec` that the daemon reads are kept: `isolation`,
`dependencies`, `tools` and `policies` are always left at their defaults by
`create_task` and never looked at again.
-/
import MemMux.State
import MemMux.Text

namespace MemMux

/-! ### Enumerations of a specification -/

/-- A coding-agent provider MemMux can supervise. -/
inductive Provider
  | claudeCode | codex | geminiCli | openCode | generic
  deriving DecidableEq, Repr

/-- Stable, lower-case slug used in paths and on the wire. -/
def Provider.slug : Provider → String
  | .claudeCode => "claude-code"
  | .codex => "codex"
  | .geminiCli => "gemini-cli"
  | .openCode => "opencode"
  | .generic => "generic"

/-- Static resource class used to bootstrap reservations. -/
inductive ResourceClass
  | small | standard | browserHeavy | buildHeavy | custom
  deriving DecidableEq, Repr

/-- `format!("{:?}", class)`. -/
def ResourceClass.debug : ResourceClass → String
  | .small => "Small"
  | .standard => "Standard"
  | .browserHeavy => "BrowserHeavy"
  | .buildHeavy => "BuildHeavy"
  | .custom => "Custom"

/-- Scheduling priority.  Higher variants outrank lower ones. -/
inductive Priority
  | low | normal | high | urgent
  deriving DecidableEq, Repr

/-- The derived order of `Priority` is the order of its variants. -/
def Priority.rank : Priority → Nat
  | .low => 0
  | .normal => 1
  | .high => 2
  | .urgent => 3

/-! ### Specification and record -/

/-- The durable description of a unit of work. -/
structure TaskSpec where
  id : String
  repository : String
  repositoryPath : Path
  title : String
  provider : Provider
  baseBranch : String
  priority : Priority
  resourceClass : ResourceClass
  command : Option (List String)
  deriving DecidableEq, Repr

/-- Construct a minimal standard-class task with the defaults of `TaskSpec::new`. -/
def TaskSpec.new (id repository : String) (repositoryPath : Path) (title : String)
    (provider : Provider) (baseBranch : String) : TaskSpec where
  id := id
  repository := repository
  repositoryPath := repositoryPath
  title := title
  provider := provider
  baseBranch := baseBranch
  priority := .normal
  resourceClass := .standard
  command := none

/-- The live runtime record for a logical task. -/
structure Task where
  spec : TaskSpec
  state : TaskState
  createdAtMs : UInt64
  updatedAtMs : UInt64
  history : List StateTransition
  deriving DecidableEq, Repr

namespace Task

/-- Create a new task in the `Created` state. -/
def new (spec : TaskSpec) (nowMs : UInt64) : Task where
  spec := spec
  state := .created
  createdAtMs := nowMs
  updatedAtMs := nowMs
  history := []

/-- Attempt a state transition, recording it in history on success.  An illegal move leaves
the task as it was (the caller keeps the old value). -/
def transition (t : Task) (next : TaskState) (reason : String) (nowMs : UInt64) :
    Except IllegalTransition (Task × StateTransition) :=
  match t.state.transitionTo next with
  | .error e => .error e
  | .ok _ =>
      let tr : StateTransition := ⟨t.state, next, nowMs, reason⟩
      .ok ({ t with state := next, updatedAtMs := nowMs, history := t.history ++ [tr] }, tr)

/-- What a successful transition did: the move was legal, it was appended to the history, and
specification and creation time are untouched. -/
theorem transition_ok {t t' : Task} {next : TaskState} {reason : String} {now : UInt64}
    {tr : StateTransition} (h : t.transition next reason now = .ok (t', tr)) :
    t.state.canTransitionTo next ∧ tr = ⟨t.state, next, now, reason⟩ ∧
      t' = { t with state := next, updatedAtMs := now, history := t.history ++ [tr] } := by
  unfold transition TaskState.transitionTo at h
  by_cases hc : t.state.canTransitionTo next
  · rw [if_pos hc] at h
    obtain ⟨h₁, rfl⟩ := Prod.mk.inj (Except.ok.inj h)
    exact ⟨hc, rfl, h₁.symm⟩
  · rw [if_neg hc] at h
    cases h

/-- A legal transition goes through. -/
theorem transition_of_legal {t : Task} {next : TaskState} (reason : String) (now : UInt64)
    (hc : t.state.canTransitionTo next) :
    t.transition next reason now =
      .ok ({ t with
              state := next, updatedAtMs := now,
              history := t.history ++ [⟨t.state, next, now, reason⟩] },
            ⟨t.state, next, now, reason⟩) := by
  simp [transition, TaskState.transitionTo, hc]

/-- An illegal transition is refused. -/
theorem transition_of_illegal {t : Task} {next : TaskState} (reason : String) (now : UInt64)
    (hc : ¬ t.state.canTransitionTo next) :
    t.transition next reason now = .error ⟨t.state, next⟩ := by
  simp [transition, TaskState.transitionTo, hc]

/-- The task after an attempted transition whose refusal is ignored. -/
def attempt (t : Task) (next : TaskState) (reason : String) (nowMs : UInt64) : Task :=
  match t.transition next reason nowMs with
  | .ok (t', _) => t'
  | .error _ => t

theorem attempt_of_legal {t : Task} {next : TaskState} (reason : String) (now : UInt64)
    (hc : t.state.canTransitionTo next) :
    t.attempt next reason now =
      { t with
          state := next, updatedAtMs := now,
          history := t.history ++ [⟨t.state, next, now, reason⟩] } := by
  rw [attempt, transition_of_legal reason now hc]

theorem attempt_of_illegal {t : Task} {next : TaskState} (reason : String) (now : UInt64)
    (hc : ¬ t.state.canTransitionTo next) : t.attempt next reason now = t := by
  rw [attempt, transition_of_illegal reason now hc]

/-- An attempt changes nothing of the specification. -/
@[simp] theorem attempt_spec (t : Task) (next : TaskState) (reason : String) (now : UInt64) :
    (t.attempt next reason now).spec = t.spec := by
  by_cases hc : t.state.canTransitionTo next
  · rw [attempt_of_legal reason now hc]
  · rw [attempt_of_illegal reason now hc]

theorem attempt_state (t : Task) (next : TaskState) (reason : String) (now : UInt64) :
    (t.attempt next reason now).state = if t.state.canTransitionTo next then next else t.state := by
  by_cases hc : t.state.canTransitionTo next
  · rw [attempt_of_legal reason now hc, if_pos hc]
  · rw [attempt_of_illegal reason now hc, if_neg hc]

end Task

end MemMux
