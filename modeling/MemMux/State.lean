/-
MemMux/State.lean

The task lifecycle state machine (`memmux-core/src/state.rs`): the states, which
of them hold a provider resident, and the table of legal transitions.

A task's history is a list of labelled moves through this table.  `Connected s h t`
says that the moves of `h` follow one another through legal transitions and lead
from `s` to `t`; it is the shape every stored history is compared with.
-/
import Mathlib.Tactic.Common

namespace MemMux

/-! ### States -/

/-- Lifecycle state of a logical task. -/
inductive TaskState
  | created | queued | admitting | starting | active | toolRunning | waitingUser | blocked
  | idle | checkpointing | hibernated | recycling | resuming | failed | terminating | terminated
  deriving DecidableEq, Repr

namespace TaskState

/-- Whether a provider process is expected to be resident in this state. -/
def isResident : TaskState → Bool
  | starting | active | toolRunning | waitingUser | idle | checkpointing | recycling
  | resuming => true
  | _ => false

/-- Whether this is a terminal state with no automatic continuation. -/
def isTerminal : TaskState → Bool
  | terminated => true
  | _ => false

/-- States this state may legally transition into. -/
def allowedNext : TaskState → List TaskState
  | created => [queued, terminating]
  | queued => [admitting, blocked, terminating]
  | admitting => [starting, queued, failed, terminating]
  | starting => [active, failed, terminating]
  | active => [toolRunning, waitingUser, blocked, idle, checkpointing, recycling, failed,
      terminating]
  | toolRunning => [active, waitingUser, failed, terminating]
  | waitingUser => [active, idle, checkpointing, terminating]
  | blocked => [queued, active, terminating]
  | idle => [active, checkpointing, terminating]
  | checkpointing => [hibernated, active, failed, terminating]
  | hibernated => [queued, resuming, terminating]
  | recycling => [resuming, failed, terminating]
  | resuming => [active, failed, terminating]
  | failed => [queued, terminating]
  | terminating => [terminated]
  | terminated => []

/-- Whether a transition from `s` to `next` is legal. -/
def canTransitionTo (s next : TaskState) : Bool := s.allowedNext.contains next

/-- The label shown to clients and written into messages. -/
def display : TaskState → String
  | created => "CREATED"
  | queued => "QUEUED"
  | admitting => "ADMITTING"
  | starting => "STARTING"
  | active => "ACTIVE"
  | toolRunning => "TOOL_RUNNING"
  | waitingUser => "WAITING_USER"
  | blocked => "BLOCKED"
  | idle => "IDLE"
  | checkpointing => "CHECKPOINTING"
  | hibernated => "HIBERNATED"
  | recycling => "RECYCLING"
  | resuming => "RESUMING"
  | failed => "FAILED"
  | terminating => "TERMINATING"
  | terminated => "TERMINATED"

instance : ToString TaskState := ⟨display⟩

end TaskState

/-- Error returned when an illegal state transition is attempted. -/
structure IllegalTransition where
  fromState : TaskState
  toState : TaskState
  deriving DecidableEq, Repr

/-- Attempt a transition, returning an error describing the illegal move. -/
def TaskState.transitionTo (s next : TaskState) : Except IllegalTransition TaskState :=
  if s.canTransitionTo next then .ok next else .error ⟨s, next⟩

/-! ### Facts about the table -/

/-- No state may move to itself: a legal transition always changes the state. -/
theorem TaskState.ne_of_canTransitionTo {s t : TaskState} (h : s.canTransitionTo t) : t ≠ s := by
  rintro rfl
  cases t <;> revert h <;> decide

/-- `ANY -> TERMINATING`: every state but the last two may start terminating. -/
theorem TaskState.canTerminate {s : TaskState} (h₁ : s ≠ .terminating) (h₂ : s ≠ .terminated) :
    s.canTransitionTo .terminating := by
  cases s <;> first | rfl | contradiction

/-- One recorded state transition. -/
structure StateTransition where
  fromState : TaskState
  toState : TaskState
  atMs : UInt64
  reason : String
  deriving DecidableEq, Repr

/-! ### Connected histories -/

/-- `Connected s h t`: the transitions of `h` are legal, follow one another, and lead from
`s` to `t`. -/
def Connected (s : TaskState) : List StateTransition → TaskState → Prop
  | [], t => t = s
  | tr :: h, t => tr.fromState = s ∧ s.canTransitionTo tr.toState ∧ Connected tr.toState h t

instance instDecidableConnected :
    ∀ (s : TaskState) (h : List StateTransition) (t : TaskState), Decidable (Connected s h t)
  | s, [], t => inferInstanceAs (Decidable (t = s))
  | s, tr :: h, t =>
      have : Decidable (Connected tr.toState h t) := instDecidableConnected tr.toState h t
      inferInstanceAs (Decidable (tr.fromState = s ∧ s.canTransitionTo tr.toState ∧
        Connected tr.toState h t))

/-- The state a history ends in, `Created` when nothing happened yet. -/
def lastTo (h : List StateTransition) : TaskState :=
  (h.getLast?.map (·.toState)).getD .created

@[simp] theorem lastTo_nil : lastTo [] = .created := rfl

@[simp] theorem lastTo_snoc (h : List StateTransition) (tr : StateTransition) :
    lastTo (h ++ [tr]) = tr.toState := by
  simp [lastTo]

theorem connected_append {s t u : TaskState} {h k : List StateTransition}
    (h₁ : Connected s h t) (h₂ : Connected t k u) : Connected s (h ++ k) u := by
  induction h generalizing s with
  | nil =>
      obtain rfl : t = s := h₁
      exact h₂
  | cons tr h ih =>
      obtain ⟨hfrom, hlegal, hrest⟩ := h₁
      exact ⟨hfrom, hlegal, ih hrest⟩

/-- A connected history grows by one legal transition out of its last state. -/
theorem connected_snoc {s t : TaskState} {h : List StateTransition} {tr : StateTransition}
    (hc : Connected s h t) (hfrom : tr.fromState = t) (hlegal : t.canTransitionTo tr.toState) :
    Connected s (h ++ [tr]) tr.toState :=
  connected_append hc ⟨hfrom, hlegal, rfl⟩

/-- A connected history starting at `Created` ends where its last transition leads. -/
theorem connected_lastTo {h : List StateTransition} {t : TaskState}
    (hc : Connected .created h t) : t = lastTo h := by
  have key : ∀ (h : List StateTransition) (s t : TaskState), Connected s h t →
      t = (h.getLast?.map (·.toState)).getD s := by
    intro h
    induction h with
    | nil =>
        intro s t hc
        exact hc
    | cons tr h ih =>
        intro s t hc
        have := ih tr.toState t hc.2.2
        rw [this]
        cases h with
        | nil => rfl
        | cons tr' h' => simp [List.getLast?_eq_some_getLast]
  exact key h .created t hc

end MemMux
