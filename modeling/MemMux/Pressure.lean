/-
MemMux/Pressure.lean

The pressure ladder (`memmux-sched/src/pressure.rs`): stages, their classification from the
budget utilization, and the actions of each stage in order.
-/
import MemMux.Budget

namespace MemMux

/-- A pressure stage, from calm to emergency. -/
inductive PressureStage
  | normal | elevated | high | critical | emergency
  deriving DecidableEq, Repr

/-- A concrete reclamation action. -/
inductive PressureAction
  | routineCompaction | trimRenderCaches | rotateBuffers | stopIdleSharedWorkers
  | reclaimIdleChildren | reduceWorkerConcurrency | blockLowPriorityStarts
  | hibernateLowPriority | recycleBloatedProviders | preserveGitState
  | terminateLowestPriorityTree | notifyOperator
  deriving DecidableEq, Repr

namespace PressureStage

/-- The derived order of the stages is the order of the variants. -/
def rank : PressureStage → Nat
  | normal => 0
  | elevated => 1
  | high => 2
  | critical => 3
  | emergency => 4

/-- `format!("{stage:?}")`. -/
def debug : PressureStage → String
  | normal => "Normal"
  | elevated => "Elevated"
  | high => "High"
  | critical => "Critical"
  | emergency => "Emergency"

/-- The next stage up (saturating at `Emergency`). -/
def escalated : PressureStage → PressureStage
  | normal => elevated
  | elevated => high
  | high => critical
  | critical => emergency
  | emergency => emergency

/-- Classify the pressure stage from budget utilization plus leading indicators. -/
def classify (utilization : Float) (swapGrowing hardLimitExceeded : Bool) : PressureStage :=
  if hardLimitExceeded then emergency
  else
    let base :=
      if utilization < 0.70 then normal
      else if utilization < 0.82 then elevated
      else if utilization < 0.90 then high
      else critical
    if swapGrowing then base.escalated else base

/-- The deterministic actions to apply at this stage, in order. -/
def actions : PressureStage → List PressureAction
  | normal => [.routineCompaction]
  | elevated => [.trimRenderCaches, .rotateBuffers, .stopIdleSharedWorkers]
  | high => [.reclaimIdleChildren, .reduceWorkerConcurrency, .blockLowPriorityStarts]
  | critical => [.hibernateLowPriority, .recycleBloatedProviders]
  | emergency => [.preserveGitState, .terminateLowestPriorityTree, .notifyOperator]

/-- The severity of the event that announces a stage. -/
def severity : PressureStage → String
  | normal | elevated => "info"
  | high | critical => "warn"
  | emergency => "error"

end PressureStage

namespace PressureAction

/-- A user-visible description of the action. -/
def describe : PressureAction → String
  | routineCompaction => "routine cache and buffer compaction"
  | trimRenderCaches => "trimmed UI render caches"
  | rotateBuffers => "rotated oldest terminal buffers to disk"
  | stopIdleSharedWorkers => "stopped idle shared-service workers"
  | reclaimIdleChildren => "reclaimed idle descendant processes"
  | reduceWorkerConcurrency => "reduced test/build/browser worker concurrency"
  | blockLowPriorityStarts => "blocked new low-priority task starts"
  | hibernateLowPriority => "hibernated low-priority tasks"
  | recycleBloatedProviders => "recycled bloated provider processes at safe points"
  | preserveGitState => "persisted Git dirty manifest and patch hash"
  | terminateLowestPriorityTree => "terminated the lowest-priority process tree"
  | notifyOperator => "notified the operator"

/-- Whether this action can terminate a process. -/
def isDestructive : PressureAction → Bool
  | terminateLowestPriorityTree => true
  | _ => false

end PressureAction

/-- Only the emergency stage is destructive, and there Git state is preserved first. -/
theorem PressureStage.destructive_after_preserve {s : PressureStage}
    (h : .terminateLowestPriorityTree ∈ s.actions) :
    s.actions.head? = some .preserveGitState := by
  cases s <;> simp [PressureStage.actions] at h ⊢

end MemMux
