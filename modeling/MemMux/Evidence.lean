/-
MemMux/Evidence.lean

What the benchmark reads off the daemon's event stream (`memmux-bench/src/h4.rs`): how often the
daemon governed, and whether the work of the victims it terminated was checkpointed first.

The classifier counts the checkpoints of uncommitted work and the terminations, each by itself; a
victim whose work was preserved is a termination with such a checkpoint of its task before it, since
the task's last termination.  `counts_victims_iff` says on which streams the
two are the same number.
-/
import MemMux.Pairing
import MemMux.Ratio

namespace MemMux.Evidence

/-! ### Events -/

/-- What the classifier reads of an event. -/
structure EventView where
  taskId : Option String
  category : String
  eventType : String
  payloadJson : Option String
  deriving DecidableEq, Repr

def catAdmission : String := "admission"

def catPressure : String := "pressure"

def evDeferred : String := "deferred"

def evTerminate : String := "terminate_lowest_priority"

def evPreserve : String := "preserve_git_state"

/-- The pressure-ladder reclamation event types. -/
def reclaimEventTypes : List String :=
  ["reclaim_idle_children", "hibernate_low_priority", "recycle_bloated", "preserve_git_state",
    "terminate_lowest_priority"]

/-- What follows the first occurrence of the pattern. -/
def after (pattern : List Char) : List Char → Option (List Char)
  | [] => if pattern.isEmpty then some [] else none
  | c :: cs =>
      if pattern.isPrefixOf (c :: cs) then some ((c :: cs).drop pattern.length)
      else after pattern cs

/-- Whether a `preserve_git_state` payload reports a non-empty git patch (`"git_dirty": true`). -/
def payloadGitDirty (payload : Option String) : Bool :=
  match payload with
  | none => false
  | some p =>
      match after "\"git_dirty\"".toList p.toList with
      | none => false
      | some rest =>
          -- skip the colon and any whitespace, then test the token
          "true".toList.isPrefixOf (rest.dropWhile fun c => c == ' ' || c == '\t' || c == ':')

/-! ### The classifier -/

/-- Governance evidence: starts deferred, and reclamation actions executed. -/
structure OvercommitGovernance where
  admissionDeferrals : Nat
  reclamations : Nat
  deriving DecidableEq, Repr

def OvercommitGovernance.totalActions (g : OvercommitGovernance) : Nat :=
  g.admissionDeferrals + g.reclamations

/-- No-lost-work evidence: victims terminated, and checkpoints of uncommitted work captured. -/
structure NoLostWork where
  victimsReclaimed : Nat
  checkpointsCaptured : Nat
  deriving DecidableEq, Repr

/-- `captured / reclaimed`, each converted to a `f64` first. -/
def NoLostWork.preservedFraction (n : NoLostWork) : Option Float :=
  if n.victimsReclaimed == 0 then none
  else some (n.checkpointsCaptured.toUInt64.toFloat / n.victimsReclaimed.toUInt64.toFloat)

/-- The body of the loop of `classify_events`. -/
def classifyOne (acc : OvercommitGovernance × NoLostWork) (ev : EventView) :
    OvercommitGovernance × NoLostWork :=
  let (gov, nlw) := acc
  let gov :=
    if ev.category == catAdmission && ev.eventType == evDeferred then
      { gov with admissionDeferrals := gov.admissionDeferrals + 1 }
    else gov
  if ev.category == catPressure then
    let gov :=
      if reclaimEventTypes.contains ev.eventType then
        { gov with reclamations := gov.reclamations + 1 }
      else gov
    let nlw :=
      if ev.eventType == evTerminate then
        { nlw with victimsReclaimed := nlw.victimsReclaimed + 1 }
      else nlw
    let nlw :=
      if ev.eventType == evPreserve && payloadGitDirty ev.payloadJson then
        { nlw with checkpointsCaptured := nlw.checkpointsCaptured + 1 }
      else nlw
    (gov, nlw)
  else (gov, nlw)

/-- Classify an event stream into the governance counts and the no-lost-work counts. -/
def classifyEvents (events : List EventView) : OvercommitGovernance × NoLostWork :=
  events.foldl classifyOne (⟨0, 0⟩, ⟨0, 0⟩)

/-! ### What is counted -/

def terminates (ev : EventView) : Bool := ev.category == catPressure && ev.eventType == evTerminate

/-- The event captures a checkpoint of uncommitted work. -/
def capturesWork (ev : EventView) : Bool :=
  ev.category == catPressure && (ev.eventType == evPreserve && payloadGitDirty ev.payloadJson)

def defers (ev : EventView) : Bool := ev.category == catAdmission && ev.eventType == evDeferred

def reclaims (ev : EventView) : Bool :=
  ev.category == catPressure && reclaimEventTypes.contains ev.eventType

/-- One event adds one to each counter it is counted by. -/
theorem classifyOne_counts (acc : OvercommitGovernance × NoLostWork) (ev : EventView) :
    classifyOne acc ev =
      (⟨acc.1.admissionDeferrals + if defers ev then 1 else 0,
          acc.1.reclamations + if reclaims ev then 1 else 0⟩,
        ⟨acc.2.victimsReclaimed + if terminates ev then 1 else 0,
          acc.2.checkpointsCaptured + if capturesWork ev then 1 else 0⟩) := by
  unfold classifyOne defers reclaims terminates capturesWork
  cases ev.category == catPressure <;> cases ev.category == catAdmission <;>
    cases ev.eventType == evDeferred <;> cases ev.eventType == evTerminate <;>
    cases ev.eventType == evPreserve && payloadGitDirty ev.payloadJson <;>
    cases reclaimEventTypes.contains ev.eventType <;> rfl

/-- **Every counter counts its events.** -/
theorem classifyEvents_counts (events : List EventView) :
    classifyEvents events =
      (⟨events.countP defers, events.countP reclaims⟩,
        ⟨events.countP terminates, events.countP capturesWork⟩) := by
  unfold classifyEvents
  induction events using List.reverseRecOn with
  | nil => rfl
  | append_singleton events ev ih =>
      rw [List.foldl_append, ih, List.foldl_cons, List.foldl_nil, classifyOne_counts]
      simp only [List.countP_append, List.countP_singleton]

/-! ### Victims whose work was preserved -/

/-- How many of the terminations have a checkpoint of uncommitted work of the same task before
them, with no termination of that task in between. -/
def victimsPreserved (events : List EventView) : Nat :=
  Pairing.served EventView.taskId capturesWork terminates [] events

/-- Every checkpoint of uncommitted work is followed by a termination of its task, before another
such checkpoint of that task. -/
def EveryCaptureTerminated (events : List EventView) : Prop :=
  Pairing.allSettled EventView.taskId capturesWork terminates events

instance (events : List EventView) : Decidable (EveryCaptureTerminated events) :=
  inferInstanceAs (Decidable (_ = true))

/-- What the evidence promises: the victims are the terminations, the checkpoints are those of the
victims, and so are never more than they. -/
structure CountsVictims (events : List EventView) (evidence : NoLostWork) : Prop where
  victims : evidence.victimsReclaimed = events.countP terminates
  checkpoints : evidence.checkpointsCaptured = victimsPreserved events
  le : evidence.checkpointsCaptured ≤ evidence.victimsReclaimed
  fraction : ∀ x ∈ evidence.preservedFraction, x ≤ 1.0

theorem preservedFraction_le_one {n : NoLostWork} (h : n.checkpointsCaptured ≤ n.victimsReclaimed)
    (hlt : n.victimsReclaimed < 2 ^ 64) : ∀ x ∈ n.preservedFraction, x ≤ 1.0 := by
  intro x hx
  unfold NoLostWork.preservedFraction at hx
  split_ifs at hx with hzero
  · cases hx
  · obtain rfl := Option.some.inj hx
    have hvictims : n.victimsReclaimed.toUInt64.toNat = n.victimsReclaimed :=
      Nat.mod_eq_of_lt hlt
    have hcaptured : n.checkpointsCaptured.toUInt64.toNat = n.checkpointsCaptured :=
      Nat.mod_eq_of_lt (Nat.lt_of_le_of_lt h hlt)
    refine Binary64.toFloat_div_le_one ?_ ?_
    · rw [UInt64.le_iff_toNat_le, hcaptured, hvictims]
      exact h
    · intro h0
      rw [h0] at hvictims
      exact hzero (beq_iff_eq.mpr hvictims.symm)

/-- **The evidence counts victims** exactly when every checkpoint of uncommitted work is followed
by a termination of its task before the next one.  The events are a slice: its length is a
`usize`. -/
theorem counts_victims_iff (events : List EventView) (hlen : events.length < 2 ^ 64) :
    CountsVictims events (classifyEvents events).2 ↔ EveryCaptureTerminated events := by
  rw [classifyEvents_counts]
  constructor
  · intro h
    exact (Pairing.served_eq_countP_iff events).mp h.checkpoints
  · intro h
    have hcaptured : events.countP capturesWork = victimsPreserved events :=
      (Pairing.served_eq_countP_iff events).mpr h
    have hle : events.countP capturesWork ≤ events.countP terminates := by
      rw [hcaptured]
      exact Pairing.served_le [] events
    exact ⟨rfl, hcaptured, hle,
      preservedFraction_le_one hle (Nat.lt_of_le_of_lt List.countP_le_length hlen)⟩

/-- A checkpoint of uncommitted work of a task, and its termination. -/
def captureOf (task : String) : EventView :=
  ⟨some task, "pressure", "preserve_git_state", some "\x7b\"git_dirty\":true\x7d"⟩

def terminationOf (task : String) : EventView :=
  ⟨some task, "pressure", "terminate_lowest_priority", none⟩

theorem counts_victims_iff_two :
    [captureOf "a", captureOf "b", terminationOf "b", terminationOf "a"].length < 2 ^ 64 ∧
      CountsVictims [captureOf "a", captureOf "b", terminationOf "b", terminationOf "a"]
        (classifyEvents [captureOf "a", captureOf "b", terminationOf "b", terminationOf "a"]).2 :=
  ⟨by decide, (counts_victims_iff _ (by decide)).mpr (by decide)⟩

/-- Two checkpoints before the one termination: both are counted, and the fraction is two. -/
theorem repeated_capture_exceeds :
    (classifyEvents [captureOf "a", captureOf "a", terminationOf "a"]).2 = ⟨1, 2⟩ ∧
      ¬CountsVictims [captureOf "a", captureOf "a", terminationOf "a"]
        (classifyEvents [captureOf "a", captureOf "a", terminationOf "a"]).2 := by
  have hcounts :
      (classifyEvents [captureOf "a", captureOf "a", terminationOf "a"]).2 = ⟨1, 2⟩ := by
    decide
  refine ⟨hcounts, fun h => ?_⟩
  have hle := h.le
  rw [hcounts] at hle
  exact absurd hle (by decide)

end MemMux.Evidence
