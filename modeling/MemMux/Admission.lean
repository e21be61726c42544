/-
MemMux/Admission.lean

Scheduling score and admission plan (`memmux-sched/src/score.rs`).

The plan is written over any score type with a partial comparison, as the source compares
`f64` scores with `partial_cmp` and treats incomparable ones as equal; `Float` is the
instance the daemon uses.  Nothing proved here depends on what a score is: the plan
never hands out more than it was offered (`planAdmission_fits`), in whatever order the
candidates come.
-/
import Mathlib.Data.List.Sort
import MemMux.Budget

namespace MemMux

/-! ### Scores -/

/-- A type with `partial_cmp`. -/
class PartialCmp (S : Type) where
  partialCmp : S → S → Option Ordering

/-- `f64::partial_cmp`: a NaN compares with nothing. -/
instance : PartialCmp Float where
  partialCmp a b :=
    if a < b then some .lt else if b < a then some .gt else if a == b then some .eq else none

/-- Tunable weights for the scoring function. -/
structure ScoreWeights where
  priority : Float
  interactivity : Float
  age : Float
  dependencyCriticality : Float
  predictedPeak : Float
  resumeCost : Float
  conflictRisk : Float
  ageNormalizerMs : UInt64

/-- `ScoreWeights::default`. -/
def ScoreWeights.default : ScoreWeights where
  priority := 3.0
  interactivity := 2.0
  age := 1.0
  dependencyCriticality := 1.5
  predictedPeak := 2.0
  resumeCost := 1.0
  conflictRisk := 1.5
  ageNormalizerMs := 30 * 60 * 1000

/-- Inputs to the scoring function for a single task. -/
structure ScoreInputs where
  priority : Priority
  interactivity : Float
  ageMs : UInt64
  dependencyCriticality : Float
  predictedPeakBytes : Nat
  resumeCost : Float
  conflictRisk : Float

def priorityWeight : Priority → Float
  | .low => 0.0
  | .normal => 1.0 / 3.0
  | .high => 2.0 / 3.0
  | .urgent => 1.0

/-- `f64::clamp(0.0, 1.0)`. -/
def clamp01 (x : Float) : Float := if x < 0.0 then 0.0 else if 1.0 < x then 1.0 else x

/-- Compute a task's scheduling score against the given budget. -/
def score (weights : ScoreWeights) (inputs : ScoreInputs) (budgetBytes : Nat) : Float :=
  let ageNorm :=
    if weights.ageNormalizerMs = 0 then 0.0
    else min (Float.ofNat inputs.ageMs.toNat / Float.ofNat weights.ageNormalizerMs.toNat) 1.0
  let peakFrac :=
    if budgetBytes = 0 then 1.0
    else min (Float.ofNat inputs.predictedPeakBytes / Float.ofNat budgetBytes) 2.0
  weights.priority * priorityWeight inputs.priority
    + weights.interactivity * clamp01 inputs.interactivity
    + weights.age * ageNorm
    + weights.dependencyCriticality * clamp01 inputs.dependencyCriticality
    - weights.predictedPeak * peakFrac
    - weights.resumeCost * clamp01 inputs.resumeCost
    - weights.conflictRisk * clamp01 inputs.conflictRisk

/-! ### The plan -/

/-- A queued task ready to be considered for admission. -/
structure Candidate (S : Type) where
  taskId : String
  score : S
  predictedPeakBytes : Nat

/-- The outcome of an admission pass. -/
structure AdmissionPlan where
  admitted : List String
  deferred : List (String × String)
  deriving DecidableEq, Repr

section Plan

variable {S : Type} [PartialCmp S]

/-- The comparison candidates are sorted by: score descending, ties broken by task id. -/
def candidateCmp (a b : Candidate S) : Ordering :=
  ((PartialCmp.partialCmp b.score a.score).getD .eq).then (compare a.taskId b.taskId)

/-- `candidates.sort_by(..)`, a stable sort. -/
def sortCandidates (cs : List (Candidate S)) : List (Candidate S) :=
  cs.insertionSort fun a b => candidateCmp a b ≠ .gt

/-- The message of a deferral. -/
def insufficientHeadroom (need have' : Nat) : String :=
  "insufficient headroom: needs " ++ toString (need / (1024 * 1024)) ++ " MiB, "
    ++ toString (have' / (1024 * 1024)) ++ " MiB free"

/-- The loop over the sorted candidates: admit what fits the remaining bytes, defer the rest. -/
def admitLoop : List (Candidate S) → Nat → AdmissionPlan
  | [], _ => ⟨[], []⟩
  | c :: cs, remaining =>
      if c.predictedPeakBytes ≤ remaining then
        let plan := admitLoop cs (remaining - c.predictedPeakBytes)
        { plan with admitted := c.taskId :: plan.admitted }
      else
        let plan := admitLoop cs remaining
        { plan with
            deferred := (c.taskId, insufficientHeadroom c.predictedPeakBytes remaining)
              :: plan.deferred }

/-- Plan admission: admit the highest-scoring candidates that fit `availableBytes`. -/
def planAdmission (candidates : List (Candidate S)) (availableBytes : Nat) : AdmissionPlan :=
  admitLoop (sortCandidates candidates) availableBytes

/-! ### What a plan hands out -/

omit [PartialCmp S] in
theorem admitLoop_fits (peak : String → Nat) (cs : List (Candidate S))
    (hpeak : ∀ c ∈ cs, c.predictedPeakBytes = peak c.taskId) (remaining : Nat) :
    ((admitLoop cs remaining).admitted.map peak).sum ≤ remaining := by
  induction cs generalizing remaining with
  | nil => exact Nat.zero_le _
  | cons c cs ih =>
      have hcs := fun r => ih (fun d hd => hpeak d (List.mem_cons_of_mem _ hd)) r
      have hc := hpeak c List.mem_cons_self
      rw [admitLoop]
      split
      · have := hcs (remaining - c.predictedPeakBytes)
        simp only [List.map_cons, List.sum_cons]
        omega
      · exact hcs remaining

omit [PartialCmp S] in
theorem admitLoop_sublist (cs : List (Candidate S)) (remaining : Nat) :
    (admitLoop cs remaining).admitted.Sublist (cs.map (·.taskId)) := by
  induction cs generalizing remaining with
  | nil => simp [admitLoop]
  | cons c cs ih =>
      rw [admitLoop]
      split
      · exact (ih _).cons_cons _
      · exact (ih _).cons _

omit [PartialCmp S] in
/-- Every candidate is admitted or deferred, once. -/
theorem admitLoop_perm (cs : List (Candidate S)) (remaining : Nat) :
    ((admitLoop cs remaining).admitted ++ (admitLoop cs remaining).deferred.map (·.1)).Perm
      (cs.map (·.taskId)) := by
  induction cs generalizing remaining with
  | nil => exact .refl _
  | cons c cs ih =>
      rw [admitLoop]
      split
      · exact (ih _).cons _
      · exact List.perm_middle.trans ((ih _).cons _)

omit [PartialCmp S] in
/-- A candidate that is not admitted does not fit beside the admitted ones. -/
theorem admitLoop_rejects (peak : String → Nat) (cs : List (Candidate S))
    (hpeak : ∀ c ∈ cs, c.predictedPeakBytes = peak c.taskId) (remaining : Nat) {c : Candidate S}
    (hc : c ∈ cs) (hn : c.taskId ∉ (admitLoop cs remaining).admitted) :
    remaining < ((admitLoop cs remaining).admitted.map peak).sum + peak c.taskId := by
  induction cs generalizing remaining with
  | nil => cases hc
  | cons d cs ih =>
      have hd := hpeak d List.mem_cons_self
      have hcs := fun r => ih (fun e he => hpeak e (List.mem_cons_of_mem _ he)) r
      rw [admitLoop] at hn ⊢
      split at hn
      · next hfits =>
        rw [if_pos hfits]
        obtain ⟨hne, hrest⟩ := not_or.mp (mt List.mem_cons.mpr hn)
        have hin : c ∈ cs := (List.mem_cons.mp hc).resolve_left fun e => hne (congrArg _ e)
        have hlt := hcs _ hin hrest
        simp only [List.map_cons, List.sum_cons]
        omega
      · next hfits =>
        rw [if_neg hfits]
        rcases List.mem_cons.mp hc with rfl | hin
        · show remaining < _ + peak c.taskId
          omega
        · exact hcs _ hin hn

theorem mem_sortCandidates {cs : List (Candidate S)} {c : Candidate S} :
    c ∈ sortCandidates cs ↔ c ∈ cs :=
  List.mem_insertionSort _

/-- **The peaks of the admitted tasks fit in what was available**, when every candidate asks for
the peak of its task. -/
theorem planAdmission_fits (peak : String → Nat) {cs : List (Candidate S)}
    (hpeak : ∀ c ∈ cs, c.predictedPeakBytes = peak c.taskId) (available : Nat) :
    ((planAdmission cs available).admitted.map peak).sum ≤ available :=
  admitLoop_fits peak _ (fun c hc => hpeak c (mem_sortCandidates.mp hc)) available

/-- **A deferred candidate does not fit in what the admitted ones leave.** -/
theorem planAdmission_rejects (peak : String → Nat) {cs : List (Candidate S)}
    (hpeak : ∀ c ∈ cs, c.predictedPeakBytes = peak c.taskId) (available : Nat) {c : Candidate S}
    (hc : c ∈ cs) (hn : c.taskId ∉ (planAdmission cs available).admitted) :
    available < ((planAdmission cs available).admitted.map peak).sum + peak c.taskId :=
  admitLoop_rejects peak _ (fun d hd => hpeak d (mem_sortCandidates.mp hd)) available
    (mem_sortCandidates.mpr hc) hn

/-- Candidates with distinct ids: the deferred ones are candidates, and none is admitted. -/
theorem mem_deferred {cs : List (Candidate S)} (hnodup : (cs.map (·.taskId)).Nodup)
    {available : Nat} {d : String × String} (hd : d ∈ (planAdmission cs available).deferred) :
    d.1 ∈ cs.map (·.taskId) ∧ d.1 ∉ (planAdmission cs available).admitted := by
  have hperm := (admitLoop_perm (sortCandidates cs) available).trans
    ((List.perm_insertionSort _ cs).map _)
  have hd' : d.1 ∈ (planAdmission cs available).deferred.map (·.1) := List.mem_map_of_mem hd
  refine ⟨hperm.mem_iff.mp (List.mem_append_right _ hd'), fun ha => ?_⟩
  exact List.disjoint_of_nodup_append (hperm.nodup_iff.mpr hnodup) ha hd'

omit [PartialCmp S] in
/-- Every candidate is admitted, or deferred with a reason. -/
theorem mem_admitLoop {cs : List (Candidate S)} {remaining : Nat} {c : Candidate S} (hc : c ∈ cs) :
    c.taskId ∈ (admitLoop cs remaining).admitted ∨
      c.taskId ∈ (admitLoop cs remaining).deferred.map (·.1) :=
  List.mem_append.mp ((admitLoop_perm cs remaining).mem_iff.mpr (List.mem_map_of_mem hc))

/-- Only candidates are admitted. -/
theorem exists_of_mem_admitted {cs : List (Candidate S)} {available : Nat} {id : String}
    (h : id ∈ (planAdmission cs available).admitted) : ∃ c ∈ cs, c.taskId = id := by
  obtain ⟨c, hc, rfl⟩ := List.mem_map.mp ((admitLoop_sublist _ _).subset h)
  exact ⟨c, mem_sortCandidates.mp hc, rfl⟩

/-- Candidates with distinct ids are admitted at most once each. -/
theorem nodup_admitted {cs : List (Candidate S)} (h : (cs.map (·.taskId)).Nodup)
    (available : Nat) : (planAdmission cs available).admitted.Nodup := by
  have hperm : ((sortCandidates cs).map (·.taskId)).Perm (cs.map (·.taskId)) :=
    (List.perm_insertionSort _ cs).map _
  exact (hperm.nodup_iff.mpr h).sublist (admitLoop_sublist _ _)

end Plan

end MemMux
