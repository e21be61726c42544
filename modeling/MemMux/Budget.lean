/-
MemMux/Budget.lean

Reservations and the resource envelope (`memmux-sched/src/reservation.rs`,
`classes.rs`, `envelope.rs`).

Byte counts are `u64` in the source.  They are natural numbers here; the
saturating and the wrapping operations are written out (`satAdd`, `asI64`), and
the envelope carries the bound that makes its budget a `u64`.
-/
import Mathlib.Algebra.GroupWithZero.Nat
import Mathlib.Data.Int.Init
import MemMux.Task

namespace MemMux

/-! ### Machine arithmetic -/

/-- The number of `u64` values. -/
def u64Size : Nat := 2 ^ 64

/-- `u64::saturating_add`. -/
def satAdd (a b : Nat) : Nat := min (a + b) (u64Size - 1)

theorem satAdd_le (a b : Nat) : satAdd a b ≤ a + b := Nat.min_le_left _ _

/-- `u64::saturating_sub`. -/
def satSub (a b : Nat) : Nat := a - b

/-- `u64::saturating_mul`. -/
def satMul (a b : Nat) : Nat := min (a * b) (u64Size - 1)

/-- A sum of `u64` values (`Iterator::sum` wraps in a release build). -/
def wrapSum (xs : List Nat) : Nat := xs.sum % u64Size

/-- Wrapped sums of parts sum up like the whole. -/
theorem wrapSum_flatMap {α : Type} (f : α → List Nat) (xs : List α) :
    wrapSum (xs.map fun x => wrapSum (f x)) = wrapSum (xs.flatMap f) := by
  unfold wrapSum
  induction xs with
  | nil => rfl
  | cons x xs ih =>
      rw [List.map_cons, List.sum_cons, List.flatMap_cons, List.sum_append, Nat.mod_add_mod, Nat.add_mod,
        ih, Nat.add_mod_mod, Nat.mod_add_mod]

/-- `n as i64` for a `u64` value, and the result of wrapping `i64` arithmetic. -/
def asI64 (n : Int) : Int := n.bmod u64Size

/-- `n as u64` for an `i64` value. -/
def asU64 (n : Int) : Nat := (n % u64Size).toNat

/-! ### Reservations -/

def mib : Nat := 1024 * 1024
def gib : Nat := 1024 * 1024 * 1024

/-- The component reservations that make up a task's memory footprint. -/
structure Reservation where
  baseProviderBytes : Nat
  isolationBytes : Nat
  toolProfileBytes : Nat
  repoOverlayBytes : Nat
  burstAllowanceBytes : Nat
  resumeAllowanceBytes : Nat
  deriving DecidableEq, Repr

namespace Reservation

/-- Steady-state footprint: everything except the transient burst allowance. -/
def steadyBytes (r : Reservation) : Nat :=
  satAdd (satAdd (satAdd r.baseProviderBytes r.isolationBytes) r.toolProfileBytes)
    r.repoOverlayBytes

/-- Peak footprint the scheduler must be able to absorb: steady plus burst. -/
def peakBytes (r : Reservation) : Nat := satAdd r.steadyBytes r.burstAllowanceBytes

end Reservation

/-- Static reservation prior for a resource class. -/
def classReservation : ResourceClass → Reservation
  | .small => ⟨250 * mib, 60 * mib, 40 * mib, 30 * mib, 200 * mib, 80 * mib⟩
  | .standard => ⟨400 * mib, 90 * mib, 250 * mib, 80 * mib, 500 * mib, 150 * mib⟩
  | .browserHeavy => ⟨450 * mib, 100 * mib, 1200 * mib, 80 * mib, 900 * mib, 180 * mib⟩
  | .buildHeavy => ⟨400 * mib, 100 * mib, 500 * mib, 120 * mib, 1500 * mib, 180 * mib⟩
  | .custom => ⟨400 * mib, 90 * mib, 250 * mib, 80 * mib, 500 * mib, 150 * mib⟩

/-! ### The resource envelope -/

/-- Memory carved out before any agent budget is computed. -/
structure Reserves where
  osBytes : Nat
  interactiveAppBytes : Nat
  sharedServiceBytes : Nat
  swapSafetyMarginBytes : Nat
  deriving DecidableEq, Repr

namespace Reserves

/-- Total reserved bytes. -/
def total (r : Reserves) : Nat :=
  satAdd (satAdd (satAdd r.osBytes r.interactiveAppBytes) r.sharedServiceBytes)
    r.swapSafetyMarginBytes

/-- Defaults scaled to the host: each reserve is `max(floor, fraction * physical)`. -/
def defaultFor (physicalBytes : Nat) : Reserves :=
  let frac (floor num den : Nat) : Nat := max floor (satMul physicalBytes num / den)
  { osBytes := frac (3 * gib / 2) 8 100
    interactiveAppBytes := frac (3 * gib) 20 100
    sharedServiceBytes := frac gib 5 100
    swapSafetyMarginBytes := frac (2 * gib) 12 100 }

end Reserves

/-- The global budget available to agent workloads.  The budget is a `u64`; the environment
override `MEMMUX_AGENT_BUDGET_BYTES` may set it to any value of that type. -/
structure ResourceEnvelope where
  physicalBytes : Nat
  reserves : Reserves
  agentBudgetBytes : Nat
  budget_lt : agentBudgetBytes < u64Size

namespace ResourceEnvelope

/-- Build an envelope from physical memory and explicit reserves. -/
def new (physicalBytes : Nat) (reserves : Reserves) (h : physicalBytes < u64Size) :
    ResourceEnvelope where
  physicalBytes := physicalBytes
  reserves := reserves
  agentBudgetBytes := satSub physicalBytes reserves.total
  budget_lt := Nat.lt_of_le_of_lt (Nat.sub_le _ _) h

/-- Build an envelope using the default reserves for the host size. -/
def withDefaultReserves (physicalBytes : Nat) (h : physicalBytes < u64Size) : ResourceEnvelope :=
  new physicalBytes (Reserves.defaultFor physicalBytes) h

/-- Remaining budget given current agent usage (may be negative if over budget). -/
def headroomBytes (e : ResourceEnvelope) (usedBytes : Nat) : Int :=
  asI64 (asI64 e.agentBudgetBytes - asI64 usedBytes)

/-- What the admission planner may hand out: the headroom, clamped at zero, as a `u64`. -/
def availableBytes (e : ResourceEnvelope) (usedBytes : Nat) : Nat :=
  asU64 (max (e.headroomBytes usedBytes) 0)

/-- Fraction of the agent budget currently used (0.0 for a zero budget). -/
def utilization (e : ResourceEnvelope) (usedBytes : Nat) : Float :=
  if e.agentBudgetBytes = 0 then
    if usedBytes = 0 then 0.0 else 1.0
  else Float.ofNat usedBytes / Float.ofNat e.agentBudgetBytes

/-- Whether `additionalBytes` would fit within the budget on top of `usedBytes`. -/
def fits (e : ResourceEnvelope) (usedBytes additionalBytes : Nat) : Bool :=
  satAdd usedBytes additionalBytes ≤ e.agentBudgetBytes

/-- The two casts of `headroom_bytes` cancel: only the wrapped difference is left. -/
theorem headroomBytes_eq (e : ResourceEnvelope) (used : Nat) :
    e.headroomBytes used = ((e.agentBudgetBytes : Int) - used).bmod u64Size := by
  simp [headroomBytes, asI64, Int.sub_bmod_bmod, Int.bmod_sub_bmod]

/-- While the ledger is within the budget, the planner is never offered more than what is left
of it, whatever the casts through `i64` do. -/
theorem availableBytes_le (e : ResourceEnvelope) {used : Nat} (h : used ≤ e.agentBudgetBytes) :
    used + e.availableBytes used ≤ e.agentBudgetBytes := by
  have hb := e.budget_lt
  rw [availableBytes, headroomBytes_eq]
  unfold asU64
  unfold u64Size at *
  rw [Int.bmod_def]
  split <;> omega

/-- When `taken` bytes of what the planner was offered are reserved, a request that did not fit
beside them does not fit in the headroom that is left, even if the ledger's sum has wrapped. -/
theorem headroomBytes_lt (e : ResourceEnvelope) {total taken peak : Nat}
    (hfits : taken ≤ e.availableBytes (total % u64Size))
    (hrejected : e.availableBytes (total % u64Size) < taken + peak) :
    e.headroomBytes ((taken + total) % u64Size) < peak := by
  rw [availableBytes, headroomBytes_eq] at hfits hrejected
  rw [headroomBytes_eq]
  unfold asU64 at hfits hrejected
  unfold u64Size at *
  rw [Int.bmod_def] at hfits hrejected ⊢
  split at hfits <;> split at hrejected <;> split <;> omega

/-- A budget below 2^63 computes no less headroom than there is. -/
theorem lt_of_headroomBytes_lt (e : ResourceEnvelope) {total peak : Nat}
    (hb : e.agentBudgetBytes < 2 ^ 63) (h : e.headroomBytes (total % u64Size) < peak) :
    (e.agentBudgetBytes : Int) - total < peak := by
  rw [headroomBytes_eq] at h
  unfold u64Size at h
  rw [Int.bmod_def] at h
  split at h <;> omega

/-! ### The two headroom tests -/

/-- The planner's test and `fits` agree within the budget, and refuse alike above it. -/
def TestsAgree (e : ResourceEnvelope) (used additional : Nat) : Prop :=
  (used ≤ e.agentBudgetBytes →
    (additional ≤ e.availableBytes used ↔ e.fits used additional = true)) ∧
  (e.agentBudgetBytes < used → 0 < additional →
    ¬ additional ≤ e.availableBytes used ∧ ¬ e.fits used additional = true)

/-- Within the budget the planner is offered what is left, unless that is 2^63 or more: the cast
to `i64` then makes it negative, and the clamp zero. -/
theorem availableBytes_of_le (e : ResourceEnvelope) {used : Nat} (h : used ≤ e.agentBudgetBytes) :
    e.availableBytes used
      = if e.agentBudgetBytes - used < 2 ^ 63 then e.agentBudgetBytes - used else 0 := by
  have hb := e.budget_lt
  rw [availableBytes, headroomBytes_eq]
  unfold asU64
  unfold u64Size at *
  rw [Int.bmod_def]
  split <;> split <;> omega

/-- Above the budget the planner is offered nothing, unless the overdraft is more than 2^63: the
difference then wraps to a positive one. -/
theorem availableBytes_of_lt (e : ResourceEnvelope) {used : Nat} (h : e.agentBudgetBytes < used)
    (hused : used < u64Size) :
    e.availableBytes used
      = if used - e.agentBudgetBytes ≤ 2 ^ 63 then 0 else u64Size - (used - e.agentBudgetBytes) := by
  rw [availableBytes, headroomBytes_eq]
  unfold asU64
  unfold u64Size at *
  rw [Int.bmod_def]
  split <;> split <;> omega

/-- `fits` is the comparison without overflow, except that a saturated sum fits the budget
`u64::MAX`. -/
theorem fits_iff (e : ResourceEnvelope) (used additional : Nat) :
    e.fits used additional = true
      ↔ used + additional ≤ e.agentBudgetBytes ∨ e.agentBudgetBytes = u64Size - 1 := by
  have hb := e.budget_lt
  rw [fits, decide_eq_true_iff, satAdd]
  unfold u64Size at *
  omega

/-- **When the two headroom tests agree.**  Within the budget: what is left is below 2^63, or the
request is zero or more than what is left; and under the budget `u64::MAX` the request is at most
what is left.  Above the budget: the overdraft is at most 2^63, or the request is zero or more than
what the wrapped difference offers. -/
theorem testsAgree_iff (e : ResourceEnvelope) (used additional : UInt64) :
    e.TestsAgree used.toNat additional.toNat ↔
      (used.toNat ≤ e.agentBudgetBytes →
        (e.agentBudgetBytes - used.toNat < 2 ^ 63 ∨ additional = 0 ∨
          e.agentBudgetBytes - used.toNat < additional.toNat) ∧
        (e.agentBudgetBytes = 2 ^ 64 - 1 → additional.toNat ≤ e.agentBudgetBytes - used.toNat)) ∧
      (e.agentBudgetBytes < used.toNat →
        used.toNat - e.agentBudgetBytes ≤ 2 ^ 63 ∨ additional = 0 ∨
          2 ^ 64 - (used.toNat - e.agentBudgetBytes) < additional.toNat) := by
  have hused : used.toNat < u64Size := used.toNat_lt
  have hzero : additional = 0 ↔ additional.toNat = 0 := UInt64.toNat_inj.symm
  have hb := e.budget_lt
  rw [TestsAgree, hzero]
  refine and_congr (forall_congr' fun h => ?_) (forall_congr' fun h => ?_)
  · rw [e.availableBytes_of_le h, e.fits_iff]
    unfold u64Size at *
    split <;> omega
  · rw [e.availableBytes_of_lt h hused, e.fits_iff]
    unfold u64Size at *
    split <;> omega

/-- Under the budget `u64::MAX`, which the environment may set, one byte fits and the planner
refuses it. -/
theorem maximal_budget_refused :
    let e : ResourceEnvelope :=
      ⟨32 * gib, Reserves.defaultFor (32 * gib), 2 ^ 64 - 1, by decide⟩
    ¬ e.TestsAgree 0 1 := by
  intro e h
  have hfits : e.fits 0 1 = true := by decide
  have hrefused : ¬ 1 ≤ e.availableBytes 0 := by decide
  exact hrefused ((h.1 (by decide)).mpr hfits)

end ResourceEnvelope

/-! ### The budgets of growing hosts -/

/-- A saturated sum grows by no more than its operands. -/
theorem satAdd_le_add {a a' b b' x y : Nat} (ha : a' ≤ a + x) (hb : b' ≤ b + y) :
    satAdd a' b' ≤ satAdd a b + (x + y) := by
  unfold satAdd
  omega

/-- One reserve grows by its share of the growth, rounded up. -/
theorem Reserves.share_le_add {p q : Nat} (floor num : Nat) (h : p ≤ q) :
    max floor (satMul q num / 100) ≤ max floor (satMul p num / 100) + (num * (q - p) / 100 + 1) := by
  have hgrow : satMul q num ≤ satMul p num + num * (q - p) := by
    have hprod : q * num = p * num + num * (q - p) := by
      rw [Nat.mul_comm num, ← Nat.add_mul, Nat.add_sub_of_le h]
    unfold satMul
    omega
  have hdiv : satMul q num / 100 ≤ satMul p num / 100 + (num * (q - p) / 100 + 1) := by omega
  omega

/-- **The reserves take at most what the host grows by.**  The fractions add up to less than one half,
and the other half of 1024 bytes is more than four roundings. -/
theorem Reserves.total_defaultFor_le {p q : Nat} (hp : 1024 ∣ p) (hq : 1024 ∣ q) (h : p ≤ q) :
    (defaultFor q).total ≤ (defaultFor p).total + (q - p) := by
  rcases Nat.eq_or_lt_of_le h with rfl | hlt
  · exact Nat.le_add_right _ _
  · have hstep : 1024 ≤ q - p := Nat.le_of_dvd (Nat.sub_pos_of_lt hlt) (Nat.dvd_sub hq hp)
    refine Nat.le_trans (satAdd_le_add (satAdd_le_add (satAdd_le_add (share_le_add _ _ h)
      (share_le_add _ _ h)) (share_le_add _ _ h)) (share_le_add _ _ h)) ?_
    exact Nat.add_le_add_left (by omega) _

namespace ResourceEnvelope

/-- **The agent budget grows with the host**, over all sizes that are whole KiB; and a positive
budget is what the reserves leave of the memory. -/
theorem agentBudget_monotone {p q : Nat} (hp : 1024 ∣ p) (hq : 1024 ∣ q) (hle : p ≤ q)
    (hlt : q < u64Size) :
    (withDefaultReserves p (Nat.lt_of_le_of_lt hle hlt)).agentBudgetBytes
        ≤ (withDefaultReserves q hlt).agentBudgetBytes
      ∧ (0 < (withDefaultReserves q hlt).agentBudgetBytes →
          (withDefaultReserves q hlt).agentBudgetBytes + (withDefaultReserves q hlt).reserves.total
            = (withDefaultReserves q hlt).physicalBytes) := by
  have htotal := Reserves.total_defaultFor_le hp hq hle
  refine ⟨?_, fun hpos => ?_⟩
  · show p - (Reserves.defaultFor p).total ≤ q - (Reserves.defaultFor q).total
    omega
  · exact Nat.sub_add_cancel (Nat.le_of_lt (Nat.lt_of_sub_pos hpos))

/-- A host of 16 GiB and one of 64 GiB. -/
theorem agentBudget_monotone_hosts :
    (withDefaultReserves (16 * gib) (by decide)).agentBudgetBytes
        ≤ (withDefaultReserves (64 * gib) (by decide)).agentBudgetBytes
      ∧ (withDefaultReserves (64 * gib) (by decide)).agentBudgetBytes
          + (withDefaultReserves (64 * gib) (by decide)).reserves.total = 64 * gib := by
  have h := @agentBudget_monotone (16 * gib) (64 * gib) (by decide) (by decide) (by decide) (by decide)
  exact ⟨h.1, h.2 (by decide)⟩

end ResourceEnvelope

end MemMux
