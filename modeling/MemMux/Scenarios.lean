/-
MemMux/Scenarios.lean

The scenarios of the benchmark (`memmux-bench/src/scenario.rs`) and the memory their scripts take.

A script whose steps leave memory alone is flat, and one that allocates first and frees the same at
the end is a plateau; every scenario is one of the two but the leak, which only grows.  So the leak
detector of the simulation tells the scenarios apart as `expects_bounded_memory` does, whatever the
provider and however intense the run (`growth_iff_leak`).
-/
import Mathlib.Data.List.Chain
import MemMux.Decimal
import MemMux.Stub
import MemMux.Text

namespace MemMux.Stub

/-! ### Scenarios -/

inductive Scenario
  | burst
  | soak
  | idle
  | leak
  | hold
  | escape
  | overcommit
  deriving DecidableEq, Repr

/-- Baseline resident memory of a provider, in mebibytes. -/
def providerBaseMib : Provider → UInt64
  | .claudeCode => 320
  | .codex => 300
  | .geminiCli => 280
  | .openCode => 260
  | .generic => 64

/-- The footprint of the overcommit scenario: a positive number in the environment, else 120. -/
def overcommitHoldMib (getEnv : String → Option String) : UInt64 :=
  let parsed := (getEnv "MEMMUX_BENCH_HOLD_MIB").bind fun s =>
    Decimal.parseUnsigned u64Size (trim s).toList
  UInt64.ofNat ((parsed.filter (0 < ·)).getD 120)

/-- Append some steps, `n` times. -/
def SessionRecording.withSteps (steps : List Step) : Nat → SessionRecording → SessionRecording
  | 0, r => r
  | n + 1, r => withSteps steps n (steps.foldl withStep r)

namespace Scenario

/-- Stable slug for file names and report tables. -/
def slug : Scenario → String
  | burst => "burst"
  | soak => "soak"
  | idle => "idle"
  | leak => "leak"
  | hold => "hold"
  | escape => "escape"
  | overcommit => "overcommit"

/-- Whether resident memory is expected to stay bounded. -/
def expectsBoundedMemory (s : Scenario) : Bool := !(s == leak)

variable (getEnv : String → Option String)

/-- The script of a scenario; products that exceed a `u64` wrap. -/
def recording (s : Scenario) (provider : Provider) (intensity : UInt64) : SessionRecording :=
  let intensity := max intensity 1
  let base := providerBaseMib provider
  match s with
  | burst =>
      let r := ((SessionRecording.new "burst" provider base).withStep (.allocate 40)).withStep
        (.spawnChild 30 (800 * intensity))
      (r.withSteps [.emit 500 120] (20 * intensity).toNat).withStep (.free 40)
  | soak =>
      (SessionRecording.new "soak" provider base).withSteps [.emit 200 100, .sleep 0]
        (100 * intensity).toNat
  | idle =>
      ((SessionRecording.new "idle" provider base).withSteps [.sleep 0]
        (10 * intensity).toNat).withStep (.emit 1 40)
  | leak =>
      ((SessionRecording.new "leak" provider base).withStep
        (.spawnChild 24 (600 * intensity))).withStep (.leak 8 (10 * intensity))
  | hold =>
      ((((SessionRecording.new "hold" provider base).withStep (.allocate 40)).withStep
        (.spawnChild 30 60000)).withStep (.sleep 60000)).withStep (.free 40)
  | escape =>
      ((((SessionRecording.new "escape" provider base).withStep (.allocate 20)).withStep
        (.orphan 2500 30000)).withStep (.sleep 30000)).withStep (.free 20)
  | overcommit =>
      let held := overcommitHoldMib getEnv
      ((((SessionRecording.new "overcommit" provider base).withStep (.allocate held)).withStep
        (.spawnChild 30 60000)).withStep (.sleep 60000)).withStep (.free held)

/-- The step injects an escaped process. -/
def isOrphan : Step → Bool
  | .orphan _ _ => true
  | _ => false

/-- How many escaped processes each agent injects. -/
def escapesPerAgent (s : Scenario) (provider : Provider) : Nat :=
  (s.recording getEnv provider 1).steps.countP isOrphan

/-- What an agent of the scenario holds above its baseline, at most. -/
def heldMib (s : Scenario) : Nat :=
  match s with
  | burst | hold => 40
  | escape => 20
  | overcommit => (overcommitHoldMib getEnv).toNat
  | soak | idle | leak => 0

end Scenario

/-! ### The leak detector -/

namespace Trajectory

variable (t : Trajectory)

/-- The memory after each step. -/
def residents : List Nat := t.points.map (·.residentMib)

theorem finalResidentMib_eq : t.finalResidentMib = t.residents.getLast?.getD t.baseMib := by
  rw [finalResidentMib, residents, List.getLast?_map]

theorem growth_eq (prev : Nat) (grew : Bool) (rs : List Nat) :
    growth prev grew rs
      = if (prev :: rs).IsChain (· ≤ ·) then some (grew || rs.any fun r => decide (prev < r))
        else none := by
  induction rs generalizing prev grew with
  | nil => simp [growth]
  | cons r rs ih =>
      rw [growth, ih]
      rcases Nat.lt_trichotomy r prev with hlt | rfl | hgt
      · have hchain : ¬ (prev :: r :: rs).IsChain (· ≤ ·) := fun h =>
          Nat.not_le.mpr hlt (List.isChain_cons_cons.mp h).1
        rw [if_pos hlt, if_neg hchain]
      · rw [if_neg (Nat.lt_irrefl r)]
        simp
      · rw [if_neg (Nat.lt_asymm hgt)]
        simp [hgt, Nat.le_of_lt hgt]

/-- **What the leak detector detects**: memory never shrinks, and ends above the baseline. -/
theorem isMonotonicGrowth_iff :
    t.isMonotonicGrowth = true ↔
      (t.baseMib :: t.residents).IsChain (· ≤ ·) ∧ t.baseMib < t.finalResidentMib := by
  have hgrew : t.baseMib < t.finalResidentMib →
      (t.residents.any fun r => decide (t.baseMib < r)) = true := by
    intro hlt
    rw [finalResidentMib_eq] at hlt
    cases hlast : t.residents.getLast? with
    | none =>
        rw [hlast] at hlt
        exact absurd hlt (Nat.lt_irrefl _)
    | some n =>
        rw [hlast] at hlt
        exact List.any_eq_true.mpr ⟨n, List.mem_of_getLast? hlast, decide_eq_true hlt⟩
  unfold isMonotonicGrowth
  rw [show t.points.map (·.residentMib) = t.residents from rfl, growth_eq]
  by_cases hchain : (t.baseMib :: t.residents).IsChain (· ≤ ·)
  · rw [if_pos hchain]
    simp only [Bool.false_or, Bool.and_eq_true, decide_eq_true_eq]
    exact ⟨fun h => ⟨hchain, h.2⟩, fun h => ⟨hgrew h.2, h.2⟩⟩
  · rw [if_neg hchain]
    exact iff_of_false Bool.false_ne_true fun h => hchain h.1

end Trajectory

/-! ### Flat scripts and plateaus -/

/-- The step leaves the memory of the process as it is. -/
def Step.Inert : Step → Prop
  | allocate _ | free _ | leak _ _ => False
  | emit _ _ | sleep _ | spawnChild _ _ | orphan _ _ => True

theorem Step.Inert.resident {s : Step} (h : s.Inert) (c : Counters) :
    (c.apply s).resident = c.resident := by
  cases s with
  | allocate mib => cases h
  | free mib => cases h
  | leak mibPerTick ticks => cases h
  | _ => rfl

theorem simulateFrom_append (i : Nat) (c : Counters) (xs ys : List Step) :
    simulateFrom i c (xs ++ ys)
      = simulateFrom i c xs ++ simulateFrom (i + xs.length) (xs.foldl Counters.apply c) ys := by
  induction xs generalizing i c with
  | nil => rfl
  | cons x xs ih =>
      rw [List.cons_append, simulateFrom, ih, simulateFrom, List.cons_append, List.foldl_cons,
        List.length_cons, Nat.add_assoc, Nat.add_comm 1]

/-- Inert steps keep the memory counter. -/
theorem simulateFrom_inert {steps : List Step} (h : ∀ s ∈ steps, s.Inert) (i : Nat)
    (c : Counters) :
    (∀ n ∈ (simulateFrom i c steps).map (·.residentMib), n = c.resident) ∧
      (steps.foldl Counters.apply c).resident = c.resident := by
  induction steps generalizing i c with
  | nil => exact ⟨fun n hn => absurd hn List.not_mem_nil, rfl⟩
  | cons s steps ih =>
      rw [List.forall_mem_cons] at h
      obtain ⟨hpoints, hend⟩ := ih h.2 (i + 1) (c.apply s)
      rw [h.1.resident] at hpoints hend
      rw [simulateFrom, List.map_cons, List.forall_mem_cons]
      exact ⟨⟨h.1.resident c, hpoints⟩, hend⟩

/-- Memory starts at the baseline and comes back to it, with `held` more at its peak. -/
structure Trajectory.Returns (t : Trajectory) (held : Nat) : Prop where
  final : t.finalResidentMib = t.baseMib
  peak : t.peakResidentMib = t.baseMib + held

theorem Trajectory.Returns.not_growth {t : Trajectory} {held : Nat} (h : t.Returns held) :
    t.isMonotonicGrowth = false := by
  refine Bool.eq_false_iff.mpr fun hgrowth => ?_
  have hlt := (t.isMonotonicGrowth_iff.mp hgrowth).2
  rw [h.final] at hlt
  exact Nat.lt_irrefl _ hlt

/-- A peak is a bound that is reached. -/
theorem foldl_max_eq {l : List Nat} {a m : Nat} (hle : ∀ x ∈ a :: l, x ≤ m) (hmem : m ∈ a :: l) :
    l.foldl max a = m := by
  refine Nat.le_antisymm ?_ ?_
  · refine Nat.le_of_lt_succ (foldl_max_lt_iff.mpr ⟨?_, fun x hx => ?_⟩)
    · exact Nat.lt_succ_of_le (hle a List.mem_cons_self)
    · exact Nat.lt_succ_of_le (hle x (List.mem_cons_of_mem a hx))
  · refine Nat.le_of_not_lt fun hlt => ?_
    obtain ⟨ha, hl⟩ := foldl_max_lt_iff.mp hlt
    rcases List.mem_cons.mp hmem with rfl | hm
    · exact Nat.lt_irrefl _ ha
    · exact Nat.lt_irrefl _ (hl m hm)

theorem Trajectory.peakResidentMib_eq (t : Trajectory) :
    t.peakResidentMib = t.residents.foldl max t.baseMib := by
  rw [List.foldl_max]
  exact Nat.max_comm _ _

/-- **A script of inert steps is flat.** -/
theorem returns_flat {r : SessionRecording} (h : ∀ s ∈ r.steps, s.Inert) :
    r.simulate.Returns 0 := by
  have hall : ∀ n ∈ r.simulate.residents, n = r.baseMib.toNat :=
    (simulateFrom_inert h 0 ⟨r.baseMib.toNat, 0⟩).1
  constructor
  · rw [Trajectory.finalResidentMib_eq]
    cases hlast : r.simulate.residents.getLast? with
    | none => rfl
    | some n => exact hall n (List.mem_of_getLast? hlast)
  · rw [Trajectory.peakResidentMib_eq, Nat.add_zero]
    refine foldl_max_eq (fun x hx => ?_) List.mem_cons_self
    rcases List.mem_cons.mp hx with rfl | hx
    · exact Nat.le_refl _
    · exact Nat.le_of_eq (hall x hx)

/-- **A script that allocates, does inert steps and frees the same is a plateau.** -/
theorem returns_plateau {r : SessionRecording} (mib : UInt64) (steps : List Step)
    (hsteps : r.steps = .allocate mib :: (steps ++ [.free mib])) (h : ∀ s ∈ steps, s.Inert)
    (hfit : r.baseMib.toNat + mib.toNat < u64Size) : r.simulate.Returns mib.toNat := by
  let c : Counters := Counters.apply ⟨r.baseMib.toNat, 0⟩ (.allocate mib)
  have hc : c.resident = r.baseMib.toNat + mib.toNat :=
    Nat.min_eq_left (Nat.le_sub_one_of_lt hfit)
  obtain ⟨hflat, hend⟩ := simulateFrom_inert h 1 c
  have hres : r.simulate.residents
      = c.resident :: ((simulateFrom 1 c steps).map (·.residentMib) ++ [r.baseMib.toNat]) := by
    unfold Trajectory.residents SessionRecording.simulate
    rw [hsteps, simulateFrom, simulateFrom_append, List.map_cons, List.map_append]
    show c.resident :: (_ ++ [(steps.foldl Counters.apply c).resident - mib.toNat]) = _
    rw [hend, hc, Nat.add_sub_cancel]
  constructor
  · rw [Trajectory.finalResidentMib_eq, hres, ← List.cons_append, List.getLast?_concat]
    rfl
  · rw [Trajectory.peakResidentMib_eq, hres]
    show List.foldl max r.baseMib.toNat _ = r.baseMib.toNat + mib.toNat
    rw [← hc]
    refine foldl_max_eq (fun x hx => ?_) (by simp)
    have hbase : r.baseMib.toNat ≤ c.resident := hc ▸ Nat.le_add_right _ _
    simp only [List.mem_cons, List.mem_append, List.not_mem_nil, or_false] at hx
    rcases hx with rfl | rfl | hx | rfl
    · exact hbase
    · exact Nat.le_refl _
    · exact Nat.le_of_eq (hflat x hx)
    · exact hbase

/-! ### What the scenarios take -/

theorem inert_loop {steps : List Step} (h : ∀ s ∈ steps, s.Inert) (n : Nat) :
    ∀ s ∈ (List.replicate n steps).flatten, s.Inert := by
  intro s hs
  obtain ⟨l, hl, hsl⟩ := List.mem_flatten.mp hs
  exact h s (List.eq_of_mem_replicate hl ▸ hsl)

/-- Steps that are appended in a loop; the rest of the recording stays. -/
theorem withSteps_eq (steps : List Step) (n : Nat) (r : SessionRecording) :
    r.withSteps steps n
      = { r with steps := r.steps ++ (List.replicate n steps).flatten } := by
  have hfold : ∀ (xs : List Step) (r : SessionRecording),
      xs.foldl SessionRecording.withStep r = { r with steps := r.steps ++ xs } := by
    intro xs
    induction xs with
    | nil => simp
    | cons x xs ih => simp [ih, SessionRecording.withStep]
  induction n generalizing r with
  | zero => simp [SessionRecording.withSteps]
  | succ n ih => simp [SessionRecording.withSteps, ih, hfold, List.replicate_succ]

/-- A recording carries the slug of its scenario and the baseline of its provider. -/
theorem recording_fields (getEnv : String → Option String) (s : Scenario) (p : Provider)
    (intensity : UInt64) :
    (s.recording getEnv p intensity).name = s.slug ∧
      (s.recording getEnv p intensity).provider = p ∧
      (s.recording getEnv p intensity).baseMib = providerBaseMib p := by
  cases s <;> unfold Scenario.recording <;> dsimp only [SessionRecording.withStep] <;>
    try rw [withSteps_eq]
  all_goals exact ⟨rfl, rfl, rfl⟩

/-- **Every scenario but the leak returns to its baseline.** -/
theorem returns_recording (getEnv : String → Option String) {s : Scenario} (hs : s ≠ .leak)
    (p : Provider) (intensity : UInt64)
    (hfit : (providerBaseMib p).toNat + (overcommitHoldMib getEnv).toNat < u64Size) :
    (s.recording getEnv p intensity).simulate.Returns (s.heldMib getEnv) := by
  have hsmall : ∀ n : UInt64, n.toNat ≤ 40 → (providerBaseMib p).toNat + n.toNat < u64Size := by
    intro n hn
    have hbase : (providerBaseMib p).toNat ≤ 320 := by cases p <;> decide
    have hsize : 360 < u64Size := by decide
    omega
  cases s with
  | leak => exact absurd rfl hs
  | burst =>
      have hinert : ∀ s ∈ Step.spawnChild 30 (800 * max intensity 1)
          :: (List.replicate (20 * max intensity 1).toNat [Step.emit 500 120]).flatten,
          s.Inert := by
        rw [List.forall_mem_cons]
        exact ⟨trivial, inert_loop (by simp [Step.Inert]) _⟩
      unfold Scenario.recording
      dsimp only
      rw [withSteps_eq]
      refine returns_plateau 40 _ rfl hinert ?_
      exact hsmall 40 (by decide)
  | soak =>
      unfold Scenario.recording
      dsimp only
      rw [withSteps_eq]
      exact returns_flat (inert_loop (by simp [Step.Inert]) _)
  | idle =>
      unfold Scenario.recording
      dsimp only
      rw [withSteps_eq]
      refine returns_flat fun s hs => ?_
      rcases List.mem_append.mp hs with hs | hs
      · exact inert_loop (by simp [Step.Inert]) _ s hs
      · rw [List.mem_singleton.mp hs]
        trivial
  | hold =>
      refine returns_plateau 40 [.spawnChild 30 60000, .sleep 60000] rfl
        (by simp [Step.Inert]) ?_
      exact hsmall 40 (by decide)
  | escape =>
      refine returns_plateau 20 [.orphan 2500 30000, .sleep 30000] rfl
        (by simp [Step.Inert]) ?_
      exact hsmall 20 (by decide)
  | overcommit =>
      exact returns_plateau _ [.spawnChild 30 60000, .sleep 60000] rfl
        (by simp [Step.Inert]) hfit

/-- **How many processes escape does not depend on the intensity**: one in the escape scenario, none
in the others. -/
theorem countP_isOrphan_recording (getEnv : String → Option String) (s : Scenario) (p : Provider)
    (intensity : UInt64) :
    (s.recording getEnv p intensity).steps.countP Scenario.isOrphan
      = if s = .escape then 1 else 0 := by
  have hloop : ∀ (n : Nat) (steps : List Step), steps.countP Scenario.isOrphan = 0 →
      (List.replicate n steps).flatten.countP Scenario.isOrphan = 0 := by
    intro n steps h
    refine List.countP_eq_zero.mpr fun s hs => ?_
    obtain ⟨l, hl, hsl⟩ := List.mem_flatten.mp hs
    exact List.countP_eq_zero.mp h s (List.eq_of_mem_replicate hl ▸ hsl)
  cases s with
  | burst =>
      unfold Scenario.recording
      dsimp only
      rw [withSteps_eq]
      show (_ ++ _ ++ [Step.free 40]).countP _ = 0
      rw [List.countP_append, List.countP_append, hloop _ _ rfl]
      rfl
  | soak =>
      unfold Scenario.recording
      dsimp only
      rw [withSteps_eq]
      exact hloop _ _ rfl
  | idle =>
      unfold Scenario.recording
      dsimp only
      rw [withSteps_eq]
      show (([] ++ _) ++ [Step.emit 1 40]).countP _ = 0
      rw [List.countP_append, List.nil_append, hloop _ _ rfl]
      rfl
  | leak => rfl
  | hold => rfl
  | escape => rfl
  | overcommit => rfl

theorem escapesPerAgent_eq (getEnv : String → Option String) (s : Scenario) (p : Provider) :
    s.escapesPerAgent getEnv p = if s = .escape then 1 else 0 :=
  countP_isOrphan_recording getEnv s p 1

/-- The leak ends above its baseline, unless the number of its ticks wraps to none. -/
theorem growth_leak (getEnv : String → Option String) (p : Provider) {intensity : UInt64}
    (hticks : 10 * max intensity 1 ≠ 0) :
    (Scenario.leak.recording getEnv p intensity).simulate.isMonotonicGrowth = true := by
  have hbase : (providerBaseMib p).toNat ≤ 320 := by cases p <;> decide
  have hpos : 0 < (10 * max intensity 1).toNat := by
    refine Nat.pos_of_ne_zero fun h => hticks ?_
    exact UInt64.toNat_inj.mp h
  have hgrown : (providerBaseMib p).toNat
      < satAdd (providerBaseMib p).toNat (satMul 8 (10 * max intensity 1).toNat) := by
    have hsize : 330 < u64Size := by decide
    unfold satAdd satMul
    omega
  refine (Trajectory.isMonotonicGrowth_iff _).mpr ⟨?_, hgrown⟩
  refine List.isChain_cons_cons.mpr ⟨Nat.le_refl _, ?_⟩
  exact List.isChain_cons_cons.mpr ⟨Nat.le_of_lt hgrown, List.isChain_singleton _⟩

/-- **The leak detector flags the leak and nothing else**, and whatever it does not flag returns to its
baseline with a peak that does not depend on the intensity. -/
theorem growth_iff_leak (getEnv : String → Option String) (s : Scenario) (p : Provider)
    (intensity : UInt64) (hticks : 10 * max intensity 1 ≠ 0)
    (hfit : (providerBaseMib p).toNat + (overcommitHoldMib getEnv).toNat < u64Size) :
    ((s.recording getEnv p intensity).simulate.isMonotonicGrowth = true ↔
        s.expectsBoundedMemory = false) ∧
      (s.expectsBoundedMemory = true →
        (s.recording getEnv p intensity).simulate.finalResidentMib = (providerBaseMib p).toNat ∧
          (s.recording getEnv p intensity).simulate.peakResidentMib
            = (providerBaseMib p).toNat + s.heldMib getEnv) := by
  by_cases hs : s = .leak
  · subst hs
    exact ⟨iff_of_true (growth_leak getEnv p hticks) rfl, fun h => absurd h Bool.false_ne_true⟩
  · have hbounded : s.expectsBoundedMemory = true := by
      cases s <;> first | exact absurd rfl hs | rfl
    have hreturns := returns_recording getEnv hs p intensity hfit
    have hbase : (s.recording getEnv p intensity).simulate.baseMib = (providerBaseMib p).toNat :=
      congrArg UInt64.toNat (recording_fields getEnv s p intensity).2.2
    refine ⟨iff_of_false ?_ ?_, fun _ => ⟨?_, ?_⟩⟩
    · exact Bool.eq_false_iff.mp hreturns.not_growth
    · rw [hbounded]
      exact fun h => Bool.false_ne_true h.symm
    · rw [hreturns.final, hbase]
    · rw [hreturns.peak, hbase]

/-- The leak at the lowest intensity. -/
theorem growth_iff_leak_once :
    ((Scenario.leak.recording (fun _ => none) .codex 1).simulate.isMonotonicGrowth = true ↔
        Scenario.leak.expectsBoundedMemory = false) ∧
      (Scenario.leak.expectsBoundedMemory = true →
        (Scenario.leak.recording (fun _ => none) .codex 1).simulate.finalResidentMib
            = (providerBaseMib .codex).toNat ∧
          (Scenario.leak.recording (fun _ => none) .codex 1).simulate.peakResidentMib
            = (providerBaseMib .codex).toNat + Scenario.leak.heldMib fun _ => none) :=
  growth_iff_leak (fun _ => none) .leak .codex 1 (by decide) (by decide)

end MemMux.Stub
