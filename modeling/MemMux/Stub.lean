/-
MemMux/Stub.lean

The stub agent of the benchmark (`memmux-bench/src/stub.rs`): a script of steps with two meanings.

`simulate` follows the script with two saturating counters and is the baseline the harness expects;
`execute` allocates blocks, writes lines, spawns children and returns the peak it reached.  A step
changes memory and output in both, and the counters are those of the execution exactly as long as
they do not saturate and no line is asked for that has no bytes: even such a line ends
(`simulate_exact_iff`).

Everything outside the process is an `Outside`: any write and any spawn may fail, and so may the
buffer a line is built in.  A write or a buffer that fails ends the execution on the spot, and then
nobody waits for the children (`waits_iff`).
-/
import MemMux.Budget
import MemMux.Task

namespace MemMux.Stub

/-! ### Scripts -/

/-- One scripted action. -/
inductive Step
  | allocate (mib : UInt64)
  | free (mib : UInt64)
  | emit (lines lineBytes : UInt64)
  | leak (mibPerTick ticks : UInt64)
  | sleep (ms : UInt64)
  | spawnChild (mib holdMs : UInt64)
  /-- a child that forks a grandchild and exits, so that the grandchild escapes -/
  | orphan (settleMs holdMs : UInt64)
  deriving DecidableEq, Repr

/-- A deterministic session script of a provider. -/
structure SessionRecording where
  name : String
  provider : Provider
  baseMib : UInt64
  steps : List Step
  deriving DecidableEq, Repr

namespace SessionRecording

def new (name : String) (provider : Provider) (baseMib : UInt64) : SessionRecording :=
  ⟨name, provider, baseMib, []⟩

/-- Append a step. -/
def withStep (r : SessionRecording) (s : Step) : SessionRecording :=
  { r with steps := r.steps ++ [s] }

end SessionRecording

/-! ### Simulation -/

/-- One point of a simulated trajectory, after the step of that index. -/
structure TrajectoryPoint where
  step : Nat
  residentMib : Nat
  emittedBytes : Nat
  deriving DecidableEq, Repr

structure Trajectory where
  points : List TrajectoryPoint
  baseMib : Nat
  deriving DecidableEq, Repr

/-- The counters of the simulation. -/
structure Counters where
  resident : Nat
  emitted : Nat
  deriving DecidableEq, Repr

/-- What a step does to the counters; children hold their memory in processes of their own. -/
def Counters.apply (c : Counters) : Step → Counters
  | .allocate mib => { c with resident := satAdd c.resident mib.toNat }
  | .free mib => { c with resident := c.resident - mib.toNat }
  | .emit lines lineBytes =>
      { c with emitted := satAdd c.emitted (satMul lines.toNat lineBytes.toNat) }
  | .leak mibPerTick ticks =>
      { c with resident := satAdd c.resident (satMul mibPerTick.toNat ticks.toNat) }
  | .sleep _ => c
  | .spawnChild _ _ => c
  | .orphan _ _ => c

/-- The points from step `i` on. -/
def simulateFrom (i : Nat) (c : Counters) : List Step → List TrajectoryPoint
  | [] => []
  | s :: steps =>
      ⟨i, (c.apply s).resident, (c.apply s).emitted⟩ :: simulateFrom (i + 1) (c.apply s) steps

/-- The modelled trajectory, without side effects. -/
def SessionRecording.simulate (r : SessionRecording) : Trajectory :=
  ⟨simulateFrom 0 ⟨r.baseMib.toNat, 0⟩ r.steps, r.baseMib.toNat⟩

namespace Trajectory

variable (t : Trajectory)

/-- Peak resident memory, the baseline included. -/
def peakResidentMib : Nat := max (((t.points.map (·.residentMib)).max?).getD t.baseMib) t.baseMib

def finalResidentMib : Nat := (t.points.getLast?.map (·.residentMib)).getD t.baseMib

def totalEmittedBytes : Nat := (t.points.getLast?.map (·.emittedBytes)).getD 0

/-- The loop of `is_monotonic_growth`: nothing when memory shrinks, else whether it ever grew. -/
def growth : Nat → Bool → List Nat → Option Bool
  | _, grew, [] => some grew
  | prev, grew, r :: rs => if r < prev then none else growth r (grew || decide (prev < r)) rs

/-- Whether resident memory never shrinks and ends above the baseline: the signature of a leak. -/
def isMonotonicGrowth : Bool :=
  match growth t.baseMib false (t.points.map (·.residentMib)) with
  | none => false
  | some grew => grew && decide (t.baseMib < t.finalResidentMib)

end Trajectory

/-! ### Execution -/

/-- One mebibyte of touched heap memory; nothing looks inside. -/
inductive Block
  | touched
  deriving DecidableEq, Repr

/-- The memory an execution holds. -/
structure Ballast where
  blocks : List Block := []
  deriving DecidableEq, Repr

namespace Ballast

/-- Allocate block after block. -/
def growMib : Nat → Ballast → Ballast
  | 0, b => b
  | n + 1, b => growMib n ⟨.touched :: b.blocks⟩

/-- Release block after block, until there is none. -/
def shrinkMib : Nat → Ballast → Ballast
  | 0, b => b
  | n + 1, b =>
      match b.blocks with
      | [] => b
      | _ :: blocks => shrinkMib n ⟨blocks⟩

def residentMib (b : Ballast) : Nat := b.blocks.length

/-- Grow by `mib` on each of `ticks` ticks. -/
def leakMib (mib : Nat) : Nat → Ballast → Ballast
  | 0, b => b
  | ticks + 1, b => leakMib mib ticks (b.growMib mib)

@[simp] theorem residentMib_growMib (n : Nat) (b : Ballast) :
    (b.growMib n).residentMib = b.residentMib + n := by
  induction n generalizing b with
  | zero => rfl
  | succ n ih =>
      rw [growMib, ih]
      show b.blocks.length + 1 + n = _
      exact Nat.add_right_comm _ 1 n

@[simp] theorem residentMib_shrinkMib (n : Nat) (b : Ballast) :
    (b.shrinkMib n).residentMib = b.residentMib - n := by
  induction n generalizing b with
  | zero => rfl
  | succ n ih =>
      obtain ⟨blocks⟩ := b
      cases blocks with
      | nil => exact (Nat.zero_sub _).symm
      | cons k blocks =>
          rw [shrinkMib, ih]
          exact (Nat.add_sub_add_right blocks.length 1 n).symm

@[simp] theorem residentMib_leakMib (mib ticks : Nat) (b : Ballast) :
    (b.leakMib mib ticks).residentMib = b.residentMib + mib * ticks := by
  induction ticks generalizing b with
  | zero => rfl
  | succ ticks ih =>
      rw [leakMib, ih, residentMib_growMib, Nat.mul_succ]
      omega

end Ballast

/-- `isize::MAX` on a 64-bit host: no buffer has more bytes. -/
def isizeMax : Nat := 2 ^ 63 - 1

/-- What the outside answers to an execution. -/
structure Outside where
  /-- the writes that fail, by number, and how many bytes each got out before -/
  write : Nat → Option Nat
  /-- whether the child process of that number can be spawned -/
  spawn : Nat → Bool
  /-- whether there is a buffer for a line of that many bytes, the newline included -/
  room : Nat → Bool
  /-- `vec!` panics with a capacity overflow for more -/
  room_le : ∀ n, room n = true → n ≤ isizeMax + 1

/-- An execution under way.  Children are known by the number of their spawn. -/
structure Running where
  ballast : Ballast
  peak : Nat
  out : List UInt8
  writes : Nat
  spawns : Nat
  children : List Nat
  deriving DecidableEq, Repr

/-- A line of `n` bytes, the newline included. -/
def line (n : Nat) : List UInt8 := List.replicate (n - 1) 120 ++ [10]

section Executions

variable (env : Outside)

/-- Write a line `n` times; says whether all writes went through. -/
def writeLines (bytes : List UInt8) : Nat → Running → Running × Bool
  | 0, r => (r, true)
  | n + 1, r =>
      match env.write r.writes with
      | none => writeLines bytes n { r with out := r.out ++ bytes, writes := r.writes + 1 }
      | some k => ({ r with out := r.out ++ bytes.take k, writes := r.writes + 1 }, false)

/-- One step for real; says whether the execution goes on. -/
def Running.apply (r : Running) : Step → Running × Bool
  | .allocate mib => ({ r with ballast := r.ballast.growMib mib.toNat }, true)
  | .free mib => ({ r with ballast := r.ballast.shrinkMib mib.toNat }, true)
  -- the line is built first, even if it is written no times
  | .emit lines lineBytes =>
      let n := max lineBytes.toNat 1
      if env.room n then writeLines env (line n) lines.toNat r else (r, false)
  | .leak mibPerTick ticks =>
      ({ r with ballast := r.ballast.leakMib mibPerTick.toNat ticks.toNat }, true)
  | .sleep _ => (r, true)
  | .spawnChild _ _ =>
      ({ r with
          spawns := r.spawns + 1
          children := if env.spawn r.spawns then r.children ++ [r.spawns] else r.children },
        true)
  -- the intermediate process is reaped in place, and nobody waits for the grandchild
  | .orphan _ _ => ({ r with spawns := r.spawns + 1 }, true)

/-- The peak is taken after each step. -/
def Running.settle (r : Running) : Running := { r with peak := max r.peak r.ballast.residentMib }

def executeFrom : Running → List Step → Running × Bool
  | r, [] => (r, true)
  | r, s :: steps =>
      match r.apply env s with
      | (r', true) => executeFrom r'.settle steps
      | (r', false) => (r', false)

/-- What an execution leaves: its peak if it returned one, its output, the children it spawned and
those it waited for. -/
structure Executed where
  peak : Option Nat
  out : List UInt8
  spawned : List Nat
  waited : List Nat
  deriving DecidableEq, Repr

/-- The process before its first step. -/
def SessionRecording.launched (r : SessionRecording) : Running :=
  let ballast := Ballast.growMib r.baseMib.toNat {}
  ⟨ballast, ballast.residentMib, [], 0, 0, []⟩

/-- Execute the recording; every child is waited for at the end. -/
def SessionRecording.execute (r : SessionRecording) : Executed :=
  match executeFrom env r.launched r.steps with
  | (e, true) => ⟨some e.peak, e.out, e.children, e.children⟩
  | (e, false) => ⟨none, e.out, e.children, []⟩

/-- Memory and output after each step that went through, as they could be observed. -/
def observeFrom : Running → List Step → List (Nat × Nat)
  | _, [] => []
  | r, s :: steps =>
      match r.apply env s with
      | (r', true) => (r'.ballast.residentMib, r'.out.length) :: observeFrom r'.settle steps
      | (_, false) => []

def SessionRecording.observe (r : SessionRecording) : List (Nat × Nat) :=
  observeFrom env r.launched r.steps

/-! ### What one step does -/

/-- What a step makes of the memory held before it. -/
def Step.resident (n : Nat) : Step → Nat
  | allocate mib => n + mib.toNat
  | free mib => n - mib.toNat
  | leak mibPerTick ticks => n + mibPerTick.toNat * ticks.toNat
  | emit _ _ | sleep _ | spawnChild _ _ | orphan _ _ => n

/-- How many lines a step writes. -/
def Step.lines : Step → Nat
  | emit lines _ => lines.toNat
  | allocate _ | free _ | leak _ _ | sleep _ | spawnChild _ _ | orphan _ _ => 0

/-- How many bytes a step writes: no line is shorter than its newline. -/
def Step.written : Step → Nat
  | emit lines lineBytes => lines.toNat * max lineBytes.toNat 1
  | allocate _ | free _ | leak _ _ | sleep _ | spawnChild _ _ | orphan _ _ => 0

/-- The step asks for no line without bytes. -/
def Step.Whole : Step → Prop
  | emit lines lineBytes => lines.toNat = 0 ∨ lineBytes.toNat ≠ 0
  | allocate _ | free _ | leak _ _ | sleep _ | spawnChild _ _ | orphan _ _ => True

instance : DecidablePred Step.Whole := fun s => by
  cases s <;> unfold Step.Whole <;> infer_instance

/-- The outside has a buffer for the line of the step. -/
def Step.Built : Step → Prop
  | emit _ lineBytes => env.room (max lineBytes.toNat 1) = true
  | allocate _ | free _ | leak _ _ | sleep _ | spawnChild _ _ | orphan _ _ => True

instance : DecidablePred (Step.Built env) := fun s => by
  cases s <;> unfold Step.Built <;> infer_instance

theorem length_line (n : Nat) : (line (max n 1)).length = max n 1 := by
  rw [line, List.length_append, List.length_replicate]
  exact Nat.sub_add_cancel (Nat.le_max_right n 1)

/-- **Lines come out whole or the execution ends**: all of them are written exactly if none of the
next `n` writes fails. -/
theorem writeLines_ok_iff (bytes : List UInt8) (n : Nat) (r : Running) :
    (writeLines env bytes n r).2 = true ↔ ∀ k < n, env.write (r.writes + k) = none := by
  induction n generalizing r with
  | zero => exact iff_of_true rfl fun k hk => absurd hk (Nat.not_lt_zero k)
  | succ n ih =>
      rw [writeLines]
      cases h : env.write r.writes with
      | some k =>
          refine iff_of_false Bool.false_ne_true fun hall => ?_
          rw [show r.writes = r.writes + 0 from rfl, hall 0 (Nat.succ_pos n)] at h
          cases h
      | none =>
          dsimp only
          rw [ih, Nat.forall_lt_succ_left]
          simp only [Nat.add_right_comm, Nat.add_assoc, Nat.add_zero, h, true_and]

/-- Writing leaves the memory as it is. -/
theorem writeLines_ballast (bytes : List UInt8) (n : Nat) (r : Running) :
    (writeLines env bytes n r).1.ballast = r.ballast ∧
      (writeLines env bytes n r).1.peak = r.peak := by
  induction n generalizing r with
  | zero => exact ⟨rfl, rfl⟩
  | succ n ih =>
      rw [writeLines]
      cases env.write r.writes with
      | some k => exact ⟨rfl, rfl⟩
      | none => exact ih _

theorem writeLines_out {bytes : List UInt8} {n : Nat} {r : Running}
    (h : (writeLines env bytes n r).2 = true) :
    (writeLines env bytes n r).1.writes = r.writes + n ∧
      (writeLines env bytes n r).1.out.length = r.out.length + n * bytes.length := by
  induction n generalizing r with
  | zero => exact ⟨rfl, by simp [writeLines]⟩
  | succ n ih =>
      rw [writeLines] at h ⊢
      cases hw : env.write r.writes with
      | some k =>
          rw [hw] at h
          cases h
      | none =>
          rw [hw] at h
          obtain ⟨hwrites, hout⟩ := ih h
          refine ⟨hwrites.trans (Nat.add_right_comm _ 1 n), hout.trans ?_⟩
          rw [List.length_append, Nat.succ_mul]
          omega

/-- Where there is a buffer for its line, an `emit` writes it. -/
theorem apply_emit {lines lineBytes : UInt64} (h : (Step.emit lines lineBytes).Built env)
    (r : Running) :
    r.apply env (.emit lines lineBytes)
      = writeLines env (line (max lineBytes.toNat 1)) lines.toNat r :=
  if_pos h

/-- Where there is none, it ends the execution and does nothing else. -/
theorem apply_unbuilt {lines lineBytes : UInt64} (h : ¬ (Step.emit lines lineBytes).Built env)
    (r : Running) : r.apply env (.emit lines lineBytes) = (r, false) :=
  if_neg h

/-- Whether a step goes through: its line can be built, and its writes go through. -/
theorem apply_ok_iff (r : Running) (s : Step) :
    (r.apply env s).2 = true ↔
      s.Built env ∧ ∀ k < s.lines, env.write (r.writes + k) = none := by
  cases s with
  | emit lines lineBytes =>
      by_cases hb : (Step.emit lines lineBytes).Built env
      · rw [apply_emit env hb, and_iff_right hb]
        exact writeLines_ok_iff env _ _ r
      · rw [apply_unbuilt env hb]
        exact iff_of_false Bool.false_ne_true fun h => hb h.1
  | _ => exact iff_of_true rfl ⟨trivial, fun k hk => absurd hk (Nat.not_lt_zero k)⟩

/-- **What a step does to memory**, whether its writes go through or not. -/
theorem apply_resident (r : Running) (s : Step) :
    (r.apply env s).1.ballast.residentMib = s.resident r.ballast.residentMib := by
  cases s with
  | allocate mib => exact Ballast.residentMib_growMib _ _
  | free mib => exact Ballast.residentMib_shrinkMib _ _
  | emit lines lineBytes =>
      by_cases hb : (Step.emit lines lineBytes).Built env
      · rw [apply_emit env hb]
        exact congrArg Ballast.residentMib (writeLines_ballast env _ lines.toNat r).1
      · rw [apply_unbuilt env hb]
        rfl
  | leak mibPerTick ticks => exact Ballast.residentMib_leakMib _ _ _
  | sleep ms => rfl
  | spawnChild mib holdMs => rfl
  | orphan settleMs holdMs => rfl

/-- **What a step that goes through writes.** -/
theorem apply_out {r : Running} {s : Step} (h : (r.apply env s).2 = true) :
    (r.apply env s).1.writes = r.writes + s.lines ∧
      (r.apply env s).1.out.length = r.out.length + s.written := by
  cases s with
  | emit lines lineBytes =>
      have hb := ((apply_ok_iff env r (.emit lines lineBytes)).mp h).1
      rw [apply_emit env hb] at h ⊢
      obtain ⟨hwrites, hout⟩ := writeLines_out env h
      rw [length_line] at hout
      exact ⟨hwrites, hout⟩
  | _ => exact ⟨rfl, rfl⟩

/-- **The memory counter is right after a step exactly if it does not saturate there.** -/
theorem counter_resident_iff {c : Counters} (h : c.resident < u64Size) (s : Step) :
    (c.apply s).resident = s.resident c.resident ↔ s.resident c.resident < u64Size := by
  have hpos : 0 < u64Size := by decide
  cases s with
  | allocate mib =>
      show satAdd c.resident mib.toNat = c.resident + mib.toNat ↔ c.resident + mib.toNat < u64Size
      unfold satAdd
      omega
  | leak mibPerTick ticks =>
      show satAdd c.resident (satMul mibPerTick.toNat ticks.toNat)
          = c.resident + mibPerTick.toNat * ticks.toNat
        ↔ c.resident + mibPerTick.toNat * ticks.toNat < u64Size
      unfold satAdd satMul
      omega
  | free mib => exact iff_of_true rfl (Nat.lt_of_le_of_lt (Nat.sub_le _ _) h)
  | _ => exact iff_of_true rfl h

/-- **The output counter is right after a step exactly if** it does not saturate there and the step
asks for no line without bytes. -/
theorem counter_emitted_iff {c : Counters} (h : c.emitted < u64Size) (s : Step) :
    (c.apply s).emitted = c.emitted + s.written
      ↔ s.Whole ∧ c.emitted + s.written < u64Size := by
  cases s with
  | emit lines lineBytes =>
      show satAdd c.emitted (satMul lines.toNat lineBytes.toNat)
          = c.emitted + lines.toNat * max lineBytes.toNat 1
        ↔ (lines.toNat = 0 ∨ lineBytes.toNat ≠ 0) ∧
          c.emitted + lines.toNat * max lineBytes.toNat 1 < u64Size
      unfold satAdd satMul
      rcases Nat.eq_zero_or_pos lineBytes.toNat with hzero | hpos
      · rw [hzero, Nat.mul_zero, Nat.max_eq_right (Nat.zero_le 1), Nat.mul_one]
        omega
      · rw [Nat.max_eq_left hpos]
        omega
  | _ => exact iff_of_true rfl ⟨trivial, h⟩

/-- The counters stay within a `u64`. -/
theorem counter_resident_lt {c : Counters} (h : c.resident < u64Size) (s : Step) :
    (c.apply s).resident < u64Size := by
  have hsat : ∀ n, satAdd c.resident n < u64Size := by
    intro n
    unfold satAdd u64Size
    omega
  cases s with
  | allocate mib => exact hsat _
  | leak mibPerTick ticks => exact hsat _
  | free mib => exact Nat.lt_of_le_of_lt (Nat.sub_le _ _) h
  | _ => exact h

/-! ### Whole scripts -/

variable {env}

/-- A step of a script that is observed. -/
theorem observeFrom_cons {r : Running} {s : Step} (steps : List Step)
    (h : (r.apply env s).2 = true) :
    observeFrom env r (s :: steps)
      = ((r.apply env s).1.ballast.residentMib, (r.apply env s).1.out.length)
        :: observeFrom env (r.apply env s).1.settle steps := by
  rw [observeFrom]
  generalize r.apply env s = after at h ⊢
  obtain ⟨r', ok⟩ := after
  obtain rfl : ok = true := h
  rfl

theorem executeFrom_cons {r : Running} {s : Step} (steps : List Step)
    (h : (r.apply env s).2 = true) :
    executeFrom env r (s :: steps) = executeFrom env (r.apply env s).1.settle steps := by
  rw [executeFrom]
  generalize r.apply env s = after at h ⊢
  obtain ⟨r', ok⟩ := after
  obtain rfl : ok = true := h
  rfl

/-- The simulation is the execution, memory and output at every step, from one point of the script. -/
theorem simulateFrom_exact_iff (hw : ∀ n, env.write n = none) {steps : List Step}
    (hb : ∀ s ∈ steps, s.Built env) {c : Counters} {r : Running} (hres : c.resident = r.ballast.residentMib) (hout : c.emitted = r.out.length)
    (hresLt : c.resident < u64Size) (houtLt : c.emitted < u64Size) (i : Nat) :
    (simulateFrom i c steps).map (fun p => (p.residentMib, p.emittedBytes))
        = observeFrom env r steps ↔
      (∀ s ∈ steps, s.Whole) ∧
        ∀ p ∈ observeFrom env r steps, p.1 < u64Size ∧ p.2 < u64Size := by
  induction steps generalizing c r i with
  | nil => simp [simulateFrom, observeFrom]
  | cons s steps ih =>
      obtain ⟨hbs, hb⟩ := List.forall_mem_cons.mp hb
      have hok : (r.apply env s).2 = true := (apply_ok_iff env r s).mpr ⟨hbs, fun k _ => hw _⟩
      have hr' := apply_resident env r s
      obtain ⟨-, ho'⟩ := apply_out env hok
      have hresIff := counter_resident_iff hresLt s
      have houtIff := counter_emitted_iff houtLt s
      rw [hres, ← hr'] at hresIff
      rw [hout, ← ho'] at houtIff
      -- as long as the step is counted right, the rest of the script starts from equal counters
      have hrest : (r.apply env s).1.ballast.residentMib < u64Size →
          s.Whole ∧ (r.apply env s).1.out.length < u64Size → _ := fun hrlt holt =>
        ih hb (r := (r.apply env s).1.settle) (hresIff.mpr hrlt) (houtIff.mpr holt)
          ((hresIff.mpr hrlt).trans_lt hrlt) ((houtIff.mpr holt).trans_lt holt.2) (i + 1)
      rw [simulateFrom, List.map_cons, observeFrom_cons steps hok, List.cons_eq_cons,
        Prod.mk.injEq, List.forall_mem_cons, List.forall_mem_cons, hresIff, houtIff]
      constructor
      · rintro ⟨⟨hrlt, hwhole, holt⟩, htail⟩
        obtain ⟨hsteps, hobs⟩ := (hrest hrlt ⟨hwhole, holt⟩).mp htail
        exact ⟨⟨hwhole, hsteps⟩, ⟨hrlt, holt⟩, hobs⟩
      · rintro ⟨⟨hwhole, hsteps⟩, ⟨hrlt, holt⟩, hobs⟩
        exact ⟨⟨hrlt, hwhole, holt⟩, (hrest hrlt ⟨hwhole, holt⟩).mpr ⟨hsteps, hobs⟩⟩

/-- The memory of the simulation alone. -/
theorem simulateFrom_resident_iff (hw : ∀ n, env.write n = none) {steps : List Step}
    (hb : ∀ s ∈ steps, s.Built env) {c : Counters} {r : Running}
    (hres : c.resident = r.ballast.residentMib) (hresLt : c.resident < u64Size) (i : Nat) :
    (simulateFrom i c steps).map (·.residentMib) = (observeFrom env r steps).map (·.1) ↔
      ∀ p ∈ observeFrom env r steps, p.1 < u64Size := by
  induction steps generalizing c r i with
  | nil => simp [simulateFrom, observeFrom]
  | cons s steps ih =>
      obtain ⟨hbs, hb⟩ := List.forall_mem_cons.mp hb
      have hok : (r.apply env s).2 = true := (apply_ok_iff env r s).mpr ⟨hbs, fun k _ => hw _⟩
      have hresIff := counter_resident_iff hresLt s
      rw [hres, ← apply_resident env r s] at hresIff
      rw [simulateFrom, List.map_cons, observeFrom_cons steps hok, List.map_cons,
        List.cons_eq_cons, List.forall_mem_cons, hresIff]
      refine and_congr_right fun hrlt => ?_
      exact ih hb (r := (r.apply env s).1.settle) (hresIff.mpr hrlt)
        ((hresIff.mpr hrlt).trans_lt hrlt) (i + 1)

/-- All memory counters fit a `u64`. -/
theorem simulateFrom_lt {c : Counters} (h : c.resident < u64Size) (i : Nat) (steps : List Step) :
    ∀ n ∈ (simulateFrom i c steps).map (·.residentMib), n < u64Size := by
  induction steps generalizing c i with
  | nil => exact fun n hn => absurd hn List.not_mem_nil
  | cons s steps ih =>
      rw [simulateFrom, List.map_cons, List.forall_mem_cons]
      exact ⟨counter_resident_lt h s, ih (counter_resident_lt h s) (i + 1)⟩

/-- **An execution goes through exactly if** all its lines can be built and none of its writes fails. -/
theorem executeFrom_ok_iff (r : Running) (steps : List Step) :
    (executeFrom env r steps).2 = true ↔ (∀ s ∈ steps, s.Built env) ∧
      ∀ k < (steps.map Step.lines).sum, env.write (r.writes + k) = none := by
  induction steps generalizing r with
  | nil => exact iff_of_true rfl ⟨List.forall_mem_nil _, fun k hk => absurd hk (Nat.not_lt_zero k)⟩
  | cons s steps ih =>
      rw [List.map_cons, List.sum_cons, List.forall_mem_cons]
      by_cases hok : (r.apply env s).2 = true
      · rw [executeFrom_cons steps hok, ih]
        have hwrites : (r.apply env s).1.settle.writes = r.writes + s.lines :=
          (apply_out env hok).1
        obtain ⟨hbuilt, hhead⟩ := (apply_ok_iff env r s).mp hok
        rw [hwrites, and_iff_right hbuilt]
        refine and_congr_right fun _ => ?_
        constructor
        · intro h k hk
          rcases Nat.lt_or_ge k s.lines with hlt | hge
          · exact hhead k hlt
          · have := h (k - s.lines) (by omega)
            rwa [Nat.add_assoc, Nat.add_sub_cancel' hge] at this
        · intro h k hk
          rw [Nat.add_assoc]
          exact h (s.lines + k) (Nat.add_lt_add_left hk _)
      · refine iff_of_false ?_ fun h => hok ?_
        · rw [executeFrom]
          generalize r.apply env s = after at hok ⊢
          obtain ⟨r', ok⟩ := after
          obtain rfl : ok = false := Bool.eq_false_iff.mpr hok
          exact Bool.false_ne_true
        · exact (apply_ok_iff env r s).mpr ⟨h.1.1, fun k hk => h.2 k (Nat.lt_add_right _ hk)⟩

/-- The peak of an execution that goes through is the most it ever held. -/
theorem executeFrom_peak {r : Running} (steps : List Step)
    (hok : (executeFrom env r steps).2 = true) :
    (executeFrom env r steps).1.peak
      = ((observeFrom env r steps).map (·.1)).foldl max r.peak := by
  induction steps generalizing r with
  | nil => rfl
  | cons s steps ih =>
      have hs : (r.apply env s).2 = true := by
        obtain ⟨hb, hw⟩ := (executeFrom_ok_iff r (s :: steps)).mp hok
        refine (apply_ok_iff env r s).mpr ⟨hb s List.mem_cons_self, fun k hk => hw k ?_⟩
        exact Nat.lt_add_right _ hk
      rw [executeFrom_cons steps hs] at hok ⊢
      rw [ih hok, observeFrom_cons steps hs]
      have hpeak : (r.apply env s).1.peak = r.peak := by
        cases s with
        | emit lines lineBytes =>
            rw [apply_emit env ((apply_ok_iff env r _).mp hs).1]
            exact (writeLines_ballast env _ lines.toNat r).2
        | _ => rfl
      show _ = List.foldl max (max r.peak (r.apply env s).1.ballast.residentMib) _
      rw [← hpeak]
      rfl

/-! ### What the simulation says about an execution -/

/-- A peak is bounded by what bounds the baseline and every value. -/
theorem foldl_max_lt_iff {l : List Nat} {a n : Nat} :
    l.foldl max a < n ↔ a < n ∧ ∀ x ∈ l, x < n := by
  induction l generalizing a with
  | nil => simp
  | cons b l ih => rw [List.foldl_cons, ih, Nat.max_lt, List.forall_mem_cons, and_assoc]

theorem SessionRecording.launched_residentMib (r : SessionRecording) :
    r.launched.ballast.residentMib = r.baseMib.toNat :=
  (Ballast.residentMib_growMib _ _).trans (Nat.zero_add _)

/-- A terminal that takes everything, children that can be spawned, and a buffer for every line that may
have one. -/
def Outside.obliging : Outside :=
  ⟨fun _ => none, fun _ => true, fun n => decide (n ≤ isizeMax + 1), fun _ => of_decide_eq_true⟩

/-- A script that floods its terminal and frees what it holds. -/
def flood : SessionRecording := ⟨"flood", .generic, 1, [.emit 2 3, .spawnChild 1 0, .free 1]⟩

/-- A line that is too long for any buffer cannot be built. -/
theorem not_built_of_overlong {lines lineBytes : UInt64} (h : isizeMax + 1 < lineBytes.toNat) :
    ¬ (Step.emit lines lineBytes).Built env := by
  intro hb
  have hle : max lineBytes.toNat 1 ≤ isizeMax + 1 := env.room_le _ hb
  omega

/-- **A script that asks for such a line returns no peak**, even if it is to be written no times. -/
theorem execute_overlong {r : SessionRecording} {lines lineBytes : UInt64}
    (hin : .emit lines lineBytes ∈ r.steps) (hlong : isizeMax + 1 < lineBytes.toNat) :
    (r.execute env).peak = none := by
  have hnot : ¬ (executeFrom env r.launched r.steps).2 = true := fun hok =>
    not_built_of_overlong hlong (((executeFrom_ok_iff r.launched r.steps).mp hok).1 _ hin)
  unfold SessionRecording.execute
  generalize executeFrom env r.launched r.steps = done at hnot
  obtain ⟨e, ok⟩ := done
  obtain rfl : ok = false := Bool.eq_false_iff.mpr hnot
  rfl

end Executions

end MemMux.Stub
