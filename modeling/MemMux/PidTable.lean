/-
MemMux/PidTable.lean

Processes and their pids.

A pid names a process only while the process is in the table; once its exit was waited for, the
pid is free, and may be given to another.  Every process therefore also has a number that no
other process has, before or after it.  `Under` is the subtree of some processes, given by their
numbers: whoever is reached from them along the parent links of the moment.

A table changes by births, exits and releases.  Children of a process that exits are adopted by
`init`, so that a process can leave the subtree it is in.  `Since` is what any changes leave of an
earlier table.
-/
import Mathlib.Logic.Function.Basic
import Mathlib.Tactic.Common

/-- A process: the pid of its parent, its number, and whether it has exited and nobody has waited
for it yet. -/
structure Process (π : Type) where
  parent : π
  ident : Nat
  exited : Bool
  deriving DecidableEq, Repr

/-- The processes of a machine, under their pids. -/
structure PidTable (π : Type) where
  procs : π → Option (Process π)
  /-- how many processes there were so far -/
  born : Nat

namespace PidTable

variable {π : Type}

/-- The process under `pid` runs. -/
def running (t : PidTable π) (pid : π) : Bool :=
  match t.procs pid with
  | some pr => !pr.exited
  | none => false

theorem running_iff {t : PidTable π} {pid : π} :
    t.running pid = true ↔ ∃ pr, t.procs pid = some pr ∧ pr.exited = false := by
  unfold running
  cases t.procs pid with
  | none => simp
  | some pr => simp

/-! ### Tables that make sense -/

/-- **A table as an operating system keeps it.**  `reserved` are the pids of `init` and of the
kernel, which are not in the table and never given away. -/
structure Valid (reserved : π → Prop) (t : PidTable π) : Prop where
  free : ∀ p, reserved p → t.procs p = none
  numbered : ∀ p pr, t.procs p = some pr → pr.ident < t.born
  distinct : ∀ p q pr pr', t.procs p = some pr → t.procs q = some pr' → pr.ident = pr'.ident →
    p = q
  parents : ∀ p pr, t.procs p = some pr → reserved pr.parent ∨ t.running pr.parent = true

variable {reserved : π → Prop} {t : PidTable π} {init parent pid : π}

/-- A pid whose process does not run has no children. -/
theorem Valid.parent_ne (hv : Valid reserved t) (hpid : ¬ reserved pid)
    (hrun : t.running pid = false) {p : π} {pr : Process π} (hp : t.procs p = some pr) :
    pr.parent ≠ pid := by
  rintro rfl
  rcases hv.parents p pr hp with h | h
  · exact hpid h
  · rw [hrun] at h
    cases h

/-! ### Subtrees -/

/-- `pid` is in the subtree of one of the processes with the numbers `roots`. -/
inductive Under (roots : Nat → Prop) (t : PidTable π) : π → Prop
  | root {pid pr} (hp : t.procs pid = some pr) (hr : roots pr.ident) : Under roots t pid
  | child {pid pr} (hp : t.procs pid = some pr) (hup : Under roots t pr.parent) : Under roots t pid

variable {roots roots' : Nat → Prop}

/-- There is a process under the pid. -/
theorem Under.procs (hu : Under roots t pid) : ∃ pr, t.procs pid = some pr := by
  cases hu with
  | root hp => exact ⟨_, hp⟩
  | child hp => exact ⟨_, hp⟩

/-- Processes and roots that are added take nobody out of a subtree. -/
theorem Under.mono {t' : PidTable π} (hprocs : ∀ p pr, t.procs p = some pr → t'.procs p = some pr)
    (hroots : ∀ i, roots i → roots' i) (hu : Under roots t pid) : Under roots' t' pid := by
  induction hu with
  | root hp hr => exact .root (hprocs _ _ hp) (hroots _ hr)
  | child hp _ ih => exact .child (hprocs _ _ hp) ih

/-! ### Time -/

/-- **What becomes of a table**: whoever was in it is under the same pid or gone, and who has exited
does not run again. -/
structure Since (t t' : PidTable π) : Prop where
  born : t.born ≤ t'.born
  old : ∀ p pr, t'.procs p = some pr → pr.ident < t.born → ∃ pr₀, t.procs p = some pr₀ ∧
    pr₀.ident = pr.ident ∧ (pr.exited = false → pr₀.exited = false)

theorem Since.refl (t : PidTable π) : Since t t :=
  ⟨Nat.le_refl _, fun _ pr hp _ => ⟨pr, hp, rfl, id⟩⟩

theorem Since.trans {t₀ t₁ t₂ : PidTable π} (h : Since t₀ t₁) (h' : Since t₁ t₂) : Since t₀ t₂ := by
  refine ⟨Nat.le_trans h.born h'.born, fun p pr hp hlt => ?_⟩
  obtain ⟨pr₁, hp₁, heq₁, hrun₁⟩ := h'.old p pr hp (Nat.lt_of_lt_of_le hlt h.born)
  obtain ⟨pr₀, hp₀, heq₀, hrun₀⟩ := h.old p pr₁ hp₁ (heq₁ ▸ hlt)
  exact ⟨pr₀, hp₀, heq₀.trans heq₁, fun hrun => hrun₀ (hrun₁ hrun)⟩

/-- The process that was under `pid` still runs. -/
def Outlives (t t' : PidTable π) (pid : π) : Prop :=
  ∃ old, t.procs pid = some old ∧
    ∃ q pr, t'.procs q = some pr ∧ pr.ident = old.ident ∧ pr.exited = false

/-- It is where it was. -/
theorem Outlives.running {t t' : PidTable π} (ho : Outlives t t' pid) (hv : Valid reserved t)
    (hs : Since t t') : t'.running pid = true := by
  obtain ⟨old, hold, q, pr, hq, heq, hrun⟩ := ho
  obtain ⟨pr₀, hp₀, heq₀, -⟩ := hs.old q pr hq (heq ▸ hv.numbered pid old hold)
  obtain rfl := hv.distinct _ _ _ _ hp₀ hold (heq₀.trans heq)
  exact running_iff.mpr ⟨pr, hq, hrun⟩

/-- Who still runs has run all the time. -/
theorem Outlives.of_since {t₀ t t' : PidTable π} (ho : Outlives t₀ t' pid)
    (hv : Valid reserved t₀) (hs₀ : Since t₀ t) (hs : Since t t') : Outlives t₀ t pid := by
  obtain ⟨old, hold, q, pr, hq, heq, hrun⟩ := ho
  have hlt : pr.ident < t.born := by
    rw [heq]
    exact Nat.lt_of_lt_of_le (hv.numbered pid old hold) hs₀.born
  obtain ⟨pr₁, hp₁, heq₁, hrun₁⟩ := hs.old q pr hq hlt
  exact ⟨old, hold, q, pr₁, hp₁, heq₁.trans heq, hrun₁ hrun⟩

section Changes

variable [DecidableEq π]

/-! ### Changes -/

/-- A child of `parent` is born under `pid`. -/
def birth (parent pid : π) (t : PidTable π) : PidTable π where
  procs := Function.update t.procs pid (some ⟨parent, t.born, false⟩)
  born := t.born + 1

/-- A process after the exit of the one under `pid`. -/
def afterExit (init pid q : π) (pr : Process π) : Process π where
  parent := if pr.parent = pid then init else pr.parent
  ident := pr.ident
  exited := if q = pid then true else pr.exited

/-- The process under `pid` exits; `init` adopts its children. -/
def exit (init pid : π) (t : PidTable π) : PidTable π :=
  { t with procs := fun q => (t.procs q).map (afterExit init pid q) }

/-- The exit of the process under `pid` was waited for. -/
def release (pid : π) (t : PidTable π) : PidTable π :=
  { t with procs := Function.update t.procs pid none }

/-- What is under a pid after a birth. -/
theorem procs_birth (q : π) : (t.birth parent pid).procs q
    = if q = pid then some ⟨parent, t.born, false⟩ else t.procs q :=
  Function.update_apply _ _ _ _

theorem procs_release (q : π) :
    (t.release pid).procs q = if q = pid then none else t.procs q :=
  Function.update_apply _ _ _ _

/-- A newborn takes the place of nobody. -/
theorem procs_birth_of_some (hfree : t.procs pid = none) {q : π} {pr : Process π}
    (hq : t.procs q = some pr) : (t.birth parent pid).procs q = some pr := by
  rw [procs_birth, if_neg]
  · exact hq
  · rintro rfl
    rw [hfree] at hq
    cases hq

/-- Whoever is there after a release was there before. -/
theorem procs_of_release {q : π} {pr : Process π} (hq : (t.release pid).procs q = some pr) :
    t.procs q = some pr := by
  rw [procs_release] at hq
  split at hq
  · cases hq
  · exact hq

/-- A process that is there after an exit was there before. -/
theorem procs_exit {q : π} {pr : Process π} :
    (t.exit init pid).procs q = some pr ↔
      ∃ old, t.procs q = some old ∧ pr = afterExit init pid q old := by
  rw [exit, Option.map_eq_some_iff]
  exact exists_congr fun _ => and_congr_right fun _ => eq_comm

/-- A birth changes nothing about the others. -/
theorem running_birth {q : π} (hne : q ≠ pid) : (t.birth parent pid).running q = t.running q := by
  unfold running
  rw [procs_birth, if_neg hne]

/-- Whoever runs keeps running. -/
theorem running_birth_of_running (hfree : t.procs pid = none) {q : π} (hq : t.running q = true) :
    (t.birth parent pid).running q = true := by
  obtain ⟨pr, hpr, hex⟩ := running_iff.mp hq
  exact running_iff.mpr ⟨pr, procs_birth_of_some hfree hpr, hex⟩

/-- Only the process that exits stops running. -/
theorem running_exit (q : π) :
    (t.exit init pid).running q = (t.running q && decide (q ≠ pid)) := by
  show (match (t.procs q).map (afterExit init pid q) with
    | some pr => !pr.exited
    | none => false) = _
  unfold running
  cases t.procs q with
  | none => rfl
  | some pr =>
      show (!if q = pid then true else pr.exited) = (!pr.exited && decide (q ≠ pid))
      by_cases hq : q = pid <;> simp [hq]

theorem running_release (q : π) :
    (t.release pid).running q = (t.running q && decide (q ≠ pid)) := by
  unfold running
  rw [procs_release]
  by_cases hq : q = pid
  · simp [hq]
  · simp [hq]

theorem Valid.birth (hv : Valid reserved t) (hpid : ¬ reserved pid) (hfree : t.procs pid = none)
    (hparent : t.running parent = true) : Valid reserved (t.birth parent pid) := by
  refine ⟨fun p hp => ?_, fun p pr hp => ?_, fun p q pr pr' hp hq heq => ?_, fun p pr hp => ?_⟩
  · rw [procs_birth, if_neg]
    · exact hv.free p hp
    · rintro rfl
      exact hpid hp
  · rw [procs_birth] at hp
    split at hp
    · obtain rfl := Option.some.inj hp
      exact Nat.lt_succ_self _
    · exact Nat.lt_succ_of_lt (hv.numbered p pr hp)
  · rw [procs_birth] at hp hq
    split at hp
    · obtain rfl := Option.some.inj hp
      split at hq
      · next h₁ h₂ => exact h₁.trans h₂.symm
      · exact absurd heq.symm (Nat.ne_of_lt (hv.numbered q pr' hq))
    · split at hq
      · obtain rfl := Option.some.inj hq
        exact absurd heq (Nat.ne_of_lt (hv.numbered p pr hp))
      · exact hv.distinct p q pr pr' hp hq heq
  · rw [procs_birth] at hp
    split at hp
    · obtain rfl := Option.some.inj hp
      exact .inr (running_birth_of_running hfree hparent)
    · exact (hv.parents p pr hp).imp_right (running_birth_of_running hfree)

theorem Valid.exit (hv : Valid reserved t) (hinit : reserved init) (pid : π) :
    Valid reserved (t.exit init pid) := by
  refine ⟨fun p hp => ?_, fun p pr hp => ?_, fun p q pr pr' hp hq heq => ?_, fun p pr hp => ?_⟩
  · show (t.procs p).map _ = none
    rw [hv.free p hp]
    rfl
  · obtain ⟨old, hold, rfl⟩ := procs_exit.mp hp
    exact hv.numbered p old hold
  · obtain ⟨old, hold, rfl⟩ := procs_exit.mp hp
    obtain ⟨old', hold', rfl⟩ := procs_exit.mp hq
    exact hv.distinct p q old old' hold hold' heq
  · -- children of the process that exits are those of `init` by then
    obtain ⟨old, hold, rfl⟩ := procs_exit.mp hp
    show reserved (if old.parent = pid then init else old.parent) ∨ (t.exit init pid).running
      (if old.parent = pid then init else old.parent) = true
    split
    · exact .inl hinit
    · next hne =>
      refine (hv.parents p old hold).imp_right fun hrun => ?_
      rw [running_exit, hrun]
      exact decide_eq_true hne

theorem Valid.release (hv : Valid reserved t) (hpid : t.running pid = false) :
    Valid reserved (t.release pid) := by
  refine ⟨fun p hp => ?_, fun p pr hp => hv.numbered p pr (procs_of_release hp),
    fun p q pr pr' hp hq => hv.distinct p q pr pr' (procs_of_release hp) (procs_of_release hq),
    fun p pr hp => ?_⟩
  · rw [procs_release]
    split
    · rfl
    · exact hv.free p hp
  · refine (hv.parents p pr (procs_of_release hp)).imp_right fun hrun => ?_
    rw [running_release, hrun]
    refine decide_eq_true ?_
    rintro rfl
    rw [hpid] at hrun
    cases hrun

/-- A birth takes nobody out of a subtree. -/
theorem Under.birth (hfree : t.procs pid = none) (parent : π) {p : π} (hu : Under roots t p) :
    Under roots (t.birth parent pid) p :=
  hu.mono (fun _ _ => procs_birth_of_some hfree) fun _ h => h

/-- A child of a process in a subtree is born into it. -/
theorem under_birth (hfree : t.procs pid = none) (hu : Under roots t parent) :
    Under roots (t.birth parent pid) pid :=
  .child (by rw [procs_birth, if_pos rfl]) (hu.birth hfree parent)

/-! ### Changes over time -/

theorem since_birth (parent pid : π) (t : PidTable π) : Since t (t.birth parent pid) := by
  refine ⟨Nat.le_succ _, fun p pr hp hlt => ?_⟩
  rw [procs_birth] at hp
  split at hp
  · obtain rfl := Option.some.inj hp
    exact absurd hlt (Nat.lt_irrefl _)
  · exact ⟨pr, hp, rfl, id⟩

theorem since_exit (init pid : π) (t : PidTable π) : Since t (t.exit init pid) := by
  refine ⟨Nat.le_refl _, fun p pr hp _ => ?_⟩
  obtain ⟨old, hold, rfl⟩ := procs_exit.mp hp
  refine ⟨old, hold, rfl, fun hrun => ?_⟩
  have hrun' : (if p = pid then true else old.exited) = false := hrun
  split at hrun'
  · cases hrun'
  · exact hrun'

theorem since_release (pid : π) (t : PidTable π) : Since t (t.release pid) :=
  ⟨Nat.le_refl _, fun _ pr hp _ => ⟨pr, procs_of_release hp, rfl, id⟩⟩

end Changes

end PidTable
