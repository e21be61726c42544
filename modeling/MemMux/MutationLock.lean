/-
MemMux/MutationLock.lean

The repository mutation lock (`memmux-worktree/src/lock.rs`).

Any number of threads, spread over any number of processes, run `try_acquire` and `acquire` on
lock files and drop the guards they were given.  Each thread is a small program with a place in
it; an event moves one thread by one call to the operating system, or kills a process with
all its threads, so a run is an arbitrary interleaving of these calls.  Of the file system it
is assumed that `create_new` finds or creates the file in one step, and that nothing but
a guard removes a lock file.

The invariant is that of a mark (`Exclusive.Held`): at most one thread is past its `create_new`
without having removed the file, and while there is one the file is there.  A crash leaves
the file behind, which excludes everybody and harms nobody.
-/
import MemMux.Exclusive
import MemMux.Run
import MemMux.Worktree
import Mathlib.Logic.Function.Basic

namespace MemMux

/-! ### The program of a thread -/

/-- An acquirable per-repository mutation lock. -/
structure RepoMutationLock where
  path : Path
  deriving DecidableEq, Repr

/-- `RepoMutationLock::new`: the lock for `repo` under `locksDir`. -/
def RepoMutationLock.new (locksDir : Path) (repo : String) : RepoMutationLock :=
  ⟨locksDir.join (repo ++ ".lock")⟩

/-- The call a thread is in: one attempt, or attempts until a deadline. -/
inductive LockCall
  | tryAcquire
  | acquire (deadline : Nat)
  deriving DecidableEq, Repr

/-- How far a thread has got. -/
inductive LockPhase
  /-- In no call, with no guard. -/
  | idle
  /-- Before `create_dir_all` of the parent directory. -/
  | preparing (lock : RepoMutationLock) (call : LockCall)
  /-- Before the `open` with `create_new`. -/
  | opening (lock : RepoMutationLock) (call : LockCall)
  /-- The file was created by this thread; its pid is still to be written. -/
  | created (lock : RepoMutationLock)
  /-- `acquire` was refused and is about to look at the clock. -/
  | refused (lock : RepoMutationLock) (deadline : Nat)
  /-- `acquire` sleeps before its next attempt. -/
  | sleeping (lock : RepoMutationLock) (deadline : Nat)
  /-- The call has returned a guard, which is live. -/
  | holding (lock : RepoMutationLock)
  /-- The guard is being dropped, before `remove_file`. -/
  | dropping (lock : RepoMutationLock)
  deriving DecidableEq, Repr

/-- The lock files that exist, and the place of every thread. -/
structure LockState (ι : Type) where
  files : Path → Bool
  phase : ι → LockPhase

/-- One step of a thread, with the answers of the operating system, or the end of a process. -/
inductive LockEvent (ι P : Type)
  | tryAcquire (i : ι) (lock : RepoMutationLock)
  | acquire (i : ι) (lock : RepoMutationLock) (now timeout : Nat)
  | makeDir (i : ι) (ok : Bool)
  | openNew (i : ι) (ok : Bool)
  | writePid (i : ι)
  | checkDeadline (i : ι) (now : Nat)
  | wake (i : ι)
  | drop (i : ι)
  | removeFile (i : ι) (ok : Bool)
  | crash (p : P)
  deriving DecidableEq, Repr

section Steps

variable {ι P : Type} [DecidableEq ι] [DecidableEq P]

/-- Move one thread. -/
def LockState.move (s : LockState ι) (i : ι) (phase : LockPhase) : LockState ι :=
  { s with phase := Function.update s.phase i phase }

/-- `create_new`: the file is found, or created, in one step; any other failure ends the call. -/
def openLock (s : LockState ι) (i : ι) (lock : RepoMutationLock) (call : LockCall) (ok : Bool) :
    LockState ι :=
  if s.files lock.path then
    match call with
    | .tryAcquire => s.move i .idle
    | .acquire deadline => s.move i (.refused lock deadline)
  else if ok then
    { files := Function.update s.files lock.path true
      phase := Function.update s.phase i (.created lock) }
  else s.move i .idle

/-- One event, where the thread `i` runs in the process `proc i`.  An event that a thread is not
at leaves the state as it is. -/
def lockStep (proc : ι → P) (s : LockState ι) : LockEvent ι P → LockState ι
  | .tryAcquire i lock =>
      if s.phase i = .idle then s.move i (.preparing lock .tryAcquire) else s
  | .acquire i lock now timeout =>
      if s.phase i = .idle then s.move i (.preparing lock (.acquire (now + timeout))) else s
  | .makeDir i ok =>
      match s.phase i with
      | .preparing lock call => if ok then s.move i (.opening lock call) else s.move i .idle
      | _ => s
  | .openNew i ok =>
      match s.phase i with
      | .opening lock call => openLock s i lock call ok
      | _ => s
  | .writePid i =>
      match s.phase i with
      | .created lock => s.move i (.holding lock)
      | _ => s
  | .checkDeadline i now =>
      match s.phase i with
      | .refused lock deadline =>
          if deadline ≤ now then s.move i .idle else s.move i (.sleeping lock deadline)
      | _ => s
  | .wake i =>
      match s.phase i with
      | .sleeping lock deadline => s.move i (.preparing lock (.acquire deadline))
      | _ => s
  | .drop i =>
      match s.phase i with
      | .holding lock => s.move i (.dropping lock)
      | _ => s
  | .removeFile i ok =>
      match s.phase i with
      | .dropping lock =>
          { files := if ok then Function.update s.files lock.path false else s.files
            phase := Function.update s.phase i .idle }
      | _ => s
  | .crash p => { s with phase := fun i => if proc i = p then .idle else s.phase i }

/-- Nobody is in a call; any lock files may have been left behind. -/
def lockStart (files : Path → Bool) : LockState ι := ⟨files, fun _ => .idle⟩

end Steps

/-! ### Who owns a lock file -/

/-- The thread has created the lock file at `path` and has not removed it. -/
def LockPhase.Owns (path : Path) : LockPhase → Prop
  | .created lock | .holding lock | .dropping lock => lock.path = path
  | _ => False

/-- The thread's guard for `path` is live: it was returned, and its drop has not finished. -/
def LockPhase.Live (path : Path) : LockPhase → Prop
  | .holding lock | .dropping lock => lock.path = path
  | _ => False

theorem LockPhase.Live.owns {path : Path} {phase : LockPhase} (h : phase.Live path) :
    phase.Owns path := by
  cases phase with
  | holding lock => exact h
  | dropping lock => exact h
  | _ => exact False.elim h

namespace LockState

variable {ι P : Type} [DecidableEq ι] [DecidableEq P] {s : LockState ι}

/-- At most one thread owns a lock file, and the file of an owner exists. -/
def Exclusive (s : LockState ι) (path : Path) : Prop :=
  Exclusive.Held (fun i => (s.phase i).Owns path) (s.files path = true)

@[simp] theorem move_files (i : ι) (phase : LockPhase) : (s.move i phase).files = s.files := rfl

theorem owns_update {phase : LockPhase} {i j : ι} {path : Path}
    (h : (Function.update s.phase i phase j).Owns path) :
    (s.phase j).Owns path ∧ j ≠ i ∨ j = i ∧ phase.Owns path := by
  by_cases hj : j = i
  · subst hj
    rw [Function.update_self] at h
    exact .inr ⟨rfl, h⟩
  · rw [Function.update_of_ne hj] at h
    exact .inl ⟨h, hj⟩

/-- A thread that moves without becoming an owner keeps the exclusion. -/
theorem Exclusive.move {path : Path} (h : s.Exclusive path) {i : ι} {phase : LockPhase}
    (hi : phase.Owns path → (s.phase i).Owns path) : (s.move i phase).Exclusive path := by
  refine Exclusive.Held.anti h (fun j hj => ?_) id
  rcases owns_update hj with ⟨ho, -⟩ | ⟨rfl, ho⟩
  · exact ho
  · exact hi ho

/-- **A successful `create_new` keeps the exclusion**: the file was not there, so nobody owned it. -/
theorem Exclusive.openNew {path : Path} (h : s.Exclusive path) (i : ι) (lock : RepoMutationLock)
    (call : LockCall) (ok : Bool) : (openLock s i lock call ok).Exclusive path := by
  unfold openLock
  split
  · cases call <;> exact h.move fun ho => ho.elim
  · next habsent =>
    cases ok with
    | false => exact h.move fun ho => ho.elim
    | true =>
        by_cases hp : lock.path = path
        · subst hp
          refine Exclusive.Held.take h habsent (i := i) (fun j hj => ?_) (Function.update_self ..)
          exact (owns_update hj).imp (·.1) (·.1)
        · refine Exclusive.Held.anti h (fun j hj => ?_) fun hfile => ?_
          · exact ((owns_update hj).resolve_right fun ho => hp ho.2).1
          · show Function.update s.files lock.path true path = true
            rwa [Function.update_of_ne fun he => hp he.symm]

/-- **Every event keeps the exclusion.** -/
theorem Exclusive.step {path : Path} (h : s.Exclusive path) (proc : ι → P) (e : LockEvent ι P) :
    (lockStep proc s e).Exclusive path := by
  cases e with
  | tryAcquire i lock =>
      rw [lockStep]
      split
      · exact h.move fun ho => ho.elim
      · exact h
  | acquire i lock now timeout =>
      rw [lockStep]
      split
      · exact h.move fun ho => ho.elim
      · exact h
  | makeDir i ok =>
      rw [lockStep]
      split
      · cases ok <;> exact h.move fun ho => ho.elim
      · exact h
  -- the one event that creates the file, and only where there is none
  | openNew i ok =>
      rw [lockStep]
      split
      · exact h.openNew i _ _ ok
      · exact h
  | writePid i =>
      rw [lockStep]
      split
      · next lock hi => exact h.move fun ho => hi ▸ ho
      · exact h
  | checkDeadline i now =>
      rw [lockStep]
      split
      · split <;> exact h.move fun ho => ho.elim
      · exact h
  | wake i =>
      rw [lockStep]
      split
      · exact h.move fun ho => ho.elim
      · exact h
  | drop i =>
      rw [lockStep]
      split
      · next lock hi => exact h.move fun ho => hi ▸ ho
      · exact h
  -- the owner of this path gives it up; an owner of another path changes nothing here
  | removeFile i ok =>
      rw [lockStep]
      split
      · next lock hi =>
        by_cases hp : lock.path = path
        · refine Exclusive.Held.release h (i := i) (hi ▸ hp) fun j hj => ?_
          exact (owns_update hj).resolve_right fun ho => ho.2.elim
        · refine Exclusive.Held.anti h (fun j hj => ?_) fun hfile => ?_
          · exact ((owns_update hj).resolve_right fun ho => ho.2.elim).1
          · cases ok with
            | false => exact hfile
            | true =>
                show Function.update s.files lock.path false path = true
                rwa [Function.update_of_ne fun he => hp he.symm]
      · exact h
  | crash p =>
      refine Exclusive.Held.anti h (fun j hj => ?_) id
      simp only [lockStep] at hj
      split at hj
      · exact hj.elim
      · exact hj

omit [DecidableEq ι] in
theorem exclusive_start (files : Path → Bool) (path : Path) :
    (lockStart files : LockState ι).Exclusive path :=
  Exclusive.Held.of_none fun _ h => h

/-- Every run keeps the exclusion, whatever lock files were left behind before it. -/
theorem exclusive_run (proc : ι → P) (files : Path → Bool) (es : List (LockEvent ι P))
    (path : Path) : (Run.run (lockStep proc) (lockStart files) es).Exclusive path := by
  have hstep : ∀ (s : LockState ι) e, s.Exclusive path → (lockStep proc s e).Exclusive path :=
    fun _ e h => h.step proc e
  exact Run.always hstep (exclusive_start files path) es

/-- In the event `e` a call of the thread `i` returns a guard for `path`. -/
def Returns (proc : ι → P) (s : LockState ι) (e : LockEvent ι P) (i : ι) (path : Path) : Prop :=
  ∃ lock : RepoMutationLock, lock.path = path ∧
    s.phase i ≠ .holding lock ∧ (lockStep proc s e).phase i = .holding lock

/-- A thread that ends up with a guard was moved to it, or had it already. -/
theorem holding_update {phase : LockPhase} {i k : ι} {lock : RepoMutationLock}
    (h : Function.update s.phase k phase i = .holding lock) (hne : s.phase i ≠ .holding lock) :
    i = k ∧ phase = .holding lock := by
  by_cases hi : i = k
  · subst hi
    rw [Function.update_self] at h
    exact ⟨rfl, h⟩
  · rw [Function.update_of_ne hi] at h
    exact absurd h hne

/-- **Only a thread that has created the lock file is returned a guard.** -/
theorem Returns.created {proc : ι → P} {e : LockEvent ι P} {i : ι} {path : Path}
    (h : Returns proc s e i path) : ∃ lock, lock.path = path ∧ s.phase i = .created lock := by
  obtain ⟨lock, hp, hne, hheld⟩ := h
  refine ⟨lock, hp, ?_⟩
  cases e with
  -- `writePid` hands over to a guard what the thread has created; no other event does
  | writePid k =>
      rw [lockStep] at hheld
      split at hheld
      · next lock' hk =>
        obtain ⟨rfl, heq⟩ := holding_update hheld hne
        rw [hk, LockPhase.holding.inj heq]
      · exact absurd hheld hne
  | openNew k ok =>
      rw [lockStep] at hheld
      split at hheld
      · unfold openLock at hheld
        split at hheld
        · split at hheld <;> cases (holding_update hheld hne).2
        · split at hheld <;> cases (holding_update hheld hne).2
      · exact absurd hheld hne
  | makeDir k ok =>
      rw [lockStep] at hheld
      split at hheld
      · split at hheld <;> cases (holding_update hheld hne).2
      · exact absurd hheld hne
  | checkDeadline k now =>
      rw [lockStep] at hheld
      split at hheld
      · split at hheld <;> cases (holding_update hheld hne).2
      · exact absurd hheld hne
  | crash p =>
      simp only [lockStep] at hheld
      split at hheld
      · cases hheld
      · exact absurd hheld hne
  | _ =>
      rw [lockStep] at hheld
      split at hheld
      · cases (holding_update hheld hne).2
      · exact absurd hheld hne

end LockState

/-- **The repository mutation lock excludes.**  In every interleaving, from any lock files left
behind: at most one guard for a lock file is live at any time, and while one is live no call
returns another. -/
theorem lock_excludes {ι P : Type} [DecidableEq ι] [DecidableEq P] (proc : ι → P)
    (files : Path → Bool) (es : List (LockEvent ι P)) (path : Path) :
    let s := Run.run (lockStep proc) (lockStart files) es
    (∀ i j, (s.phase i).Live path → (s.phase j).Live path → i = j) ∧
      ∀ j, (s.phase j).Live path → ∀ e i, ¬ LockState.Returns proc s e i path := by
  intro s
  have hs : s.Exclusive path := LockState.exclusive_run proc files es path
  refine ⟨fun i j hi hj => hs.unique i j hi.owns hj.owns, fun j hj e i hret => ?_⟩
  obtain ⟨lock, hp, hi⟩ := hret.created
  have howns : (s.phase i).Owns path := hi ▸ hp
  obtain rfl := hs.unique i j howns hj.owns
  rw [hi] at hj
  exact hj

/-- A second attempt on a held lock is refused, and the first guard stays live. -/
example :
    let lock := RepoMutationLock.new "/root/locks" "repo_1"
    let s := Run.run (lockStep (id : Bool → Bool)) (lockStart fun _ => false)
      [.tryAcquire true lock, .makeDir true true, .openNew true true, .writePid true,
        .tryAcquire false lock, .makeDir false true, .openNew false true]
    s.phase true = .holding lock ∧ s.phase false = .idle := by
  decide +kernel

end MemMux
