/-
MemMux/Reclaim.lean

Which processes the operations that end a provider's residency reach.

Termination and retirement sweep the provider's live subtree together with every pid recorded for
the task, before anything is stopped.  Hibernation and recycling stop the root first and walk the
tree afterwards: by then its children have been reparented, so the walk finds nothing, and the
recorded pids are not looked at.

`World.signals` is the list of pids signalled so far.  Everything but a sweep leaves it and the
process table alone (`Still`), a sweep signals exactly what it targets (`Swept`), and
`reclaims_iff` says for each of the four operations when every surviving process of the task
was signalled.
-/
import MemMux.Daemon

namespace MemMux

open Relation

variable {codec : CheckpointCodec} {h : Host}

/-! ### Signals -/

/-- The pid an effect signals. -/
def Effect.target : Effect → Option Pid
  | .signal pid _ => some pid
  | _ => none

/-- The pids signalled so far, in order. -/
def World.signals (w : World) : List Pid := w.durable.log.filterMap Effect.target

/-- Some process has this pid. -/
def World.alive (w : World) (p : Pid) : Prop := ∃ s ∈ w.procs, s.pid = p

/-- No process was signalled, and none is gone. -/
def Still (w w' : World) : Prop := w'.procs = w.procs ∧ w'.signals = w.signals

theorem Still.refl (w : World) : Still w w := ⟨rfl, rfl⟩

theorem Still.trans {w w' w'' : World} (h₁ : Still w w') (h₂ : Still w' w'') : Still w w'' :=
  ⟨h₂.1.trans h₁.1, h₂.2.trans h₁.2⟩

theorem Still.alive_iff {w w' : World} (hs : Still w w') (p : Pid) : w'.alive p ↔ w.alive p := by
  unfold World.alive
  rw [hs.1]

/-- Writing an effect that is no signal signals nobody. -/
theorem signals_write {j j' : Journal Disk Effect} {e : Effect} (hj : j' = j.write e)
    (he : e.target = none) : j'.log.filterMap Effect.target = j.log.filterMap Effect.target := by
  subst hj
  simp [Journal.write, he]

theorem still_note {e : Effect} (he : e.target = none) (w : World) : Still w (w.note e) :=
  ⟨rfl, signals_write rfl he⟩

theorem still_exec (q : Stmt) (w : World) : Still w (exec h q w) := by
  refine ⟨rfl, signals_write rfl ?_⟩
  split <;> rfl

theorem still_event (id : Option String) (c t s : String) (w : World) :
    Still w (event h id c t s w) :=
  still_exec _ w

theorem still_audit (id : Option String) (a r : String) (e : Option JsonObject) (w : World) :
    Still w (audit h id a r e w) :=
  still_exec _ w

theorem still_advance (id : String) (next : TaskState) (reason : String) (now : UInt64)
    (w : World) : Still w (advance h id next reason now w) := by
  refine ⟨rfl, ?_⟩
  unfold World.signals advance
  dsimp only
  cases stepTask id next reason now w.mem.tasks with
  | none => rfl
  | some r =>
      refine signals_write rfl ?_
      split <;> rfl

theorem still_saveTask (id : String) (w : World) : Still w (saveTask h id w) := by
  refine ⟨rfl, ?_⟩
  unfold World.signals saveTask
  dsimp only
  cases w.mem.tasks.lookup id with
  | none => rfl
  | some t =>
      refine signals_write rfl ?_
      split <;> rfl

theorem still_drive (id : String) (now : UInt64) (w : World) : Still w (drive h id now w) := by
  unfold drive
  refine Still.trans ?_ (still_advance id _ _ now _)
  cases w.mem.tasks.lookup id with
  | none => exact .refl w
  | some task =>
      dsimp only
      split
      · exact still_advance id _ _ now w
      · exact .refl w

theorem still_retireTask (id : String) (now : UInt64) (w : World) :
    Still w (retireTask h id now w) := by
  unfold retireTask
  cases w.mem.tasks.lookup id with
  | none => exact .refl w
  | some task =>
      dsimp only
      split
      · exact .refl w
      · exact ((still_advance id _ _ now w).trans (still_advance id _ _ now _)).trans
          (still_saveTask id _)

theorem still_askStatus (path : Path) (w : World) : Still w (askStatus h path w) :=
  ⟨rfl, signals_write rfl rfl⟩

theorem still_dirtyManifest (handle : WorktreeHandle) (w : World) :
    Still w (dirtyManifest h handle w).1 := by
  unfold dirtyManifest
  cases statusOf h w handle.path <;> exact still_askStatus handle.path w

theorem still_removeWorktree (handle : WorktreeHandle) (w : World) :
    Still w (removeWorktree h handle w) := by
  have hask := @still_askStatus h handle.path w
  unfold removeWorktree
  cases statusOf h w handle.path with
  | none => exact hask
  | some status =>
      dsimp only
      split
      · exact hask
      · split
        · exact hask.trans (still_note rfl (askStatus h handle.path w).ask)
        · exact hask

theorem still_cleanupWorktree (id : String) (w : World) : Still w (cleanupWorktree h id w) := by
  unfold cleanupWorktree
  cases w.mem.worktrees.lookup id with
  | none => exact .refl w
  | some handle =>
      have hd := @still_dirtyManifest h handle
        { w with mem := { w.mem with worktrees := w.mem.worktrees.erase id } }
      dsimp only
      unfold discardWorktree
      rcases hm : dirtyManifest h handle
        { w with mem := { w.mem with worktrees := w.mem.worktrees.erase id } } with ⟨w', manifest⟩
      rw [hm] at hd
      dsimp only at hd ⊢
      cases manifest.filter (·.dirty) with
      | none => exact (Still.trans hd (still_removeWorktree handle w')).trans (still_audit _ _ _ _ _)
      | some m => exact (Still.trans hd (still_audit _ _ _ _ w')).trans (still_event _ _ _ _ _)

/-! ### Sweeps -/

/-- Who is alive after some processes are gone. -/
theorem alive_exitProcesses {gone : Pid → Bool} {w w' : World}
    (hp : w'.procs = exitProcesses gone w.procs) (p : Pid) :
    w'.alive p ↔ w.alive p ∧ gone p = false := by
  unfold World.alive
  rw [hp]
  unfold exitProcesses
  constructor
  · rintro ⟨s, hs, rfl⟩
    obtain ⟨s₀, hs₀, rfl⟩ := List.mem_map.mp hs
    obtain ⟨hmem, hgone⟩ := List.mem_filter.mp hs₀
    have hpid : (if gone s₀.ppid then { s₀ with ppid := 1 } else s₀).pid = s₀.pid := by
      split <;> rfl
    rw [hpid]
    exact ⟨⟨s₀, hmem, rfl⟩, by simpa using hgone⟩
  · rintro ⟨⟨s, hs, rfl⟩, hgone⟩
    refine ⟨_, List.mem_map.mpr ⟨s, List.mem_filter.mpr ⟨hs, by simp [hgone]⟩, rfl⟩, ?_⟩
    split <;> rfl

/-- The pids in `pids` were signalled, and nobody else; nobody else is gone either. -/
structure Swept (pids : List Pid) (w w' : World) : Prop where
  grown : ∃ ys, w'.signals = w.signals ++ ys ∧ (∀ p ∈ ys, p ∈ pids) ∧ ∀ p ∈ pids, 1 < p → p ∈ ys
  alive_of_alive : ∀ p, w'.alive p → w.alive p
  spared : ∀ p, p ∉ pids → w.alive p → w'.alive p

theorem Still.swept {w w' : World} (hs : Still w w') : Swept [] w w' where
  grown := ⟨[], by rw [hs.2, List.append_nil], by simp, by simp⟩
  alive_of_alive p := (hs.alive_iff p).mp
  spared p _ := (hs.alive_iff p).mpr

theorem Swept.still {pids : List Pid} {w w' w'' : World} (h₁ : Swept pids w w')
    (h₂ : Still w' w'') : Swept pids w w'' where
  grown := by
    obtain ⟨ys, hy, hsub⟩ := h₁.grown
    exact ⟨ys, h₂.2.trans hy, hsub⟩
  alive_of_alive p hp := h₁.alive_of_alive p ((h₂.alive_iff p).mp hp)
  spared p hp ha := (h₂.alive_iff p).mpr (h₁.spared p hp ha)

theorem Swept.after {pids : List Pid} {w w' w'' : World} (h₁ : Still w w')
    (h₂ : Swept pids w' w'') : Swept pids w w'' where
  grown := by
    obtain ⟨ys, hy, hsub⟩ := h₂.grown
    exact ⟨ys, by rw [hy, h₁.2], hsub⟩
  alive_of_alive p hp := (h₁.alive_iff p).mp (h₂.alive_of_alive p hp)
  spared p hp ha := h₂.spared p hp ((h₁.alive_iff p).mpr ha)

/-- A round of signals to some pids, all of them among `pids`. -/
theorem signalAll_spec {kill : Bool} {ps pids : List Pid} (hsub : ∀ p ∈ ps, p ∈ pids) (w : World) :
    (signalAll h kill ps w).signals = w.signals ++ ps ∧
      (∀ p, (signalAll h kill ps w).alive p → w.alive p) ∧
      ∀ p, p ∉ pids → w.alive p → (signalAll h kill ps w).alive p := by
  have halive := @alive_exitProcesses (fun p => decide (p ∈ ps) && (kill || !h.ignoresTerm p)) w
    (signalAll h kill ps w) rfl
  refine ⟨?_, fun p hp => ((halive p).mp hp).1, fun p hp ha => (halive p).mpr ⟨ha, ?_⟩⟩
  · have htarget : (ps.map (Effect.signal · kill)).filterMap Effect.target = ps := by
      rw [List.filterMap_map]
      exact List.filterMap_some
    show (w.durable.log ++ _).filterMap Effect.target = _
    rw [List.filterMap_append, htarget]
    rfl
  · have hps : p ∉ ps := fun hin => hp (hsub p hin)
    simp [hps]

/-- **A sweep signals exactly what it targets**: the given pids above 1. -/
theorem terminatePids_swept (pids : List Pid) (w : World) :
    Swept pids w (terminatePids h pids w).1 := by
  unfold terminatePids
  dsimp only
  generalize ht : ((pids.filter (1 < ·)).dedup).insertionSort (· ≤ ·) = targeted
  -- sorting and removing duplicates changes the order only
  have hmem : ∀ p, p ∈ targeted ↔ p ∈ pids ∧ 1 < p := by
    intro p
    rw [← ht, List.mem_insertionSort, List.mem_dedup, List.mem_filter, decide_eq_true_iff]
  have hsub : ∀ p ∈ targeted.reverse, p ∈ pids := fun p hp =>
    ((hmem p).mp (List.mem_reverse.mp hp)).1
  have hall : ∀ p ∈ pids, 1 < p → p ∈ targeted.reverse := fun p hp h1 =>
    List.mem_reverse.mpr ((hmem p).mpr ⟨hp, h1⟩)
  obtain ⟨hs₁, ha₁, hk₁⟩ := @signalAll_spec h false _ _ hsub w
  split
  · next hnil =>
    refine ⟨⟨[], by simp, by simp, fun p hp h1 => ?_⟩, fun _ hp => hp, fun _ _ ha => ha⟩
    have := (hmem p).mpr ⟨hp, h1⟩
    rw [hnil] at this
    cases this
  · generalize signalAll h false targeted.reverse w = w₁ at hs₁ ha₁ hk₁ ⊢
    -- the first round is all there is, if nobody is seen after it
    have hfirst : Swept pids w w₁ := ⟨⟨_, hs₁, hsub, hall⟩, ha₁, hk₁⟩
    split
    · exact hfirst.still ⟨rfl, rfl⟩
    · split
      · exact hfirst.still ⟨rfl, rfl⟩
      · generalize hv : targeted.filter _ = survivors
        have hsub₂ : ∀ p ∈ survivors, p ∈ pids := by
          intro p hp
          rw [← hv] at hp
          exact ((hmem p).mp (List.mem_filter.mp hp).1).1
        obtain ⟨hs₂, ha₂, hk₂⟩ := @signalAll_spec h true _ _ hsub₂ w₁.ask
        -- the second round signals again whom the first one did
        have hsecond : Swept pids w (signalAll h true survivors w₁.ask) := by
          refine ⟨⟨targeted.reverse ++ survivors, ?_, ?_, ?_⟩, fun p hp => ha₁ p (ha₂ p hp),
            fun p hp ha => hk₂ p hp (hk₁ p hp ha)⟩
          · rw [hs₂]
            show w₁.signals ++ survivors = _
            rw [hs₁, List.append_assoc]
          · intro p hp
            exact (List.mem_append.mp hp).elim (hsub p) (hsub₂ p)
          · exact fun p hp h1 => List.mem_append_left _ (hall p hp h1)
        split <;> exact hsecond.still ⟨rfl, rfl⟩

/-! ### The processes of a task -/

/-- The root pid of a task's provider. -/
def rootOf (id : String) (w : World) : Option Pid :=
  ((w.mem.runtimes.lookup id).bind (·.pid)).map asI32

/-- The pids recorded for a task. -/
def recorded (id : String) (w : World) : List Pid := (w.mem.seenPids.lookup id).getD []

/-- `p` descends from the provider's root in the process table. -/
def Descends (id : String) (w : World) (p : Pid) : Prop :=
  ∃ root, rootOf id w = some root ∧ TransGen (ProcessTree.fromSamples w.procs).IsChild root p

/-- A process of the task: a descendant of its provider's root, or a recorded pid. -/
def Owned (id : String) (w : World) (p : Pid) : Prop :=
  1 < p ∧ (Descends id w p ∨ p ∈ recorded id w)

/-- Every process of the task that survived from `w` to `w'` was signalled on the way. -/
def Reclaims (id : String) (w w' : World) : Prop :=
  ∀ p, w'.alive p → Owned id w p → p ∈ w'.signals.drop w.signals.length

/-- `p` does not outlive the provider of `id`, stopped at call `n`: it is the root, or it dies when
the terminal closes. -/
def DiesWith (h : Host) (n : Nat) (id : String) (w : World) (p : Pid) : Prop :=
  rootOf id w = some p ∨ h.hangup n p = true

theorem Swept.drop_signals {pids : List Pid} {w w' : World} (hs : Swept pids w w') {p : Pid} :
    (p ∈ w'.signals.drop w.signals.length → p ∈ pids) ∧
      (p ∈ pids → 1 < p → p ∈ w'.signals.drop w.signals.length) := by
  obtain ⟨ys, hy, hsub, hall⟩ := hs.grown
  rw [hy, List.drop_left]
  exact ⟨hsub p, hall p⟩

/-! ### Sweeping first -/

theorem reapTaskProcesses_swept (id : String) (root : Option Nat) (w : World) :
    Swept (reapTargets h id root w) w (reapTaskProcesses h id root w) := by
  have key : Swept (reapTargets h id root w) w
      (if reapTargets h id root w = [] then w.ask
        else reapSweep h id (reapTargets h id root w) w.ask) := by
    generalize reapTargets h id root w = targets
    split
    · next hnil =>
      rw [hnil]
      exact Still.swept ⟨rfl, rfl⟩
    · have hs := @terminatePids_swept h targets w.ask
      unfold reapSweep
      rcases ht : terminatePids h targets w.ask with ⟨w', report⟩
      rw [ht] at hs
      have hask : Still w w.ask := ⟨rfl, rfl⟩
      have hs' : Swept targets w w' := Swept.after hask hs
      cases report with
      | none => exact hs'.still (still_audit _ _ _ _ w')
      | some r => exact (hs'.still (still_event _ _ _ _ w')).still (still_audit _ _ _ _ _)
  exact key.still ⟨rfl, rfl⟩

/-- A sweep that could sample the table targets every process of the task; one that could not,
the recorded pids. -/
theorem mem_reapTargets {id : String} {w w₀ : World} {p : Pid} (hp : 1 < p)
    (hprocs : w.procs = w₀.procs) (hseen : w.mem.seenPids = w₀.mem.seenPids) :
    (h.sampler w.calls = true → Owned id w₀ p →
        p ∈ reapTargets h id ((w₀.mem.runtimes.lookup id).bind (·.pid)) w) ∧
      (h.sampler w.calls = false →
        (p ∈ reapTargets h id ((w₀.mem.runtimes.lookup id).bind (·.pid)) w
          ↔ p ∈ recorded id w₀)) ∧
      (p ∈ recorded id w₀ →
        p ∈ reapTargets h id ((w₀.mem.runtimes.lookup id).bind (·.pid)) w) := by
  unfold reapTargets recorded
  rw [hseen, hprocs]
  simp only [List.mem_filter, List.mem_append, decide_eq_true_eq, hp, and_true]
  refine ⟨?_, ?_, Or.inr⟩
  · -- with a snapshot: the root, what is below it, and the recorded pids
    rintro hsam ⟨-, ⟨root, hroot, htree⟩ | hrec⟩
    · left
      unfold rootOf at hroot
      cases hpid : (w₀.mem.runtimes.lookup id).bind (·.pid) with
      | none =>
          rw [hpid] at hroot
          cases hroot
      | some pid =>
          rw [hpid] at hroot
          obtain rfl := Option.some.inj hroot
          dsimp only
          rw [if_pos hsam]
          exact ProcessTree.mem_subtree.mpr htree.to_reflTransGen
    · exact Or.inr hrec
  · -- without one the recorded pids are all there is
    intro hsam
    cases (w₀.mem.runtimes.lookup id).bind (·.pid) with
    | none => simp
    | some pid => simp [hsam]

/-! ### Stopping the root -/

/-- Stopping a provider signals nobody; whoever does not die with it stays. -/
theorem stopAndFlush_spec {id : String} {rt : RuntimeInstance} {w : World}
    (hrt : w.mem.runtimes.lookup id = some rt) :
    (stopAndFlush h id rt w).signals = w.signals ∧
      ∀ p, (stopAndFlush h id rt w).alive p ↔ w.alive p ∧ ¬ DiesWith h w.calls id w p := by
  refine ⟨signals_write rfl rfl, fun p => ?_⟩
  have halive := @alive_exitProcesses
    (fun p => (rt.pid.map asI32) == some p || h.hangup w.calls p) w (stopAndFlush h id rt w) rfl p
  rw [halive]
  unfold DiesWith rootOf
  rw [hrt]
  simp

/-- After the root was stopped nobody descends from it: its children were reparented. -/
theorem descendants_stopped {gone : Pid → Bool} {root : Pid} (hgone : gone root = true)
    (hroot : root ≠ 1) (procs : List ProcessSample) :
    (ProcessTree.fromSamples (exitProcesses gone procs)).descendants root = [] := by
  refine List.eq_nil_iff_forall_not_mem.mpr fun p hp => ?_
  obtain ⟨-, htree⟩ := ProcessTree.mem_descendants.mp hp
  -- the first step of the chain is a child of the root
  obtain ⟨q, ⟨s, hs, -, hppid⟩, -⟩ := TransGen.head'_iff.mp htree
  obtain ⟨s₀, -, rfl⟩ := List.mem_map.mp hs
  split at hppid
  · exact hroot hppid.symm
  · next hstays =>
    rw [hppid] at hstays
    exact hstays hgone

/-- **A shutdown reaches nobody but the root.**  Whoever does not die with the provider stays alive,
and nobody but the root is signalled. -/
theorem shutdownRuntime_spec {id : String} {rt : RuntimeInstance} {w : World}
    (hrt : w.mem.runtimes.lookup id = some rt) :
    (∀ p, (shutdownRuntime h id w).1.alive p ↔ w.alive p ∧ ¬ DiesWith h w.calls id w p) ∧
      ∀ p ∈ (shutdownRuntime h id w).1.signals.drop w.signals.length, rootOf id w = some p := by
  obtain ⟨hsig, halive⟩ := @stopAndFlush_spec h id rt w hrt
  have hroot : rt.pid.map asI32 = rootOf id w := by
    unfold rootOf
    rw [hrt]
    rfl
  have hprocs : (stopAndFlush h id rt w).procs
      = exitProcesses (fun p => (rt.pid.map asI32) == some p || h.hangup w.calls p) w.procs := rfl
  unfold shutdownRuntime
  rw [hrt]
  dsimp only
  rw [hroot] at hprocs ⊢
  generalize stopAndFlush h id rt w = w₁ at hsig halive hprocs ⊢
  have quiet : (∀ p, w₁.alive p ↔ w.alive p ∧ ¬ DiesWith h w.calls id w p) ∧
      ∀ p ∈ w₁.signals.drop w.signals.length, rootOf id w = some p := by
    refine ⟨halive, fun p hp => ?_⟩
    rw [hsig, List.drop_length] at hp
    cases hp
  cases hr : rootOf id w with
  | none =>
      rw [hr] at quiet
      exact quiet
  | some root =>
      rw [hr] at hprocs quiet
      show (∀ p, (terminateSubtree h root w₁).1.alive p ↔ _) ∧
        ∀ p ∈ (terminateSubtree h root w₁).1.signals.drop _, _
      unfold terminateSubtree
      split
      · exact quiet
      · next hle =>
        split
        · exact quiet
        · -- the sweep after the stop targets at most the root, which is gone
          have hdesc : (ProcessTree.fromSamples w₁.procs).descendants root = [] := by
            rw [hprocs]
            exact descendants_stopped (by simp) (fun he => hle he.le) w.procs
          have htargets : ∀ p ∈ terminationTargets (ProcessTree.fromSamples w₁.procs) root,
              p = root := by
            intro p hp
            have hp := (mem_terminationTargets.mp hp).1
            rw [hdesc] at hp
            exact hp.resolve_left (List.not_mem_nil)
          have hask : Still w₁ w₁.ask := ⟨rfl, rfl⟩
          have hswept := Swept.after hask (@terminatePids_swept h
            (terminationTargets (ProcessTree.fromSamples w₁.procs) root) w₁.ask)
          refine ⟨fun p => ⟨fun ha => (halive p).mp (hswept.alive_of_alive p ha), fun ha => ?_⟩,
            fun p hp => ?_⟩
          · refine hswept.spared p (fun hin => ha.2 ?_) ((halive p).mpr ha)
            rw [htargets p hin]
            exact Or.inl hr
          · rw [← hsig] at hp
            rw [htargets p (hswept.drop_signals.1 hp)]

/-! ### The four endings -/

/-- The operations that end a provider's residency.  `recycle` is the shutdown inside a recycle,
`retire` what the pump does with a provider that exited. -/
inductive Ending
  | terminate | hibernate | recycle | retire
  deriving DecidableEq, Repr

namespace Ending

/-- The operation, on the task `id`. -/
def run (codec : CheckpointCodec) (h : Host) (now : UInt64) (id : String) (w : World) :
    Ending → World
  | terminate => (MemMux.terminate h id w).1
  | hibernate => (MemMux.hibernate codec h id w).1
  | recycle => (shutdownRuntime h id w).1
  | retire => MemMux.retire h now w id

/-- The operation is not refused before it ends anything. -/
def Applies (codec : CheckpointCodec) (h : Host) (id : String) (w : World) : Ending → Prop
  | terminate => id ∈ w.mem.tasks
  | hibernate => (checkpointLive codec h "hibernate" "checkpoint failed: " id (h.now w.calls)
      w.ask).2.isOk
  | recycle => id ∈ w.mem.runtimes
  | retire => id ∈ w.mem.runtimes

/-- Every live process of the task satisfies `P`. -/
def ForOwned (id : String) (w : World) (P : Pid → Prop) : Prop :=
  ∀ p, w.alive p → Owned id w p → P p

/-- When the operation reclaims the whole tree.  A sweep does if it can sample the process table, and
else if what it cannot see is recorded, or dies with the provider; a shutdown does only if every
process of the task dies with the provider. -/
def Complete (codec : CheckpointCodec) (h : Host) (id : String) (w : World) : Ending → Prop
  | terminate => h.sampler (w.calls + 1) = true ∨ ForOwned id w fun p => p ∈ recorded id w ∨
      DiesWith h (reapTaskProcesses h id ((w.mem.runtimes.lookup id).bind (·.pid)) w.ask).calls
        id w p
  | hibernate => ForOwned id w (DiesWith h (checkpointLive codec h "hibernate"
      "checkpoint failed: " id (h.now w.calls) w.ask).1.calls id w)
  | recycle => ForOwned id w (DiesWith h w.calls id w)
  | retire => h.sampler (w.calls + 1) = true ∨ ForOwned id w fun p => p ∈ recorded id w

end Ending

/-- A sweep of `targets` after which the processes in `gone` are gone too. -/
theorem reclaims_swept_iff {id : String} {w w₁ w' : World} {targets : List Pid}
    {gone : Pid → Prop} (hs : Swept targets w w₁) (hsig : w'.signals = w₁.signals)
    (halive : ∀ p, w'.alive p ↔ w₁.alive p ∧ ¬ gone p) :
    Reclaims id w w' ↔ Ending.ForOwned id w fun p => p ∈ targets ∨ gone p := by
  unfold Reclaims
  rw [hsig]
  constructor
  · intro hr p ha ho
    by_contra hnot
    rw [not_or] at hnot
    exact hnot.1 (hs.drop_signals.1
      (hr p ((halive p).mpr ⟨hs.spared p hnot.1 ha, hnot.2⟩) ho))
  · intro hc p ha ho
    obtain ⟨ha₁, hgone⟩ := (halive p).mp ha
    rcases hc p (hs.alive_of_alive p ha₁) ho with ht | hg
    · exact hs.drop_signals.2 ht ho.1
    · exact absurd hg hgone

/-- A shutdown: nobody is reached but who dies with the provider. -/
theorem reclaims_stopped_iff {id : String} {w w' : World} {gone : Pid → Prop}
    (halive : ∀ p, w'.alive p ↔ w.alive p ∧ ¬ gone p)
    (hsig : ∀ p ∈ w'.signals.drop w.signals.length, gone p) :
    Reclaims id w w' ↔ Ending.ForOwned id w gone := by
  constructor
  · intro hr p ha ho
    by_contra hnot
    exact hnot (hsig p (hr p ((halive p).mpr ⟨ha, hnot⟩) ho))
  · intro hc p ha ho
    obtain ⟨ha₁, hgone⟩ := (halive p).mp ha
    exact absurd (hc p ha₁ ho) hgone

theorem still_captureCheckpoint (id : String) (task : Task) (now : UInt64) (w : World) :
    Still w (captureCheckpoint codec h id task now w).1 :=
  ⟨rfl, signals_write rfl rfl⟩

theorem still_persistCheckpoint (cp : Checkpoint) (w : World) :
    Still w (persistCheckpoint codec h cp w).1 := by
  have hwrite : Still w ((w.ask.ask).note
      (.writeArtifact (checkpointPath w.mem.root cp.taskId) (codec.encode cp))) :=
    ⟨rfl, signals_write rfl rfl⟩
  unfold persistCheckpoint
  dsimp only
  split
  · exact ⟨rfl, rfl⟩
  · split
    · exact ⟨rfl, signals_write rfl rfl⟩
    · exact hwrite.trans (still_exec _ _)

theorem still_checkpointLive (verb failed id : String) (now : UInt64) (w : World) :
    Still w (checkpointLive codec h verb failed id now w).1 := by
  unfold checkpointLive
  split
  · exact .refl w
  · cases w.mem.tasks.lookup id with
    | none => exact .refl w
    | some task =>
        dsimp only
        cases assess (activity task) with
        | wait reason => exact still_audit _ _ _ _ w
        | ready =>
            have hp : Still w (persistCheckpoint codec h (captureCheckpoint codec h id task now w).2
                (captureCheckpoint codec h id task now w).1).1 :=
              (still_captureCheckpoint id task now w).trans (still_persistCheckpoint _ _)
            dsimp only
            rcases hc : persistCheckpoint codec h (captureCheckpoint codec h id task now w).2
              (captureCheckpoint codec h id task now w).1 with ⟨w', e | u⟩ <;>
            · rw [hc] at hp
              exact hp

/-- A termination sweeps, and then stops the provider if there is one. -/
theorem terminate_spec {id : String} {w w₁ : World} (hid : id ∈ w.mem.tasks)
    (hw₁ : reapTaskProcesses h id ((w.mem.runtimes.lookup id).bind (·.pid)) w.ask = w₁) :
    (terminate h id w).1.signals = w₁.signals ∧
      ∀ p, (terminate h id w).1.alive p
        ↔ w₁.alive p ∧ ¬ (id ∈ w.mem.runtimes ∧ DiesWith h w₁.calls id w p) := by
  have hrun : w₁.mem.runtimes = w.mem.runtimes := by
    rw [← hw₁]
    rfl
  have hroot : rootOf id w₁ = rootOf id w := by
    unfold rootOf
    rw [hrun]
  -- whoever the sweep left may still die with the provider that is stopped
  have hstop : (stopLive h id w₁).signals = w₁.signals ∧ ∀ p, (stopLive h id w₁).alive p
      ↔ w₁.alive p ∧ ¬ (id ∈ w.mem.runtimes ∧ DiesWith h w₁.calls id w p) := by
    unfold stopLive
    cases hrt : w₁.mem.runtimes.lookup id with
    | none =>
        have hout : id ∉ w.mem.runtimes := by
          rw [← hrun]
          exact KeyMap.not_mem_iff_lookup.mpr hrt
        exact ⟨rfl, fun p => by simp [hout]⟩
    | some rt =>
        have hin : id ∈ w.mem.runtimes := by
          rw [← hrun]
          exact KeyMap.mem_iff_lookup.mpr ⟨rt, hrt⟩
        obtain ⟨hsig, halive⟩ := @stopAndFlush_spec h id rt w₁ hrt
        refine ⟨hsig, fun p => (halive p).trans ?_⟩
        unfold DiesWith
        rw [hroot]
        simp [hin]
  -- what follows touches no process
  have hrest : Still (stopLive h id w₁) (terminate h id w).1 := by
    unfold terminate
    dsimp only
    rw [ask_mem, if_neg (not_not.mpr hid), hw₁]
    have h₁ := @still_cleanupWorktree h id (stopLive h id w₁)
    have h₂ : Still (cleanupWorktree h id (stopLive h id w₁))
        (releaseReservation id (cleanupWorktree h id (stopLive h id w₁))) := ⟨rfl, rfl⟩
    exact (((((h₁.trans h₂).trans (still_drive id _ _)).trans (still_saveTask id _)).trans
      (still_audit _ _ _ _ _)).trans (still_event _ _ _ _ _))
  exact ⟨hrest.2.trans hstop.1, fun p => (hrest.alive_iff p).trans (hstop.2 p)⟩

/-- A retirement sweeps, and that is all. -/
theorem retire_swept (now : UInt64) (id : String) (w : World) :
    ∃ w₀, w₀.procs = w.procs ∧ w₀.mem.seenPids = w.mem.seenPids ∧ w₀.calls = w.calls + 1 ∧
      Swept (reapTargets h id ((w.mem.runtimes.lookup id).bind (·.pid)) w₀) w
        (retire h now w id) := by
  refine ⟨flushHistory h id { w with mem := { w.mem with runtimes := w.mem.runtimes.erase id } },
    rfl, rfl, rfl, ?_⟩
  unfold retire
  dsimp only
  have h₀ : Still w (flushHistory h id
      { w with mem := { w.mem with runtimes := w.mem.runtimes.erase id } }) := ⟨rfl, rfl⟩
  generalize flushHistory h id
    { w with mem := { w.mem with runtimes := w.mem.runtimes.erase id } } = w₀ at h₀ ⊢
  have hreap := Swept.after h₀
    (@reapTaskProcesses_swept h id ((w.mem.runtimes.lookup id).bind (·.pid)) w₀)
  generalize reapTaskProcesses h id ((w.mem.runtimes.lookup id).bind (·.pid)) w₀ = w₁ at hreap ⊢
  have h₂ : Still w₁ (cleanupWorktree h id (retireTask h id now w₁)) :=
    (still_retireTask id now w₁).trans (still_cleanupWorktree id _)
  have h₃ : Still w₁ (releaseReservation id (cleanupWorktree h id (retireTask h id now w₁))) :=
    h₂.trans ⟨rfl, rfl⟩
  exact hreap.still (h₃.trans (still_event _ _ _ _ _))

/-- What a sweep at call `n` reaches: everything, if the table can be sampled then, else what is
recorded. -/
theorem forOwned_swept_iff {id : String} {w w₀ : World} {gone : Pid → Prop}
    (hprocs : w₀.procs = w.procs) (hseen : w₀.mem.seenPids = w.mem.seenPids) :
    (Ending.ForOwned id w fun p =>
        p ∈ reapTargets h id ((w.mem.runtimes.lookup id).bind (·.pid)) w₀ ∨ gone p)
      ↔ h.sampler w₀.calls = true ∨ Ending.ForOwned id w fun p => p ∈ recorded id w ∨ gone p := by
  have hmem := fun p hp => @mem_reapTargets h id w₀ w p hp hprocs hseen
  constructor
  · intro hc
    cases hsam : h.sampler w₀.calls with
    | true => exact Or.inl rfl
    | false =>
        exact Or.inr fun p ha ho => (hc p ha ho).imp_left (((hmem p ho.1).2.1 hsam).mp)
  · rintro (hsam | hc) p ha ho
    · exact Or.inl ((hmem p ho.1).1 hsam ho)
    · exact (hc p ha ho).imp_left (hmem p ho.1).2.2

theorem mem_runtimes_of_rootOf {id : String} {w : World} {root : Pid}
    (hr : rootOf id w = some root) : id ∈ w.mem.runtimes := by
  unfold rootOf at hr
  cases hrt : w.mem.runtimes.lookup id with
  | none =>
      rw [hrt] at hr
      cases hr
  | some rt => exact KeyMap.mem_iff_lookup.mpr ⟨rt, hrt⟩

theorem reclaims_terminate_iff {id : String} {w : World} (hid : id ∈ w.mem.tasks) :
    Reclaims id w (terminate h id w).1 ↔ Ending.terminate.Complete codec h id w := by
  have hask : Still w w.ask := ⟨rfl, rfl⟩
  have hs := Swept.after hask (@reapTaskProcesses_swept h id
    ((w.mem.runtimes.lookup id).bind (·.pid)) w.ask)
  obtain ⟨hsig, halive⟩ := @terminate_spec h id w _ hid rfl
  have htargets := @forOwned_swept_iff h id w w.ask (fun p => id ∈ w.mem.runtimes ∧ DiesWith h
    (reapTaskProcesses h id ((w.mem.runtimes.lookup id).bind (·.pid)) w.ask).calls id w p) rfl rfl
  refine (reclaims_swept_iff hs hsig halive).trans (htargets.trans ?_)
  refine or_congr_right (forall_congr' fun p => forall_congr' fun _ => forall_congr' fun ho => ?_)
  -- a process that is not recorded descends from a provider, so there is one to stop
  constructor
  · exact Or.imp_right And.right
  · rintro (hrec | hd)
    · exact Or.inl hrec
    · rcases ho.2 with ⟨root, hroot, -⟩ | hrec
      · exact Or.inr ⟨mem_runtimes_of_rootOf hroot, hd⟩
      · exact Or.inl hrec

theorem reclaims_hibernate_iff {id : String} {w : World}
    (happ : Ending.hibernate.Applies codec h id w) :
    Reclaims id w (hibernate codec h id w).1 ↔ Ending.hibernate.Complete codec h id w := by
  have hask : Still w w.ask := ⟨rfl, rfl⟩
  have hstill := hask.trans (@still_checkpointLive codec h "hibernate" "checkpoint failed: " id
    (h.now w.calls) w.ask)
  unfold Ending.Applies at happ
  unfold Ending.Complete
  dsimp only at happ ⊢
  rcases hibernate_cases codec h w id with ⟨w₁, r, hc, -⟩ | ⟨w₁, task, cp, hc, hmem, heq⟩
  · rw [hc] at happ
    cases happ
  · rw [hc] at hstill
    rw [hc, heq]
    obtain ⟨hlive, -⟩ := checkpointLive_ok codec h hc
    obtain ⟨rt, hrt⟩ := KeyMap.mem_iff_lookup.mp hlive
    have hrt₁ : w₁.mem.runtimes.lookup id = some rt := by
      rw [hmem]
      exact hrt
    have hroot : rootOf id w₁ = rootOf id w := by
      unfold rootOf
      rw [hmem]
    obtain ⟨halive, hsig⟩ := @shutdownRuntime_spec h id rt w₁ hrt₁
    -- what follows the shutdown signals nobody
    have hrest : Still (shutdownRuntime h id w₁).1 (freeze h id cp (h.now w.calls) w₁) := by
      unfold freeze
      rcases shutdownRuntime h id w₁ with ⟨w₂, cleanup⟩
      have h₀ : Still w₂ (releaseReservation id w₂) := ⟨rfl, rfl⟩
      exact ((((h₀.trans (still_advance id _ _ _ _)).trans (still_advance id _ _ _ _)).trans
        (still_saveTask id _)).trans (still_event _ _ _ _ _)).trans (still_audit _ _ _ _ _)
    refine reclaims_stopped_iff (fun p => ?_) (fun p hp => ?_)
    · refine (hrest.alive_iff p).trans ((halive p).trans ?_)
      unfold DiesWith
      rw [hstill.alive_iff, hroot]
    · rw [hrest.2, ← hstill.2] at hp
      exact Or.inl (hroot ▸ hsig p hp)

/-- **When an ending reclaims the whole tree.**  Every process of the task that is alive afterwards was
signalled, exactly when the ending is complete: a termination or a retirement whenever it can sample
the process table, a hibernation or a recycle only when every process of the task dies with the
provider it stops first. -/
theorem reclaims_iff (e : Ending) (now : UInt64) (id : String) (w : World)
    (happ : e.Applies codec h id w) :
    Reclaims id w (e.run codec h now id w) ↔ e.Complete codec h id w := by
  cases e with
  | terminate => exact reclaims_terminate_iff happ
  | hibernate => exact reclaims_hibernate_iff happ
  | recycle =>
      obtain ⟨rt, hrt⟩ := KeyMap.mem_iff_lookup.mp happ
      obtain ⟨halive, hsig⟩ := @shutdownRuntime_spec h id rt w hrt
      exact reclaims_stopped_iff halive fun p hp => Or.inl (hsig p hp)
  | retire =>
      obtain ⟨w₀, hprocs, hseen, hcalls, hs⟩ := @retire_swept h now id w
      have halive : ∀ p, (retire h now w id).alive p ↔ (retire h now w id).alive p ∧ ¬ False := by
        simp
      refine (reclaims_swept_iff hs rfl halive).trans ((forOwned_swept_iff hprocs hseen).trans ?_)
      rw [hcalls]
      simp [Ending.Complete]

/-- A host on which the provider has one child, which does not die with the terminal. -/
def childHost : Host :=
  { steadyHost with
      table := [⟨100, 1, "claude", 0, none, none⟩, ⟨101, 100, "node", 0, none, none⟩] }

theorem reclaims_iff_terminate :
    Reclaims fixLogin (runningWorld.begin childHost)
        (Ending.terminate.run serdeJson childHost 1000 fixLogin (runningWorld.begin childHost))
      ↔ Ending.terminate.Complete serdeJson childHost fixLogin (runningWorld.begin childHost) :=
  reclaims_iff .terminate 1000 fixLogin (runningWorld.begin childHost)
    (by show fixLogin ∈ _; decide +kernel)

/-- The child of a hibernated provider lives on, and nobody signalled it. -/
theorem hibernate_leaves_child :
    ¬ Reclaims fixLogin (runningWorld.begin childHost)
      (Ending.hibernate.run serdeJson childHost 1000 fixLogin (runningWorld.begin childHost)) := by
  intro hr
  have hchild : Owned fixLogin (runningWorld.begin childHost) 101 := by
    refine ⟨by decide, Or.inl ⟨100, by decide +kernel, TransGen.single ?_⟩⟩
    exact ⟨⟨101, 100, "node", 0, none, none⟩, by decide +kernel, rfl, rfl⟩
  have halive : (Ending.hibernate.run serdeJson childHost 1000 fixLogin
      (runningWorld.begin childHost)).alive 101 :=
    ⟨⟨101, 1, "node", 0, none, none⟩, by decide +kernel, rfl⟩
  have hquiet : (101 : Pid) ∉ (Ending.hibernate.run serdeJson childHost 1000 fixLogin
      (runningWorld.begin childHost)).signals.drop (runningWorld.begin childHost).signals.length := by
    decide +kernel
  exact hquiet (hr 101 halive hchild)

end MemMux
