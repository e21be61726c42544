/-
MemMux/Emergency.lean

What the emergency stage of the pressure ladder may cost.

The stage preserves a victim and then terminates the one it preserved.  The victim is the least
running task by priority, age and id (`victim_minimum`), it is handed over only once its checkpoint
is persisted (`preserveVictim_ok`), and taking it down removes a worktree only right after git
reported it clean (`RemovesClean.retains`).
-/
import Mathlib.Data.Prod.Lex
import MemMux.Stops

namespace MemMux

open Ledger

variable {codec : CheckpointCodec} {h : Host} {R : Rules}

/-! ### The victim -/

/-- What victims are ordered by: priority, then age, then id. -/
def victimKey (id : String) (t : Task) : Nat ×ₗ Nat ×ₗ String :=
  toLex (t.spec.priority.rank, toLex (t.createdAtMs.toNat, id))

/-- Task `id` runs, and comes first of all running tasks. -/
def FirstVictim (w : World) (id : String) : Prop :=
  ∃ t, id ∈ w.mem.runtimes ∧ w.mem.tasks.lookup id = some t ∧
    ∀ j u, j ∈ w.mem.runtimes → w.mem.tasks.lookup j = some u → victimKey id t ≤ victimKey j u

/-- The key of a candidate. -/
def ReclaimCandidate.key (c : ReclaimCandidate) : Nat ×ₗ Nat ×ₗ String :=
  toLex (c.2.1.rank, toLex (c.2.2.toNat, c.1))

theorem victimCmp_gt (a b : ReclaimCandidate) : victimCmp a b = .gt ↔ b.key < a.key := by
  unfold victimCmp ReclaimCandidate.key
  rw [Prod.Lex.toLex_lt_toLex, Prod.Lex.toLex_lt_toLex]
  simp only [Ordering.then_eq_gt, compare_gt_iff_gt, compare_eq_iff_eq]
  rw [@eq_comm _ a.2.1.rank, @eq_comm _ a.2.2.toNat]

theorem mem_runningCandidates {w : World} {c : ReclaimCandidate} :
    c ∈ runningCandidates h w ↔ c.1 ∈ w.mem.runtimes ∧
      ∃ t, w.mem.tasks.lookup c.1 = some t ∧ c = (c.1, t.spec.priority, t.createdAtMs) := by
  constructor
  · intro hc
    obtain ⟨i, hi, hm⟩ := List.mem_filterMap.mp hc
    obtain ⟨t, ht, rfl⟩ := Option.map_eq_some_iff.mp hm
    exact ⟨(h.order_perm _ _).mem_iff.mp hi, t, ht, rfl⟩
  · rintro ⟨hi, t, ht, hc⟩
    refine List.mem_filterMap.mpr ⟨c.1, (h.order_perm _ _).mem_iff.mpr hi, ?_⟩
    rw [ht, hc]
    rfl

/-- **The victim comes first of all running tasks.** -/
theorem victim_minimum {w : World} {id : String}
    (hv : pickLowestPriorityVictim (runningCandidates h w) = some id) : FirstVictim w id := by
  obtain ⟨c, hc, rfl⟩ := Option.map_eq_some_iff.mp hv
  obtain ⟨hid, t, ht, heq⟩ := mem_runningCandidates.mp (mem_of_minBy hc)
  refine ⟨t, hid, ht, fun j u hj hu => ?_⟩
  have hin : (j, u.spec.priority, u.createdAtMs) ∈ runningCandidates h w :=
    mem_runningCandidates.mpr ⟨hj, u, hu, rfl⟩
  have hle := minBy_le victimCmp_gt hc _ hin
  rw [heq] at hle
  exact hle

/-! ### Its checkpoint -/

/-- The checkpoint `cp` was persisted and nothing touched it since. -/
def Preserved (codec : CheckpointCodec) (cp : Checkpoint) (w w' : World) : Prop :=
  (∃ before after, w'.durable = w.durable.writeAll (before ++
      [.writeArtifact (checkpointPath w.mem.root cp.taskId) (codec.encode cp),
        .commit (.saveCheckpointRef (refOf w.mem.root cp))] ++ after)) ∧
    loadCheckpoint codec cp.taskId w'.disk = .ok cp

/-- What is recorded about a preserved victim touches no checkpoint. -/
theorem quiet_announcePreserved (id : String) (cp : Checkpoint) (evidence : JsonObject)
    (w : World) : Quiet w (announcePreserved h id cp evidence w) :=
  (quiet_audit _ _ _ _ _).trans (quiet_appendEvent _ _ _ _ _ _)

/-- Quiet steps leave checkpoints as they are. -/
theorem Quiet.loadCheckpoint {id : String} {w w' : World} (hq : Quiet w w') :
    MemMux.loadCheckpoint codec id w'.disk = MemMux.loadCheckpoint codec id w.disk := by
  obtain ⟨es, hes, hd⟩ := hq.writes
  rw [disk_writeAll hd]
  exact loads_replay (fun e he => spares_of_idle (Effect.idle_of_quiet (hes e he))) _

/-- **A victim is handed over only once its checkpoint is persisted.** -/
theorem preserveVictim_ok {id i : String} {task : Task} {evidence : JsonObject} {w w' : World}
    (hp : preserveVictim codec h id task evidence w = (w', some i)) :
    i = id ∧ ∃ cp, cp.taskId = id ∧ Preserved codec cp w w' := by
  unfold preserveVictim at hp
  let c := captureCheckpoint codec h id task (h.now w.calls) w.ask
  have hcap : c.1.durable = w.durable.writeAll [.capture id (captureDir id task w.mem)] := rfl
  have hroot : c.1.mem.root = w.mem.root := rfl
  rcases hper : persistCheckpoint codec h c.2 c.1 with ⟨w₁, e | u⟩
  · dsimp only at hp
    rw [hper] at hp
    cases (Prod.mk.inj hp).2
  · dsimp only at hp
    rw [hper] at hp
    obtain ⟨rfl, hi⟩ := Prod.mk.inj hp
    have hd := persistCheckpoint_ok hper
    have hq := @quiet_announcePreserved h id c.2 evidence w₁
    refine ⟨(Option.some.inj hi).symm, c.2, rfl, ?_, ?_⟩
    · obtain ⟨es, -, hes⟩ := hq.writes
      refine ⟨[.capture id (captureDir id task w.mem)], es, ?_⟩
      refine hes.trans ?_
      rw [hd, hcap, hroot]
      simp [Journal.writeAll]
    · rw [hq.loadCheckpoint]
      exact load_persistCheckpoint rfl hper

theorem actPreserveGitState_ok {id : String} {evidence : JsonObject} {w w' : World}
    (hp : actPreserveGitState codec h evidence w = (w', some id)) :
    FirstVictim w id ∧ ∃ cp, cp.taskId = id ∧ Preserved codec cp w w' := by
  unfold actPreserveGitState at hp
  dsimp only at hp
  cases hv : pickLowestPriorityVictim (runningCandidates h w) with
  | none =>
      rw [hv] at hp
      cases (Prod.mk.inj hp).2
  | some i =>
      rw [hv] at hp
      dsimp only at hp
      cases ht : w.ask.mem.tasks.lookup i with
      | none =>
          rw [ht] at hp
          cases (Prod.mk.inj hp).2
      | some task =>
          rw [ht] at hp
          obtain ⟨rfl, cp, hcp, hpres⟩ := preserveVictim_ok hp
          exact ⟨victim_minimum hv, cp, hcp, hpres⟩

/-! ### Its worktree -/

/-- No small step removes a worktree that git did not just report clean. -/
theorem Act.removesClean {s s' : Phase × World} {es : List Effect} (ha : Act codec h R s es s') :
    RemovesClean es := by
  have hone : ∀ e : Effect, (∀ p, e ≠ .worktreeRemove p) → RemovesClean [e] := fun e hne =>
    removesClean_of_not_mem fun p hp => hne p (List.mem_singleton.mp hp).symm
  cases ha with
  | idle hc => exact hc.removesClean
  | register hn hm hd => exact removesClean_of_not_mem (by simp)
  | forget hid ht hs hm hroot hrt hwt hd => exact removesClean_of_not_mem (by simp)
  | artifact ht hs he hm hd =>
      refine hone _ ?_
      rcases he with rfl | ⟨cp, -, rfl⟩ <;> simp
  | _ => exact hone _ (by simp)

theorem chain_removesClean {s s' : Phase × World} {es : List Effect}
    (hc : Chain (Act codec h R) s es s') : RemovesClean es := by
  induction hc with
  | nil => exact removesClean_of_not_mem (by simp)
  | snoc _ hlast ih => exact ih.append hlast.removesClean

/-- A worktree is retained, unless git printed nothing for its status right before its removal. -/
theorem RemovesClean.retains {es : List Effect} (hg : RemovesClean es) {p : Path} {d : Disk}
    (hp : p ∈ d.git.worktrees) :
    p ∈ (Journal.replay d es).git.worktrees ∨
      ∃ before printed after,
        es = before ++ .gitStatus p (some printed) :: .worktreeRemove p :: after ∧
          trim printed = "" := by
  by_cases hin : .worktreeRemove p ∈ es
  · obtain ⟨before, after, heq⟩ := List.append_of_mem hin
    obtain ⟨earlier, printed, rfl, hclean⟩ := hg before p after heq
    refine .inr ⟨earlier, printed, after, ?_, hclean⟩
    rw [heq, List.append_assoc]
    rfl
  · exact .inl (mem_worktrees_replay hin hp)

/-! ### The stage -/

/-- Only the last step of the emergency stage terminates, and whom it was handed. -/
theorem actionCalls_terminate {evidence : JsonObject} {s : World × Option String}
    {a : PressureAction} {c : StopCall} (hc : c ∈ actionCalls h evidence s a)
    (hterm : c.stopper = .terminate) :
    a = .terminateLowestPriorityTree ∧ s.2 = some c.id ∧ Quiet s.1 c.world := by
  cases a with
  | terminateLowestPriorityTree =>
      obtain ⟨id, hid, rfl⟩ := List.mem_map.mp hc
      exact ⟨rfl, Option.mem_toList.mp hid, quiet_audit _ _ _ _ _⟩
  | hibernateLowPriority =>
      obtain ⟨x, -, rfl⟩ := List.mem_map.mp hc
      cases hterm
  | recycleBloatedProviders =>
      obtain ⟨x, -, rfl⟩ := List.mem_map.mp hc
      cases hterm
  | _ => cases hc

/-- Stages that do not end in a termination terminate nobody. -/
theorem not_terminate_of_not_mem {evidence : JsonObject} {as : List PressureAction}
    {s : World × Option String} {c : StopCall}
    (has : PressureAction.terminateLowestPriorityTree ∉ as)
    (hc : c ∈ stageCalls codec h evidence as s) : c.stopper ≠ .terminate := by
  induction as generalizing s with
  | nil => cases hc
  | cons a as ih =>
      obtain ⟨hne, has⟩ := not_or.mp (List.mem_cons.not.mp has)
      rcases List.mem_append.mp hc with hfirst | hrest
      · exact fun hterm => hne (actionCalls_terminate hfirst hterm).1.symm
      · exact ih has hrest

/-- **The emergency stage terminates what it preserved first**, and the other stages nobody. -/
theorem stageCalls_preserved {stage : PressureStage} {evidence : JsonObject} {w : World}
    {c : StopCall} (hc : c ∈ stageCalls codec h evidence stage.actions (w, none))
    (hterm : c.stopper = .terminate) :
    ∃ w₁, actPreserveGitState codec h evidence w = (w₁, some c.id) ∧ Quiet w₁ c.world := by
  cases stage with
  | emergency =>
      rcases List.mem_append.mp hc with hfirst | hrest
      · cases (actionCalls_terminate hfirst hterm).1
      · rcases List.mem_append.mp hrest with hkill | hlast
        · obtain ⟨-, hid, hq⟩ := actionCalls_terminate hkill hterm
          exact ⟨_, Prod.ext rfl hid, hq⟩
        · exact absurd hterm (not_terminate_of_not_mem (by decide) hlast)
  | _ => exact absurd hterm (not_terminate_of_not_mem (by decide) hc)

/-- A checkpoint stays preserved while nothing but quiet steps follows. -/
theorem Preserved.quiet {cp : Checkpoint} {w w₁ w₂ : World} (hp : Preserved codec cp w w₁)
    (hq : Quiet w₁ w₂) : Preserved codec cp w w₂ := by
  obtain ⟨⟨before, after, hd⟩, hload⟩ := hp
  obtain ⟨es, -, hes⟩ := hq.writes
  refine ⟨⟨before, after ++ es, ?_⟩, hq.loadCheckpoint.trans hload⟩
  rw [hes, hd]
  simp [Journal.writeAll]

/-- A termination retains every worktree, unless git printed nothing for its status right before it
was removed. -/
theorem terminate_retains (id : String) (w : World) :
    ∃ es, (terminate h id w).1.durable = w.durable.writeAll es ∧
      ∀ p ∈ w.disk.git.worktrees,
        p ∈ (terminate h id w).1.disk.git.worktrees ∨
          ∃ before printed after,
            es = before ++ .gitStatus p (some printed) :: .worktreeRemove p :: after ∧
              trim printed = "" := by
  obtain ⟨es, hes⟩ := @written_terminate serdeJson h .any id trivial w
  have hd : (terminate h id w).1.durable = w.durable.writeAll es := chain_durable hes
  refine ⟨es, hd, fun p hp => ?_⟩
  rw [disk_writeAll hd]
  exact (chain_removesClean hes).retains hp

/-- **Emergency reclamation loses no work.**  In any state, the providers a pressure tick stops are
those its calls to hibernate, recycle and terminate stop.  A victim it terminates comes first of all
running tasks, its own checkpoint was persisted in the same stage application, nobody else is stopped
with it, and taking it down retains every worktree, unless git printed nothing for its status right
before the removal. -/
theorem emergency_loses_no_work (now : UInt64) (w : World) :
    stopsIn w (pressureTick codec h now w)
        = ((pressureCalls codec h now w).flatMap fun c => stopsIn c.world (c.run codec h)) ∧
      ∀ c ∈ pressureCalls codec h now w, c.stopper = .terminate →
        let w₀ := (readPressure h now w).1
        FirstVictim w₀ c.id ∧ (∃ cp, cp.taskId = c.id ∧ Preserved codec cp w₀ c.world) ∧
          (∀ s ∈ stopsIn c.world (c.run codec h), s.2 = c.id) ∧
            ∃ es, (c.run codec h).durable = c.world.durable.writeAll es ∧
              ∀ p ∈ c.world.disk.git.worktrees,
                p ∈ (c.run codec h).disk.git.worktrees ∨
                  ∃ before printed after,
                    es = before ++ .gitStatus p (some printed) :: .worktreeRemove p :: after ∧
                      trim printed = "" := by
  refine ⟨(staged_pressureTick False.elim).stops, fun c hc hterm => ?_⟩
  have hrun : c.run codec h = (terminate h c.id c.world).1 := by
    unfold StopCall.run
    rw [hterm]
  unfold pressureCalls at hc
  split at hc
  · cases hc
  · dsimp only at hc ⊢
    split at hc
    · cases hc
    · obtain ⟨w₁, hp, hq⟩ := stageCalls_preserved hc hterm
      obtain ⟨hfirst, cp, hcp, hpres⟩ := actPreserveGitState_ok hp
      rw [hrun]
      exact ⟨hfirst, ⟨cp, hcp, hpres.quiet hq⟩, terminate_stops, terminate_retains c.id c.world⟩

/-- The task is running, and memory use is over the budget. -/
def overBudget : World :=
  let w := runs serdeJson (boot steadyHost smallHost "/memmux" (freshDisk ["/repo"])) createAndRestart
  { w with mem := { w.mem with usedBytes := gib } }

-- the one call of this tick terminates the task, and stops its provider
example :
    (pressureCalls serdeJson steadyHost 5000 overBudget).map (fun c => (c.stopper, c.id))
        = [(.terminate, fixLogin)] ∧
      (stopsIn overBudget (pressureTick serdeJson steadyHost 5000 overBudget)).map (·.2)
        = [fixLogin] := by
  decide +kernel

end MemMux
