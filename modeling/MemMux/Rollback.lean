/-
MemMux/Rollback.lean

What a rolled-back recycle leaves behind.

The rollback announces that the checkpoint is retained, but it drives the task to `Failed`, and a
resume takes hibernated tasks only.  So the retained checkpoint is never resumed from
(`rolled_back_never_resumes`).
-/
import MemMux.Capacity

namespace MemMux

open Relation Ledger

variable {codec : CheckpointCodec}

/-- A recycle that rolls back says that it retained the checkpoint, and does nothing to its task but
try to fail it. -/
theorem rollsBack_spec {h : Host} {id : String} {w : World} (hroll : rollsBack codec h id w = true) :
    (∃ e, (recycle codec h id w).2 = .error ("recycle failed, checkpoint retained: " ++ e)) ∧
      id ∈ w.mem.runtimes ∧
      (recycle codec h id w).1.mem.tasks.lookup id
        = (w.mem.tasks.lookup id).map fun t =>
            (t.attempt .recycling "recycling provider" (h.now w.calls)).attempt .failed
              "recycle resume failed" (h.now w.calls) := by
  unfold rollsBack at hroll
  rcases recycle_cases codec h w id with
    ⟨w', r, hc, -⟩ | ⟨w₁, task, cp, hc, hmem, ⟨w₂, cleanup, e, hr, heq⟩ | ⟨w₂, cleanup, o, hr, -⟩⟩
  · rw [hc] at hroll
    cases hroll
  · -- the relaunch failed: recycled, then failed
    obtain ⟨hlive, -, -, -, -⟩ := checkpointLive_ok codec h hc
    obtain ⟨-, -, -, hself, -⟩ := relaunchLive_spec task cp _ hr
    rw [heq]
    refine ⟨⟨e, rfl⟩, hlive, ?_⟩
    show (advance h id .failed "recycle resume failed" (h.now w.calls) w₂).mem.tasks.lookup id = _
    rw [lookup_advance, if_pos rfl, hself, hmem, Option.map_map]
    rfl
  · rw [hc] at hroll
    dsimp only at hroll
    rw [hr] at hroll
    cases hroll

/-- Where the rollback leaves a task that was running. -/
theorem rolledBack_state {t : Task} (hr : Running t.state) (now : UInt64) (r₁ r₂ : String) :
    let s := ((t.attempt .recycling r₁ now).attempt .failed r₂ now).state
    s = .failed ∨ s = .queued := by
  simp only [Task.attempt_state]
  rcases hr with hs | hs <;> rw [hs] <;> decide

/-- A task that is not hibernated is not resumed. -/
theorem resume_refused {h : Host} {id : String} {w : World} {t : Task}
    (ht : w.mem.tasks.lookup id = some t) (hs : t.state ≠ .hibernated) :
    resume codec h id w
      = (w.ask,
          .error ("task " ++ id ++ " is not hibernated (state " ++ t.state.display ++ ")")) := by
  have hp : prepareResume codec id w.ask = .error (.error
      ("task " ++ id ++ " is not hibernated (state " ++ t.state.display ++ ")")) := by
    unfold prepareResume
    rw [ask_mem, ht]
    exact if_pos hs
  unfold resume
  dsimp only
  rw [hp]

/-- **A rolled-back recycle is never resumable.**  In every reachable state, when a recycle has
checkpointed its task and the relaunch fails, the answer says that the checkpoint is retained; and a
later resume, in any world in which the task is as the rollback left it and on any host, is refused
before it looks for a checkpoint, and leaves the task inactive. -/
theorem rolled_back_never_resumes {w : World} (hw : Reachable codec w) (h : Host) (id : String)
    (hroll : rollsBack codec h id (w.begin h) = true) (h' : Host) (w' : World)
    (hsame : w'.mem.tasks.lookup id = (recycle codec h id (w.begin h)).1.mem.tasks.lookup id) :
    (∃ e, (recycle codec h id (w.begin h)).2
        = .error ("recycle failed, checkpoint retained: " ++ e)) ∧
      ∃ t, w'.mem.tasks.lookup id = some t ∧ t.state ≠ .active ∧
        resume codec h' id (w'.begin h')
          = ((w'.begin h').ask,
              .error ("task " ++ id ++ " is not hibernated (state " ++ t.state.display ++ ")")) := by
  obtain ⟨hanswer, hlive, hafter⟩ := rollsBack_spec hroll
  obtain ⟨t, ht, hs⟩ := hw.live id hlive
  have ht' : (w.begin h).mem.tasks.lookup id = some t := ht
  rw [hafter, ht'] at hsame
  have hstate := rolledBack_state hs (h.now (w.begin h).calls) "recycling provider"
    "recycle resume failed"
  refine ⟨hanswer, _, hsame, ?_, resume_refused hsame ?_⟩
  · rcases hstate with hf | hf <;> rw [hf] <;> decide
  · rcases hstate with hf | hf <;> rw [hf] <;> decide

theorem rolled_back_never_resumes_fixLogin :
    let after := (recycle serdeJson noLaunchHost fixLogin (runningWorld.begin noLaunchHost)).1
    (∃ e, (recycle serdeJson noLaunchHost fixLogin (runningWorld.begin noLaunchHost)).2
        = .error ("recycle failed, checkpoint retained: " ++ e)) ∧
      ∃ t, after.mem.tasks.lookup fixLogin = some t ∧ t.state ≠ .active ∧
        resume serdeJson steadyHost fixLogin (after.begin steadyHost)
          = ((after.begin steadyHost).ask, .error ("task " ++ fixLogin
              ++ " is not hibernated (state " ++ t.state.display ++ ")")) :=
  rolled_back_never_resumes runningWorld_reachable noLaunchHost fixLogin (by decide +kernel)
    steadyHost (recycle serdeJson noLaunchHost fixLogin (runningWorld.begin noLaunchHost)).1 rfl

/-- The answer promises a retained checkpoint; the resume that follows, on a host where every launch
succeeds, does not make the task active. -/
theorem retained_checkpoint_unused :
    let rolled := recycle serdeJson noLaunchHost fixLogin (runningWorld.begin noLaunchHost)
    rolled.2 = .error "recycle failed, checkpoint retained: os error" ∧
      (rolled.1.disk.tables.loadCheckpointRef fixLogin).isSome ∧
      ((resume serdeJson steadyHost fixLogin (rolled.1.begin steadyHost)).1.mem.tasks.lookup
        fixLogin).map (·.state) ≠ some .active := by
  decide +kernel

end MemMux
