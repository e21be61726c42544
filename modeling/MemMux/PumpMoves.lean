/-
MemMux/PumpMoves.lean

The pump and the requests as sequences of ledger moves.

Draining, sampling and the reading of the pressure leave the ledger alone; what changes it is
retirement, the three destructive actions of the ladder, the triggered recycles and the admission
pass.  `perform_moves` is the summary: one operation is a sequence of moves, in which the launches
of an admission pass have the room the plan found, the direct launches the room their request is
assumed to have, and a rollback is there only if one of the operation's recycles rolls back.
-/
import MemMux.LedgerMoves

namespace MemMux

open Relation Ledger

variable {codec : CheckpointCodec} {h : Host} {room : Room} {rolls : Prop}

/-! ### What leaves the books alone -/

/-- What leaves the books alone may be done any number of times. -/
theorem foldl_books {α : Type} {f : World → α → World} (hf : ∀ w a, (f w a).books = w.books)
    (as : List α) (w : World) : (as.foldl f w).books = w.books := by
  induction as generalizing w with
  | nil => rfl
  | cons a as ih => rw [List.foldl_cons, ih, hf]

theorem drainRuntimes_books (ids : List String) (w : World) :
    (drainRuntimes h ids w).1.books = w.books := by
  induction ids generalizing w with
  | nil => rfl
  | cons id ids ih => exact ih _

/-- A report of an escaped process is an event. -/
theorem reportEscaped_books (w : World) (f : FlaggedProcess) :
    (reportEscaped h w f).books = w.books := by
  unfold reportEscaped
  split <;> rfl

theorem sampleAll_books (tree : ProcessTree) (roots : List (String × Pid)) (now : UInt64)
    (w : World) : (sampleAll h tree roots now w).books = w.books := by
  have hone : ∀ w r, (sampleOne h tree now w r).books = w.books := fun _ _ => rfl
  exact foldl_books hone roots _

theorem reconcileManaged_books (report : ReconciliationReport) (w : World) :
    (reconcileManaged h report w).books = w.books := by
  refine (foldl_books reportEscaped_books report.escaped _).trans ?_
  split <;> rfl

theorem sampleRoots_books (roots : List (String × Pid)) (now : UInt64) (w : World) :
    (sampleRoots h roots now w).books = w.books :=
  (reconcileManaged_books _ _).trans (sampleAll_books _ _ _ _)

/-- A sample measures, and may report; it reserves nothing and starts nobody. -/
theorem sampleTick_books (now : UInt64) (w : World) :
    (sampleTick h now w).books = w.books := by
  unfold sampleTick
  dsimp only
  split
  · rfl
  · split
    · rfl
    · split
      · rfl
      · exact sampleRoots_books _ _ _

/-- A reading of the pressure changes the stage, which is in no book. -/
theorem readPressure_books (now : UInt64) (w : World) :
    (readPressure h now w).1.books = w.books := by
  unfold readPressure
  dsimp only
  split <;> rfl

/-- Reclaiming ends processes that no task runs. -/
theorem actReclaimEscaped_books (evidence : JsonObject) (w : World) :
    (actReclaimEscaped h evidence w).books = w.books := by
  unfold actReclaimEscaped
  dsimp only
  split
  · rfl
  · let w₀ : World := { w with mem := { w.mem with escapedReported := [] } }
    have hL : (terminatePids h w.mem.escapedReported w₀).1.books = w₀.books :=
      World.books_eq (terminatePids_mem h w₀ _)
    generalize terminatePids h w.mem.escapedReported w₀ = r at hL ⊢
    obtain ⟨w', _ | report⟩ := r <;> exact hL

/-! ### Retirement -/

/-- Retiring a task touches its record only. -/
theorem retireTask_mem (id : String) (now : UInt64) (w : World) :
    ∃ ts, (retireTask h id now w).mem = { w.mem with tasks := ts } ∧
      KeyMap.Off id w.mem.tasks ts := by
  unfold retireTask
  cases w.mem.tasks.lookup id with
  | none => exact ⟨_, rfl, .refl _ _⟩
  | some task =>
      dsimp only
      split
      · exact ⟨_, rfl, .refl _ _⟩
      · exact ⟨_, rfl, (off_advance h w id _ _ now).trans (off_advance h _ id _ _ now)⟩

/-- **A retirement is a release**: the provider is off the books, with its reservation. -/
theorem retire_moves (now : UInt64) (w : World) (id : String) :
    Moves room rolls w.ledger (retire h now w id).ledger := by
  unfold retire
  dsimp only
  generalize hw₁ : reapTaskProcesses h id _ _ = w₁
  have hL₁ : w₁.ledger = ⟨w.ledger.envelope, w.ledger.tasks, w.ledger.runtimes.erase id,
      w.ledger.reservations⟩ := by
    rw [← hw₁]
    rfl
  obtain ⟨ts, hm₂, hoff⟩ := @retireTask_mem h id now w₁
  have hm₃ := cleanupWorktree_mem h (retireTask h id now w₁) id
  have htasks : w₁.mem.tasks = w.ledger.tasks := congrArg (·.tasks) hL₁
  rw [htasks] at hoff
  have hfinal : Moves room rolls w.ledger
      (releaseReservation id (cleanupWorktree h id (retireTask h id now w₁))).ledger := by
    refine Move.moves (.retire id ?_ ?_ ?_ ?_) <;>
      simp only [World.ledger, releaseReservation, hm₃, hm₂]
    · exact congrArg (·.envelope) hL₁
    · exact hoff
    · exact congrArg (·.runtimes) hL₁
    · rw [show w₁.mem.reservations = w.ledger.reservations from congrArg (·.reservations) hL₁]
      rfl
  exact hfinal

theorem foldl_moves {α : Type} {f : World → α → World}
    (hf : ∀ w a, Moves room rolls w.ledger (f w a).ledger) (as : List α) (w : World) :
    Moves room rolls w.ledger (as.foldl f w).ledger := by
  induction as generalizing w with
  | nil => exact .refl
  | cons a as ih => exact (hf w a).trans (ih _)

/-- Retirements of all the providers that exited, one after another. -/
theorem retireExited_moves (now : UInt64) (w : World) :
    Moves room rolls w.ledger (retireExited h now w).ledger := by
  unfold retireExited
  have hL : (drainRuntimes h (walk h w.mem.runtimes w) w.ask).1.ledger = w.ledger :=
    World.ledger_of_books (drainRuntimes_books _ _)
  rcases hd : drainRuntimes h (walk h w.mem.runtimes w) w.ask with ⟨w₁, exited⟩
  rw [hd] at hL
  dsimp only at hL ⊢
  rw [← hL]
  exact foldl_moves (retire_moves now) exited w₁

/-! ### The ladder -/

/-- The ladder's hibernation is the one an operator asks for. -/
theorem hibernateLow_moves (evidence : JsonObject) (w : World) :
    Moves room rolls w.ledger (actHibernateLowPriority codec h evidence w).ledger := by
  unfold actHibernateLowPriority
  dsimp only
  split
  · exact .refl
  · next id _ _ =>
    exact hibernate_moves id (audit h (some id) "hibernate_low_priority"
      PressureAction.hibernateLowPriority.describe (some evidence) w.ask)

/-- So is its recycle. -/
theorem recycleBloated_moves {evidence : JsonObject} {w : World} (hl : Live w.ledger)
    (hroll : ∀ x ∈ (bloatedRecycle h evidence w).toList, rollsBack codec h x.1 x.2 = true → rolls) :
    Moves room rolls w.ledger (actRecycleBloated codec h evidence w).ledger := by
  unfold actRecycleBloated
  cases hb : bloatedRecycle h evidence w with
  | none => exact .refl
  | some x =>
      obtain ⟨reason, hx⟩ := bloatedRecycle_some h hb
      have hL : x.2.ledger = w.ledger := by
        rw [hx]
        rfl
      rw [hb] at hroll
      rw [← hL] at hl ⊢
      exact recycle_moves hl (hroll x (by simp))

/-- A victim that is preserved is running as before. -/
theorem preserveVictim_books (id : String) (task : Task) (evidence : JsonObject) (w : World) :
    (preserveVictim codec h id task evidence w).1.books = w.books := by
  have hmem := persistCheckpoint_mem codec h
    (captureCheckpoint codec h id task (h.now w.calls) w.ask).1
    (captureCheckpoint codec h id task (h.now w.calls) w.ask).2
  unfold preserveVictim
  dsimp only
  rcases hp : persistCheckpoint codec h
    (captureCheckpoint codec h id task (h.now w.calls) w.ask).2
    (captureCheckpoint codec h id task (h.now w.calls) w.ask).1 with ⟨w', e | u⟩
  · rw [hp] at hmem
    exact World.books_eq hmem
  · rw [hp] at hmem
    exact World.books_eq hmem

theorem actPreserveGitState_books (evidence : JsonObject) (w : World) :
    (actPreserveGitState codec h evidence w).1.books = w.books := by
  unfold actPreserveGitState
  dsimp only
  split
  · rfl
  · split
    · rfl
    · exact preserveVictim_books _ _ _ _

/-- The ladder's termination is the one an operator asks for, of the victim. -/
theorem actTerminateVictim_moves (id : String) (evidence : JsonObject) (w : World) :
    Moves room rolls w.ledger (actTerminateVictim h id evidence w).ledger :=
  terminate_moves id (audit h (some id) "terminate_lowest_priority"
    PressureAction.terminateLowestPriorityTree.describe (some evidence) w)

/-- One action of the ladder. -/
theorem applyAction_moves {evidence : JsonObject} (w : World) (preserved : Option String)
    (a : PressureAction) (hl : Live w.ledger)
    (hroll : a = .recycleBloatedProviders →
      ∀ x ∈ (bloatedRecycle h evidence w).toList, rollsBack codec h x.1 x.2 = true → rolls) :
    Moves room rolls w.ledger (applyAction codec h evidence (w, preserved) a).1.ledger := by
  cases a with
  | reclaimIdleChildren =>
      exact moves_of_eq (World.ledger_of_books (actReclaimEscaped_books evidence w))
  | hibernateLowPriority => exact hibernateLow_moves evidence w
  | recycleBloatedProviders => exact recycleBloated_moves hl (hroll rfl)
  | preserveGitState =>
      exact moves_of_eq (World.ledger_of_books (actPreserveGitState_books evidence w))
  | terminateLowestPriorityTree =>
      cases preserved with
      | none => exact moves_of_eq rfl
      | some id => exact actTerminateVictim_moves id evidence w
  | routineCompaction => exact moves_of_eq rfl
  | trimRenderCaches => exact moves_of_eq rfl
  | rotateBuffers => exact moves_of_eq rfl
  | stopIdleSharedWorkers => exact moves_of_eq rfl
  | reduceWorkerConcurrency => exact moves_of_eq rfl
  | blockLowPriorityStarts => exact moves_of_eq rfl
  | notifyOperator => exact moves_of_eq rfl

/-- The actions of a stage, each after the one before it. -/
theorem applyActions_moves {evidence : JsonObject} (as : List PressureAction)
    (s : World × Option String) (hl : Live s.1.ledger)
    (hroll : ∀ x ∈ stageRecycles codec h evidence as s, rollsBack codec h x.1 x.2 = true → rolls) :
    Moves room rolls s.1.ledger (as.foldl (applyAction codec h evidence) s).1.ledger := by
  induction as generalizing s with
  | nil => exact .refl
  | cons a as ih =>
      have hfirst : Moves room rolls s.1.ledger (applyAction codec h evidence s a).1.ledger := by
        refine applyAction_moves s.1 s.2 a hl fun ha x hx => hroll x ?_
        unfold stageRecycles
        rw [if_pos ha]
        exact List.mem_append_left _ hx
      refine hfirst.trans (ih _ (hfirst.live hl) fun x hx => hroll x ?_)
      exact List.mem_append_right _ hx

/-- **A pressure tick is a sequence of moves.** -/
theorem pressureTick_moves {now : UInt64} {w : World} (hl : Live w.ledger)
    (hroll : ∀ x ∈ pressureRecycles codec h now w, rollsBack codec h x.1 x.2 = true → rolls) :
    Moves room rolls w.ledger (pressureTick codec h now w).ledger := by
  have hL := World.ledger_of_books (@readPressure_books h now w)
  unfold pressureTick
  unfold pressureRecycles at hroll
  split
  · exact .refl
  · next hthr =>
    rw [if_neg hthr] at hroll
    rcases hr : readPressure h now w with ⟨w₁, stage, evidence⟩
    rw [hr] at hL hroll
    dsimp only at hL hroll ⊢
    rw [← hL] at hl ⊢
    split
    · exact .refl
    · next hst =>
      rw [if_neg hst] at hroll
      exact applyActions_moves stage.actions (w₁, none) hl hroll

/-! ### Triggered recycles -/

/-- Recycles that thresholds triggered, one after another. -/
theorem triggered_moves (ts : List (String × Nat × String)) (w : World) (hl : Live w.ledger)
    (hroll : ∀ x ∈ triggered codec h ts w, rollsBack codec h x.1 x.2 = true → rolls) :
    Moves room rolls w.ledger (ts.foldl (triggerRecycle codec h) w).ledger := by
  induction ts generalizing w with
  | nil => exact .refl
  | cons t ts ih =>
      have hL : (announceTrigger h w t).ledger = w.ledger := rfl
      have hfirst : Moves room rolls w.ledger (triggerRecycle codec h w t).ledger := by
        rw [← hL] at hl ⊢
        exact recycle_moves hl (hroll _ List.mem_cons_self)
      exact hfirst.trans (ih _ (hfirst.live hl) fun x hx => hroll x (List.mem_cons_of_mem _ hx))

theorem checkRecycleTriggers_moves {now : UInt64} {w : World} (hl : Live w.ledger)
    (hroll : ∀ x ∈ thresholdRecycles codec h now w, rollsBack codec h x.1 x.2 = true → rolls) :
    Moves room rolls w.ledger (checkRecycleTriggers codec h now w).ledger := by
  unfold checkRecycleTriggers
  unfold thresholdRecycles at hroll
  split
  · exact .refl
  · next hthr =>
    rw [if_neg hthr] at hroll
    have hL : (measureProviders h now w).1.ledger = w.ledger := rfl
    rw [← hL] at hl ⊢
    exact triggered_moves _ _ hl hroll

/-! ### One operation -/

/-- **A pump is a sequence of moves.** -/
theorem pump_moves {now : UInt64} {w : World} (hl : Live w.ledger)
    (hadm : ∀ L, Moves room rolls w.ledger L → Admits room L)
    (hroll : ∀ x ∈ pumpRecycles codec h now w, rollsBack codec h x.1 x.2 = true → rolls) :
    Moves room rolls w.ledger (pump codec h now w).ledger := by
  unfold pumpRecycles at hroll
  unfold pump
  dsimp only at hroll ⊢
  have h₁ : Moves room rolls w.ledger (sampleTick h now (retireExited h now w)).ledger := by
    rw [World.ledger_of_books (sampleTick_books now _)]
    exact retireExited_moves now w
  have hl₁ := h₁.live hl
  generalize sampleTick h now (retireExited h now w) = w₁ at h₁ hl₁ hroll ⊢
  have h₂ : Moves room rolls w₁.ledger (pressureTick codec h now w₁).ledger :=
    pressureTick_moves hl₁ fun x hx => hroll x (List.mem_append_left _ hx)
  have hl₂ := h₂.live hl₁
  have h₃ : Moves room rolls (pressureTick codec h now w₁).ledger
      (checkRecycleTriggers codec h now (pressureTick codec h now w₁)).ledger :=
    checkRecycleTriggers_moves hl₂ fun x hx => hroll x (List.mem_append_right _ hx)
  have h₁₃ := h₁.trans (h₂.trans h₃)
  exact h₁₃.trans (tryAdmitPending_moves now (hadm _ h₁₃))

/-- A restart that brings a provider up is a direct launch, and conversely. -/
theorem restart_up_iff {id : String} {w : World} (hidle : id ∉ w.mem.runtimes) :
    id ∈ (restart h id (w.begin h)).1.mem.runtimes
      ↔ ∃ cls, directLaunch codec h (.request (.restartTask id)) w = some (id, cls) := by
  unfold restart directLaunch
  dsimp only
  rcases hp : prepareRestart h id (w.begin h) with ⟨w', r | task⟩
  · obtain ⟨⟨ts, hmem, -⟩, -, -⟩ := prepareRestart_spec h hp
    refine iff_of_false ?_ (by simp)
    show id ∉ w'.mem.runtimes
    rw [hmem]
    exact hidle
  · obtain ⟨⟨ts, hmem, -⟩, -, -⟩ := prepareRestart_spec h hp
    have hidle' : id ∉ w'.mem.runtimes := by
      rw [hmem]
      exact hidle
    refine (launchQueued_up task (h.now 0) hidle').trans ?_
    cases hs : launchSucceeds h id task (h.now 0) w' <;> simp [hs]

/-- A resume that brings a provider up is a direct launch, and conversely. -/
theorem resume_up_iff {id : String} {w : World} (hidle : id ∉ w.mem.runtimes) :
    id ∈ (resume codec h id (w.begin h)).1.mem.runtimes
      ↔ ∃ cls, directLaunch codec h (.request (.resumeTask id)) w = some (id, cls) := by
  unfold directLaunch
  dsimp only
  rcases resume_cases codec h (w.begin h) id with ⟨r, hp, heq⟩ |
    ⟨task, cp, hp, ⟨w', e, hr, hmem, heq⟩ | ⟨w', o, rt, hist, hr, hmem, heq⟩⟩ <;> rw [heq, hp]
  · exact iff_of_false hidle (by simp)
  · -- the provider did not come up
    refine iff_of_false ?_ (by simp [hr])
    show id ∉ w'.mem.runtimes
    rw [hmem]
    exact hidle
  · refine iff_of_true ?_ ⟨task.spec.resourceClass, by simp [hr]⟩
    show id ∈ w'.mem.runtimes
    rw [hmem]
    show id ∈ AList.insert id rt _
    rw [KeyMap.mem_insert_iff]
    exact Or.inl rfl

/-- A direct launch is a restart's or a resume's, of a task that is not running, and asks for the
class of its task. -/
theorem directLaunch_spec {id : String} {cls : ResourceClass} {i : Input} {w : World}
    (hd : directLaunch codec h i w = some (id, cls)) :
    (i = .request (.restartTask id) ∨ i = .request (.resumeTask id)) ∧
      ∃ t, w.mem.tasks.lookup id = some t ∧ t.spec.resourceClass = cls ∧
        (id ∈ w.mem.runtimes → t.state = .hibernated) := by
  unfold directLaunch at hd
  split at hd
  · -- a restart
    next j =>
    rcases hp : prepareRestart h j (w.begin h) with ⟨w', r | task⟩
    · rw [hp] at hd
      cases hd
    · rw [hp] at hd
      obtain ⟨-, -, hq⟩ := prepareRestart_spec h hp
      obtain ⟨hidle, -, -, t, ht, hspec⟩ := hq task rfl
      dsimp only at hd
      split at hd
      · obtain ⟨rfl, rfl⟩ := Prod.mk.inj (Option.some.inj hd)
        exact ⟨Or.inl rfl, t, ht, by rw [hspec], fun hin => absurd hin hidle⟩
      · cases hd
  · next j =>
    cases hp : prepareResume codec j (w.begin h).ask with
    | error r =>
        rw [hp] at hd
        cases hd
    | ok p =>
        obtain ⟨task, cp⟩ := p
        rw [hp] at hd
        obtain ⟨ht, hs, -⟩ := prepareResume_ok codec hp
        dsimp only at hd
        split at hd
        · cases hd
        · obtain ⟨rfl, rfl⟩ := Prod.mk.inj (Option.some.inj hd)
          exact ⟨Or.inr rfl, task, ht, rfl, fun _ => hs⟩
  · cases hd

/-- Workspaces are in no book. -/
theorem addWorkspace_books (path : Path) (w : World) :
    (addWorkspace h path w).1.books = w.books := by
  unfold addWorkspace
  cases gitToplevel h path w with
  | none => rfl
  | some toplevel =>
      dsimp only
      split_ifs <;> rfl

theorem removeWorkspace_books (id : String) (w : World) :
    (removeWorkspace h id w).1.books = w.books := by
  unfold removeWorkspace
  split <;> rfl

/-- A refused restart or resume of a running task, and the launch of any other, seen as moves. -/
theorem attempt_moves {i : Input} {w : World} {id : String} {L' : Ledger}
    (hatt : ∀ cls, (∀ t, w.mem.tasks.lookup id = some t → t.spec.resourceClass = cls) →
      Attempt id cls w.ledger L')
    (hup : id ∈ L'.runtimes → ∃ cls, directLaunch codec h i w = some (id, cls))
    (hidle : id ∉ w.mem.runtimes)
    (hdirect : ∀ x ∈ directLaunch codec h i w, room w.mem.reservations x.1 x.2) :
    Moves room rolls w.ledger L' := by
  -- an unregistered task is not launched, so its class does not matter
  let cls := ((w.mem.tasks.lookup id).map fun t => t.spec.resourceClass).getD .standard
  have hcls : ∀ t, w.mem.tasks.lookup id = some t → t.spec.resourceClass = cls := by
    intro t ht
    simp only [cls, ht, Option.map_some, Option.getD_some]
  refine (hatt cls hcls).moves hidle fun hin => ?_
  obtain ⟨cls', hd⟩ := hup hin
  obtain ⟨-, t, ht, rfl, -⟩ := directLaunch_spec hd
  rw [← hcls t ht]
  exact hdirect _ hd

/-- **One operation is a sequence of moves.** -/
theorem perform_moves {i : Input} {w : World} (hl : Live w.ledger)
    (hadm : ∀ L, Moves room rolls w.ledger L → Admits room L)
    (hdirect : ∀ x ∈ directLaunch codec h i w, room w.mem.reservations x.1 x.2)
    (hroll : ∀ x ∈ recyclesOf codec h i w, rollsBack codec h x.1 x.2 = true → rolls) :
    Moves room rolls w.ledger (perform codec h i w).ledger := by
  cases i with
  | tick => exact @pump_moves codec h room rolls (h.now 0) (w.begin h).ask hl hadm hroll
  | request r =>
      cases r with
      | createTask req => exact createTask_moves req (w.begin h)
      | terminateTask id => exact terminate_moves id (w.begin h)
      | forgetTask id => exact forget_moves id (w.begin h)
      | restartTask id =>
          by_cases hin : id ∈ w.mem.runtimes
          · -- a live task is not restarted: the ledger stays
            rcases hp : prepareRestart h id (w.begin h) with ⟨w', r⟩
            obtain ⟨-, hsame, -⟩ := prepareRestart_spec h hp
            obtain ⟨hmem, e, rfl⟩ := hsame hin
            refine moves_of_eq ?_
            show (restart h id (w.begin h)).1.ledger = w.ledger
            rw [restart, hp]
            exact World.ledger_eq hmem
          · exact attempt_moves (fun cls hcls => restart_attempt hcls)
              (restart_up_iff hin).mp hin hdirect
      | hibernateTask id => exact hibernate_moves id (w.begin h)
      | resumeTask id =>
          by_cases hin : id ∈ w.mem.runtimes
          · -- a live task is not hibernated, so that it is not resumed
            obtain ⟨t, ht, hs⟩ := hl id hin
            refine moves_of_eq ?_
            show (resume codec h id (w.begin h)).1.ledger = w.ledger
            rcases resume_cases codec h (w.begin h) id with ⟨r, -, heq⟩ | ⟨task, cp, hp, -⟩
            · rw [heq]
              rfl
            · obtain ⟨ht', hs', -⟩ := prepareResume_ok codec hp
              obtain rfl : t = task := Option.some.inj (ht.symm.trans ht')
              rw [hs'] at hs
              exact absurd hs (by decide)
          · exact attempt_moves (fun cls hcls => resume_attempt hcls)
              (resume_up_iff hin).mp hin hdirect
      | recycleTask id =>
          exact @recycle_moves codec h room rolls id (w.begin h) hl
            (hroll (id, w.begin h) List.mem_cons_self)
      | startTask id => exact @startTask_moves h room rolls id (w.begin h) (hadm _ .refl)
      | addWorkspace path =>
          exact moves_of_eq (World.ledger_of_books (addWorkspace_books path (w.begin h)))
      | removeWorkspace id =>
          exact moves_of_eq (World.ledger_of_books (removeWorkspace_books id (w.begin h)))
      -- requests that only read
      | _ => exact moves_of_eq rfl

end MemMux
