/-
MemMux/LedgerMoves.lean

Every operation of the daemon is a sequence of ledger moves.

For each handler, one lemma: from the ledger it meets to the ledger it leaves there are moves,
the ones its branches stand for.  The launches of an admission pass take only what the plan was
offered (`Admits`); a restart and a resume take their reservation without asking, so their
lemmas assume the room; a recycle whose relaunch fails is a rollback.
-/
import MemMux.Calls
import MemMux.Ledger

namespace MemMux

open Relation Ledger

variable {codec : CheckpointCodec} {h : Host} {room : Room} {rolls : Prop}

/-! ### Launches -/

/-- The state of a queued task after a successful launch. -/
theorem launch_state {t : Task} (hq : t.state = .queued) (now : UInt64) (r₁ r₂ r₃ : String) :
    (((t.attempt .admitting r₁ now).attempt .starting r₂ now).attempt .active r₃ now).state
      = .active := by
  simp only [Task.attempt_state, hq]
  decide

/-- **A launch, seen from the ledger.** -/
theorem launchQueued_attempt {id : String} {t : Task} (snapshot : Task) (now : UInt64) {w : World}
    (ht : w.mem.tasks.lookup id = some t) (hq : t.state = .queued) :
    Attempt id snapshot.spec.resourceClass w.ledger
      (launchQueued h id snapshot now w).1.ledger := by
  obtain ⟨wt, hwt⟩ := ensureWorktree_mem h w id snapshot
  obtain ⟨w₁, cwd, he, hcases⟩ := launchQueued_cases h w id snapshot now
  rw [he] at hwt
  dsimp only at hwt
  have hrun₁ : w₁.mem.runtimes = w.mem.runtimes := by rw [hwt]
  have hres₁ : w₁.mem.reservations = w.mem.reservations := by rw [hwt]
  have ht₁ : w₁.mem.tasks.lookup id = some t := by rw [hwt]; exact ht
  have hoff₁ : KeyMap.Off id w.mem.tasks w₁.mem.tasks := by rw [hwt]; exact .refl _ _
  have ht₂ := lookup_advance_self h _ (lookup_advance_self h _ ht₁ .admitting
    "admitted: fits budget" now) .starting "launching provider" now
  have hoff₂ := (hoff₁.trans (off_advance h _ id .admitting "admitted: fits budget" now)).trans
    (off_advance h _ id .starting "launching provider" now)
  rcases hcases with ⟨pid, -, hw⟩ | ⟨-, hw⟩ <;> rw [hw]
  · refine ⟨congrArg (·.envelope) hwt, hoff₂.trans (off_advance h _ id _ _ now), Or.inl
      ⟨_, ⟨snapshot.spec.provider, pid, some cwd⟩,
        lookup_advance_self h _ ht₂ .active "provider running" now, launch_state hq now _ _ _,
        ?_, ?_⟩⟩
    · show w₁.mem.runtimes.insert id _ = w.mem.runtimes.insert id _
      rw [hrun₁]
    · show w₁.mem.reservations.insert id _ = w.mem.reservations.insert id _
      rw [hres₁]
  · exact ⟨congrArg (·.envelope) hwt, hoff₂.trans (off_advance h _ id _ _ now),
      Or.inr ⟨hrun₁, hres₁⟩⟩

/-- A launch brings the provider up exactly when the host answers it with one. -/
theorem launchQueued_up {id : String} (snapshot : Task) (now : UInt64) {w : World}
    (hidle : id ∉ w.mem.runtimes) :
    id ∈ (launchQueued h id snapshot now w).1.mem.runtimes
      ↔ launchSucceeds h id snapshot now w := by
  obtain ⟨wt, hwt⟩ := ensureWorktree_mem h w id snapshot
  obtain ⟨w₁, cwd, he, hcases⟩ := launchQueued_cases h w id snapshot now
  rw [he] at hwt
  dsimp only at hwt
  have hrun₁ : w₁.mem.runtimes = w.mem.runtimes := by rw [hwt]
  unfold launchSucceeds
  rw [he]
  rcases hcases with ⟨pid, hs, hw⟩ | ⟨hs, hw⟩ <;> rw [hw, hs]
  · refine iff_of_true ?_ rfl
    show id ∈ w₁.mem.runtimes.insert id _
    rw [KeyMap.mem_insert_iff]
    exact Or.inl rfl
  · refine iff_of_false ?_ (by simp)
    show id ∉ w₁.mem.runtimes
    rwa [hrun₁]

/-! ### Admission -/

/-- The candidates of an admission pass are queued tasks without a provider, each asking for the
peak of its class, in the order they were pending; the pass reads the ledger only. -/
theorem collectCandidates_spec (now : UInt64) (pending : List String) (m : DaemonState)
    {m' : DaemonState} {cs : List (Candidate Float)}
    (hc : collectCandidates now pending m = (m', cs)) :
    m'.envelope = m.envelope ∧ m'.tasks = m.tasks ∧ m'.runtimes = m.runtimes ∧
      m'.reservations = m.reservations ∧ (cs.map (·.taskId)).Sublist pending ∧
      ∀ c ∈ cs, ∃ t, m.tasks.lookup c.taskId = some t ∧ t.state = .queued ∧
        c.taskId ∉ m.runtimes ∧
        c.predictedPeakBytes = (classReservation t.spec.resourceClass).peakBytes := by
  induction pending generalizing m m' cs with
  | nil =>
      obtain ⟨rfl, rfl⟩ := Prod.mk.inj hc
      exact ⟨rfl, rfl, rfl, rfl, .slnil, by simp⟩
  | cons id pending ih =>
      unfold collectCandidates at hc
      cases ha : admissible id m with
      -- not admissible: the task is skipped
      | none =>
          rw [ha] at hc
          obtain ⟨h₁, h₂, h₃, h₄, h₅, h₆⟩ := ih _ hc
          exact ⟨h₁, h₂, h₃, h₄, h₅.cons _, h₆⟩
      | some task =>
          rw [ha] at hc
          dsimp only at hc
          split at hc
          · obtain ⟨h₁, h₂, h₃, h₄, h₅, h₆⟩ := ih _ hc
            exact ⟨h₁, h₂, h₃, h₄, h₅.cons _, h₆⟩
          · -- it becomes a candidate, in front of those after it
            rcases hr : collectCandidates now pending m with ⟨m₁, cs₁⟩
            rw [hr] at hc
            obtain ⟨rfl, rfl⟩ := Prod.mk.inj hc
            obtain ⟨h₁, h₂, h₃, h₄, h₅, h₆⟩ := ih _ hr
            refine ⟨h₁, h₂, h₃, h₄, h₅.cons_cons _, fun c hc => ?_⟩
            rcases List.mem_cons.mp hc with rfl | hc
            · unfold admissible at ha
              split at ha
              · cases ha
              · next t ht =>
                split at ha
                · cases ha
                · next hn =>
                  obtain rfl := Option.some.inj ha
                  rw [not_or, not_not] at hn
                  exact ⟨t, ht, hn.1, hn.2, rfl⟩
            · exact h₆ c hc

/-- What an admission pass may promise about the room for a launch: the budget is kept if it was
kept before the pass. -/
def Admits (room : Room) (L : Ledger) : Prop :=
  ∀ R id cls, (L.total ≤ L.budget → totalWith R id cls ≤ L.budget) → room R id cls

theorem admitOne_ledger (now : UInt64) (w : World) {id : String} {t : Task}
    (ht : w.mem.tasks.lookup id = some t) :
    ∃ w', w'.mem = w.mem ∧ (admitOne h now w id).ledger = (launchQueued h id t now w').1.ledger := by
  refine ⟨audit h (some id) "admitted" "scored in and fits the budget" none w, rfl, ?_⟩
  unfold admitOne
  rw [ht]
  rfl

/-- The launches of an admission pass, when their peaks together fit what is left of the budget. -/
theorem admitAll_moves {L₀ : Ledger} (hadm : Admits room L₀) (now : UInt64) (ids : List String)
    (w : World) (peak : String → Nat) (hnodup : ids.Nodup)
    (hq : ∀ id ∈ ids, ∃ t, w.mem.tasks.lookup id = some t ∧ t.state = .queued ∧
      id ∉ w.mem.runtimes ∧ peak id = (classReservation t.spec.resourceClass).peakBytes)
    (hfit : L₀.total ≤ L₀.budget → w.ledger.total + (ids.map peak).sum ≤ L₀.budget) :
    Moves room rolls w.ledger (ids.foldl (admitOne h now) w).ledger := by
  induction ids generalizing w with
  | nil => exact .refl
  | cons id ids ih =>
      obtain ⟨hnot, hnodup⟩ := List.nodup_cons.mp hnodup
      obtain ⟨t, ht, hs, hidle, hpeak⟩ := hq id List.mem_cons_self
      -- what was reserved for the task before is given back first
      have hle : ∀ R : KeyMap String Reservation, totalWith R id t.spec.resourceClass
          ≤ peak id + KeyMap.sumBy Reservation.peakBytes R := by
        intro R
        rw [totalWith, hpeak]
        exact Nat.add_le_add_left (KeyMap.sumBy_erase_le _ _ _) _
      simp only [List.map_cons, List.sum_cons] at hfit
      have hroom : room w.mem.reservations id t.spec.resourceClass := by
        refine hadm _ _ _ fun hb => ?_
        have h₁ := hfit hb
        have h₂ := hle w.mem.reservations
        have h₃ : w.ledger.total = KeyMap.sumBy Reservation.peakBytes w.mem.reservations := rfl
        omega
      obtain ⟨w', hmem, hone⟩ := @admitOne_ledger h now w id t ht
      have ht' : w'.mem.tasks.lookup id = some t := by rw [hmem]; exact ht
      have hatt := @launchQueued_attempt h id t t now w' ht' hs
      rw [← hone, World.ledger_eq hmem] at hatt
      -- the first launch is one move; the others still fit behind it
      have hmoves : Moves room rolls w.ledger (admitOne h now w id).ledger := by
        exact hatt.moves hidle fun _ => hroom
      obtain ⟨-, hoff, hcases⟩ := hatt
      rw [List.foldl_cons]
      generalize admitOne h now w id = w₁ at hmoves hoff hcases ⊢
      refine hmoves.trans (ih _ hnodup (fun j hj => ?_) (fun hb => ?_))
      · obtain ⟨u, hu, hus, hui, hup⟩ := hq j (List.mem_cons_of_mem _ hj)
        have hne : j ≠ id := fun e => hnot (e ▸ hj)
        refine ⟨u, (hoff j hne).trans hu, hus, ?_, hup⟩
        show j ∉ w₁.ledger.runtimes
        rcases hcases with ⟨_, rt, _, _, hrun, _⟩ | ⟨hrun, _⟩ <;> rw [hrun]
        · rw [KeyMap.mem_insert_iff]
          exact fun hj' => hj'.elim hne hui
        · exact hui
      · have h₁ := hfit hb
        have h₂ := hle w.mem.reservations
        have h₃ : w.ledger.total = KeyMap.sumBy Reservation.peakBytes w.mem.reservations := rfl
        have htot : w₁.ledger.total ≤ peak id + w.ledger.total := by
          unfold total
          rcases hcases with ⟨_, _, _, _, _, hres⟩ | ⟨_, hres⟩ <;> rw [hres]
          · exact (total_insert w.ledger id _).trans_le h₂
          · exact Nat.le_add_left _ _
        omega

theorem deferAll_ledger (ds : List (String × String)) (w : World) :
    (ds.foldl (deferOne h) w).ledger = w.ledger := by
  induction ds generalizing w with
  | nil => rfl
  | cons d ds ih =>
      rw [List.foldl_cons, ih]
      unfold deferOne
      dsimp only
      split_ifs <;> rfl

/-- **An admission pass is a sequence of launches that respects the budget.** -/
theorem tryAdmitPending_moves (now : UInt64) {w : World} (hadm : Admits room w.ledger) :
    Moves room rolls w.ledger (tryAdmitPending h now w).ledger := by
  rcases hc : collectCandidates now (w.mem.pendingAdmission.dedup.insertionSort (· ≤ ·)) w.mem
    with ⟨m, cs⟩
  obtain ⟨henv, htasks, hrun, hres, hsub, hspec⟩ := collectCandidates_spec now _ _ hc
  unfold tryAdmitPending
  simp only [hc]
  rw [deferAll_ledger]
  have hL : ({ w with mem := m } : World).ledger = w.ledger := by
    simp only [World.ledger, henv, htasks, hrun, hres]
  have hnodup : (cs.map (·.taskId)).Nodup :=
    ((List.perm_insertionSort _ _).nodup_iff.mpr (List.nodup_dedup _)).sublist hsub
  rw [← hL]
  let peak (id : String) : Nat :=
    ((w.mem.tasks.lookup id).map fun t => (classReservation t.spec.resourceClass).peakBytes).getD 0
  have hpeak : ∀ c ∈ cs, c.predictedPeakBytes = peak c.taskId := by
    intro c hc
    obtain ⟨t, ht, -, -, hp⟩ := hspec c hc
    simp only [peak, ht, Option.map_some, Option.getD_some]
    exact hp
  refine admitAll_moves hadm now _ _ peak (nodup_admitted hnodup _) (fun id hid => ?_)
    (fun hb => ?_)
  · obtain ⟨c, hc, rfl⟩ := exists_of_mem_admitted hid
    obtain ⟨t, ht, hs, hidle, hp⟩ := hspec c hc
    exact ⟨t, by rw [htasks]; exact ht, hs, by rw [hrun]; exact hidle, by rw [← hpeak c hc, hp]⟩
  · -- while the ledger is within the budget its sum does not wrap
    have hused : reservedBytes m = w.ledger.total := by
      have hlt := w.mem.envelope.budget_lt
      have hsum : ((KeyMap.values m.reservations).map (·.peakBytes)).sum = w.ledger.total := by
        rw [hres]
        rfl
      unfold reservedBytes wrapSum
      rw [hsum]
      exact Nat.mod_eq_of_lt (lt_of_le_of_lt hb hlt)
    have havail := w.mem.envelope.availableBytes_le hb
    have hplan := planAdmission_fits peak hpeak (m.envelope.availableBytes (reservedBytes m))
    rw [hused, henv] at hplan
    rw [hL, hused, henv]
    calc w.ledger.total + _ ≤ w.ledger.total + w.mem.envelope.availableBytes w.ledger.total :=
          Nat.add_le_add_left hplan _
      _ ≤ w.ledger.budget := havail

/-! ### Requests without a launch of their own -/

theorem createTask_moves (req : CreateTaskRequest) (w : World) :
    Moves room rolls w.ledger (createTask h req w).1.ledger := by
  unfold createTask
  cases parseProvider req.provider with
  | none => exact .refl
  | some provider =>
      dsimp only
      split
      · exact Move.moves (.register _ _ rfl (KeyMap.off_insert _ _ _)
          (AList.lookup_insert _) rfl rfl rfl)
      · exact moves_of_eq rfl

theorem startTask_moves {id : String} {w : World} (hadm : Admits room w.ledger) :
    Moves room rolls w.ledger (startTask h id w).1.ledger := by
  unfold startTask
  dsimp only
  split
  · exact moves_of_eq rfl
  · split
    · exact moves_of_eq rfl
    · split
      · exact moves_of_eq rfl
      · generalize hw : (⟨{ w.ask.mem with
          pendingAdmission := id :: w.ask.mem.pendingAdmission.filter (· ≠ id) },
          w.ask.durable, w.ask.procs, w.ask.calls⟩ : World) = w₁
        have hL : w₁.ledger = w.ledger := by
          subst hw
          rfl
        rw [← hL] at hadm ⊢
        exact tryAdmitPending_moves _ hadm

theorem forget_moves (id : String) (w : World) :
    Moves room rolls w.ledger (forget h id w).1.ledger := by
  unfold forget
  split
  · exact .refl
  · next hid =>
    cases w.mem.tasks.lookup id with
    | none => exact .refl
    | some task =>
        dsimp only
        split
        · exact .refl
        · let w₀ : World := { w with
            mem := { w.mem with
              tasks := w.mem.tasks.erase id, histories := w.mem.histories.erase id } }
          have hL : (deleteTask h id w₀).1.ledger = w₀.ledger :=
            World.ledger_eq (deleteTask_mem h w₀ id)
          have hmove : Moves room rolls w.ledger w₀.ledger :=
            Move.moves (.idle id rfl (KeyMap.off_erase _ _) rfl rfl hid)
          rw [← hL] at hmove
          generalize deleteTask h id w₀ = r at hmove ⊢
          obtain ⟨w', _ | _⟩ := r <;> exact hmove

/-! ### Requests that end a residency -/

theorem terminate_moves (id : String) (w : World) :
    Moves room rolls w.ledger (terminate h id w).1.ledger := by
  unfold terminate
  dsimp only
  split
  · exact moves_of_eq rfl
  · -- the worlds after the sweep, the stop, the cleanup and the release
    generalize hw₁ : reapTaskProcesses h id _ w.ask = w₁
    have hL₁ : w₁.ledger = w.ledger := by
      rw [← hw₁]
      rfl
    obtain ⟨hist, hm₂⟩ := stopLive_mem h w₁ id
    have hm₃ := cleanupWorktree_mem h (stopLive h id w₁) id
    generalize hw₄ : releaseReservation id (cleanupWorktree h id (stopLive h id w₁)) = w₄
    have hL₄ : w₄.ledger = ⟨w₁.ledger.envelope, w₁.ledger.tasks, w₁.ledger.runtimes.erase id,
        w₁.ledger.reservations.erase id⟩ := by
      subst hw₄
      simp only [World.ledger, releaseReservation, hm₃, hm₂]
    obtain ⟨ts, hm₅, hoff⟩ := drive_mem h w₄ id (h.now w.calls)
    have htasks : w₄.mem.tasks = w₁.ledger.tasks := congrArg (·.tasks) hL₄
    rw [htasks] at hoff
    have hfinal : Moves room rolls w₁.ledger (drive h id (h.now w.calls) w₄).ledger := by
      refine Move.moves (.retire id ?_ ?_ ?_ ?_) <;> simp only [World.ledger, hm₅]
      · exact congrArg (·.envelope) hL₄
      · exact hoff
      · exact congrArg (·.runtimes) hL₄
      · exact congrArg (·.reservations) hL₄
    rw [← hL₁]
    exact hfinal

theorem freeze_moves (id : String) (cp : Checkpoint) (now : UInt64) (w : World) :
    Moves room rolls w.ledger (freeze h id cp now w).ledger := by
  obtain ⟨hist, hm⟩ := shutdownRuntime_mem h w id
  unfold freeze
  rcases hs : shutdownRuntime h id w with ⟨w₁, cleanup⟩
  rw [hs] at hm
  dsimp only at hm ⊢
  generalize hw₂ : releaseReservation id w₁ = w₂
  have hL₂ : w₂.ledger = ⟨w.ledger.envelope, w.ledger.tasks, w.ledger.runtimes.erase id,
      w.ledger.reservations.erase id⟩ := by
    subst hw₂
    simp only [World.ledger, releaseReservation, hm]
  have hoff := (off_advance h w₂ id .checkpointing "capturing checkpoint" now).trans
    (off_advance h _ id .hibernated "provider stopped; task frozen" now)
  have htasks : w₂.mem.tasks = w.ledger.tasks := congrArg (·.tasks) hL₂
  rw [htasks] at hoff
  exact Move.moves (.retire id (congrArg (·.envelope) hL₂) hoff (congrArg (·.runtimes) hL₂)
    (congrArg (·.reservations) hL₂))

theorem hibernate_moves (id : String) (w : World) :
    Moves room rolls w.ledger (hibernate codec h id w).1.ledger := by
  rcases hibernate_cases codec h w id with ⟨w', r, -, hmem, heq⟩ | ⟨w', task, cp, -, hmem, heq⟩
  · rw [heq]
    exact moves_of_eq (World.ledger_eq hmem)
  · have hL : w'.ledger = w.ledger := World.ledger_eq hmem
    rw [heq, ← hL]
    exact freeze_moves id cp _ w'

/-! ### Restart, resume and recycle -/

/-- **A restart is an attempt to launch**, in the class of its task. -/
theorem restart_attempt {id : String} {w : World} {cls : ResourceClass}
    (hcls : ∀ t, w.mem.tasks.lookup id = some t → t.spec.resourceClass = cls) :
    Attempt id cls w.ledger (restart h id w).1.ledger := by
  unfold restart
  rcases hp : prepareRestart h id w with ⟨w', r | requeued⟩
  · obtain ⟨⟨ts, hmem, hoff⟩, -, -⟩ := prepareRestart_spec h hp
    refine ⟨congrArg (·.envelope) hmem, ?_, Or.inr ⟨congrArg (·.runtimes) hmem,
      congrArg (·.reservations) hmem⟩⟩
    show KeyMap.Off id w.mem.tasks w'.mem.tasks
    rw [hmem]
    exact hoff
  · obtain ⟨⟨ts, hmem, hoff⟩, -, hok⟩ := prepareRestart_spec h hp
    obtain ⟨-, hr, hq, t, ht, hspec⟩ := hok requeued rfl
    have hatt := launchQueued_attempt (h := h) requeued (h.now w.calls) hr hq
    have hL : w'.ledger = ⟨w.ledger.envelope, ts, w.ledger.runtimes, w.ledger.reservations⟩ := by
      simp only [World.ledger, hmem]
    rw [hL, hspec, hcls t ht] at hatt
    obtain ⟨henv, hoff', hout⟩ := hatt
    exact ⟨henv, hoff.trans hoff', hout⟩

theorem resume_attempt {id : String} {w : World} {cls : ResourceClass}
    (hcls : ∀ t, w.mem.tasks.lookup id = some t → t.spec.resourceClass = cls) :
    Attempt id cls w.ledger (resume codec h id w).1.ledger := by
  rcases resume_cases codec h w id with ⟨r, -, heq⟩ |
    ⟨task, cp, hp, ⟨w', e, -, hmem, heq⟩ | ⟨w', o, rt, hist, -, hmem, heq⟩⟩ <;> rw [heq]
  · exact .refl _ _ _
  · -- the launch failed
    have hL : w'.ledger = w.ledger := World.ledger_eq hmem
    exact hL ▸ .refl id cls w'.ledger
  · obtain ⟨ht, hs, -⟩ := prepareResume_ok codec hp
    have ht' : w'.mem.tasks.lookup id = some task := by
      rw [hmem]
      exact ht
    have hoff : KeyMap.Off id w.mem.tasks w'.mem.tasks := by
      rw [hmem]
      exact .refl _ _
    -- the task moves twice, on to `Active`, and reserves again
    have ht₂ := lookup_advance_self h _ (lookup_advance_self h w' ht' .resuming
      "restoring from checkpoint" (h.now w.calls)) .active "provider resumed" (h.now w.calls)
    have hoff₂ := (hoff.trans (off_advance h w' id .resuming "restoring from checkpoint"
      (h.now w.calls))).trans (off_advance h _ id .active "provider resumed" (h.now w.calls))
    have hactive : ((task.attempt .resuming "restoring from checkpoint"
        (h.now w.calls)).attempt .active "provider resumed" (h.now w.calls)).state = .active := by
      simp only [Task.attempt_state, hs]
      decide
    refine ⟨congrArg (·.envelope) hmem, hoff₂, Or.inl ⟨_, rt, ht₂, hactive,
      congrArg (·.runtimes) hmem, ?_⟩⟩
    show w'.mem.reservations.insert id (classReservation task.spec.resourceClass) = _
    rw [hmem, hcls task ht]
    rfl

/-- A task that was running is running after its recycle. -/
theorem recycle_running {t : Task} (hr : Running t.state) (now : UInt64) (r₁ r₂ r₃ : String) :
    Running (((t.attempt .recycling r₁ now).attempt .resuming r₂ now).attempt .active r₃
      now).state := by
  simp only [Task.attempt_state]
  rcases hr with hs | hs <;> rw [hs] <;> decide

/-- Stopping the old provider and launching a new one: its reservation stays either way. -/
theorem relaunchLive_spec {id : String} (task : Task) (cp : Checkpoint) (now : UInt64) {w w' : World}
    {cleanup : String} {r : Except String ResumeOutcome}
    (hr : relaunchLive h id task cp now w = (w', cleanup, r)) :
    w'.mem.envelope = w.mem.envelope ∧ w'.mem.reservations = w.mem.reservations ∧
      KeyMap.Off id w.mem.tasks w'.mem.tasks ∧
      w'.mem.tasks.lookup id
        = (w.mem.tasks.lookup id).map (·.attempt .recycling "recycling provider" now) ∧
      ((∃ o rt, r = .ok o ∧ w'.mem.runtimes = (w.mem.runtimes.erase id).insert id rt) ∨
        ((∃ e, r = .error e) ∧ w'.mem.runtimes = w.mem.runtimes.erase id)) := by
  obtain ⟨hist, hm⟩ := shutdownRuntime_mem h w id
  unfold relaunchLive at hr
  rcases hs : shutdownRuntime h id w with ⟨w₁, note⟩
  rw [hs] at hm hr
  dsimp only at hm hr
  have hcases := relaunch_cases h (beginRecycle h id now w₁) id task cp
  rcases hl : relaunchFromCheckpoint h id task cp (beginRecycle h id now w₁) with ⟨w₂, r₂⟩
  rw [hl] at hcases hr
  dsimp only at hcases hr
  obtain ⟨rfl, rfl, rfl⟩ : w₂ = w' ∧ note = cleanup ∧ r₂ = r := by simpa using hr
  -- the world the relaunch starts in
  have hoff := off_advance h w₁ id .recycling "recycling provider" now
  have hself := lookup_advance h w₁ id .recycling "recycling provider" now id
  have htasks : w₁.mem.tasks = w.mem.tasks := congrArg (·.tasks) hm
  rw [htasks] at hoff hself
  rw [if_pos rfl] at hself
  have hrun : w₁.mem.runtimes = w.mem.runtimes.erase id := congrArg (·.runtimes) hm
  obtain ⟨o, rt, hist', hok, hmem⟩ | ⟨herr, hmem⟩ := hcases
  · refine ⟨(congrArg (·.envelope) hmem).trans (congrArg (·.envelope) hm),
      (congrArg (·.reservations) hmem).trans (congrArg (·.reservations) hm), ?_, ?_,
      Or.inl ⟨o, rt, hok, (congrArg (·.runtimes) hmem).trans ?_⟩⟩
    · rw [hmem]
      exact hoff
    · rw [hmem]
      exact hself
    · show w₁.mem.runtimes.insert id rt = _
      rw [hrun]
  · refine ⟨(congrArg (·.envelope) hmem).trans (congrArg (·.envelope) hm),
      (congrArg (·.reservations) hmem).trans (congrArg (·.reservations) hm), ?_, ?_,
      Or.inr ⟨herr, (congrArg (·.runtimes) hmem).trans hrun⟩⟩
    · rw [hmem]
      exact hoff
    · rw [hmem]
      exact hself

/-- **A recycle replaces its provider under the reservation, or rolls back.** -/
theorem recycle_moves {id : String} {w : World} (hl : Live w.ledger)
    (hroll : rollsBack codec h id w = true → rolls) :
    Moves room rolls w.ledger (recycle codec h id w).1.ledger := by
  rcases recycle_cases codec h w id with
    ⟨w', r, -, hmem, heq⟩ | ⟨w₁, task, cp, hc, hmem, hcases⟩
  · rw [heq]
    exact moves_of_eq (World.ledger_eq hmem)
  · have hL : w₁.ledger = w.ledger := World.ledger_eq hmem
    obtain ⟨hlive, ht, -, -, -⟩ := checkpointLive_ok codec h hc
    rw [← hL] at hl ⊢
    have hlive₁ : id ∈ w₁.mem.runtimes := by
      rw [hmem]
      exact hlive
    obtain ⟨t, ht, hs⟩ := hl id hlive₁
    rcases hcases with ⟨w₂, cleanup, e, hr, heq⟩ | ⟨w₂, cleanup, o, hr, heq⟩
    · -- the relaunch failed: the recycle is rolled back
      rw [heq]
      obtain ⟨henv, hres, hoff, -, ⟨o, rt, ho, -⟩ | ⟨-, hrun⟩⟩ := relaunchLive_spec task cp _ hr
      · cases ho
      · refine Move.moves (.rollback id henv (hoff.trans (off_advance h w₂ id _ _ _)) hrun hres
          (hroll ?_))
        unfold rollsBack
        rw [hc]
        dsimp only
        rw [hr]
    · rw [heq]
      obtain ⟨henv, hres, hoff, hself, ⟨o', rt, -, hrun⟩ | ⟨⟨e, he⟩, -⟩⟩ :=
        relaunchLive_spec task cp _ hr
      · rw [show w₁.mem.tasks.lookup id = some t from ht] at hself
        -- the task passes through `Resuming` to `Active` again
        have ht₂ := lookup_advance_self h _ (lookup_advance_self h w₂.ask hself .resuming
          "restoring from checkpoint" (h.now w.calls)) .active "provider recycled" (h.now w.calls)
        have hoff₂ := (hoff.trans (off_advance h w₂.ask id .resuming "restoring from checkpoint"
          (h.now w.calls))).trans (off_advance h _ id .active "provider recycled" (h.now w.calls))
        exact Move.moves (.relaunch id _ rt henv hoff₂ ht₂ (recycle_running hs _ _ _ _) hlive₁
          hrun hres)
      · cases he

end MemMux
