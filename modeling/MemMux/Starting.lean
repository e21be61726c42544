/-
MemMux/Starting.lean

What `StartTask` answers (`start_task`, `try_admit_pending` and `launch_queued` in
`memmuxd/src/daemon.rs`).

A start registers its intent and runs an admission pass over all pending tasks.  The pass either
launches the task (`seat_of_passLaunches`) or leaves it waiting with a reason
(`seat_of_not_launched`).  A launch that fails is answered with an error by `launch_queued`, and
the pass drops that answer: `start_task` then returns the view of a task that has failed.
`honestStart_iff` is the exact condition.
-/
import MemMux.Capacity
import MemMux.Residency

namespace MemMux

open Relation

variable {codec : CheckpointCodec} {h : Host}

/-! ### Sorting keeps what may be started -/

/-- A start that may be considered stays pending, and has a reason if it had one or is held. -/
theorem collectCandidates_keeps (now : UInt64) {pending : List String} {m : DaemonState}
    {id : String} {t : Task} (ht : admissible id m = some t) :
    (id ∈ m.pendingAdmission → id ∈ (collectCandidates now pending m).1.pendingAdmission) ∧
      (id ∈ m.queuedReasons ∨ (id ∈ pending ∧ held t m.pressureStage = true) →
        id ∈ (collectCandidates now pending m).1.queuedReasons) := by
  induction pending generalizing m with
  | nil => exact ⟨fun hp => hp, fun hr => hr.elim (fun hr => hr) fun hin => nomatch hin.1⟩
  | cons j pending ih =>
      unfold collectCandidates
      cases hj : admissible j m with
      | none =>
          -- a void start is another one
          have hne : id ≠ j := by
            rintro rfl
            rw [ht] at hj
            cases hj
          obtain ⟨hpend, hreason⟩ := ih (m := dropStart j m)
            (((sorted_dropStart j m).admissible_eq id).trans ht)
          refine ⟨fun hp => hpend (List.mem_filter.mpr ⟨hp, by simpa using hne⟩), fun hr => ?_⟩
          refine hreason (hr.imp (fun hr => ?_) fun hr => ⟨?_, hr.2⟩)
          · exact (AList.mem_erase).mpr ⟨hne, hr⟩
          · exact (List.mem_cons.mp hr.1).resolve_left hne
      | some u =>
          dsimp only
          split
          · next hheld =>
            obtain ⟨hpend, hreason⟩ := ih (m := holdStart j m)
              (((sorted_holdStart j m).admissible_eq id).trans ht)
            refine ⟨hpend, fun hr => hreason ?_⟩
            by_cases hne : id = j
            · exact .inl (AList.mem_insert _ |>.mpr (.inl hne))
            · refine hr.imp (fun hr => AList.mem_insert _ |>.mpr (.inr hr)) fun hr => ⟨?_, hr.2⟩
              exact (List.mem_cons.mp hr.1).resolve_left hne
          · next hheld =>
            obtain ⟨hpend, hreason⟩ := ih ht
            refine ⟨hpend, fun hr => hreason (hr.imp_right fun hr => ⟨?_, hr.2⟩)⟩
            refine (List.mem_cons.mp hr.1).resolve_left ?_
            rintro rfl
            rw [ht] at hj
            rw [← Option.some.inj hj] at hheld
            exact hheld hr.2

/-! ### The seats after a pass -/

/-- The seat of an admitted task. -/
def seatAfter (h : Host) (now : UInt64) (l : Launch) (s : Seat) : Seat :=
  if launchSucceeds h l.id l.task now l.world then ⟨some .active, true, true, false, false⟩
  else { s with state := some .failed, pending := false, reasoned := false }

/-- Every admitted task is launched once, and its launch says what its seat is afterwards. -/
theorem admitAll_seats (now : UInt64) {ids : List String} {w : World} (hnodup : ids.Nodup)
    (hs : ∀ j ∈ ids, (w.mem.seat j).Startable) :
    (∀ l ∈ admitLaunches h now ids w,
      (ids.foldl (admitOne h now) w).mem.seat l.id = seatAfter h now l (w.mem.seat l.id)) ∧
    ∀ j ∈ ids, ∃ l ∈ admitLaunches h now ids w, l.id = j := by
  induction ids generalizing w with
  | nil => exact ⟨fun l hl => (nomatch hl), fun j hj => (nomatch hj)⟩
  | cons id ids ih =>
      obtain ⟨hnot, hdistinct⟩ := List.nodup_cons.mp hnodup
      obtain ⟨l, ⟨hl, -, -, rfl⟩, hone⟩ :=
        admitOne_started (h := h) now (hs id List.mem_cons_self)
      have hstart := hone.startable hnot fun j hj => hs j (List.mem_cons_of_mem _ hj)
      obtain ⟨hseats, hexists⟩ := ih hdistinct hstart
      have hrest := admitAll_started (h := h) now hdistinct hstart
      have hlaunches : admitLaunches h now (l.id :: ids) w
          = l :: admitLaunches h now ids (admitOne h now w l.id) := by
        rw [admitLaunches, hl]
        rfl
      rw [hlaunches, List.foldl_cons]
      refine ⟨List.forall_mem_cons.mpr ⟨?_, fun k hk => ?_⟩, fun j hj => ?_⟩
      · rw [hrest.off l.id hnot, hone.seat]
        rfl
      · have hne : k.id ≠ l.id := fun e => hnot (e ▸ (hrest.launches k hk).1)
        rw [hseats k hk, hone.off k.id hne]
      · rcases List.mem_cons.mp hj with rfl | hj
        · exact ⟨l, List.mem_cons_self, rfl⟩
        · obtain ⟨k, hk, hkj⟩ := hexists j hj
          exact ⟨k, List.mem_cons_of_mem _ hk, hkj⟩

/-- Deferring gives the deferred tasks a reason, and changes nothing else. -/
theorem deferAll_reasons (ds : List (String × String)) (w : World) (id : String) :
    id ∈ (ds.foldl (deferOne h) w).mem.queuedReasons
      ↔ id ∈ w.mem.queuedReasons ∨ id ∈ ds.map (·.1) := by
  induction ds generalizing w with
  | nil => simp
  | cons d ds ih =>
      rw [List.foldl_cons, ih, deferOne_mem, List.map_cons, List.mem_cons]
      show id ∈ w.mem.queuedReasons.insert d.1 d.2 ∨ _ ↔ _
      rw [AList.mem_insert]
      tauto

/-- The pass launches the task: the launch says whether it runs or has failed. -/
theorem seat_of_passLaunches {now : UInt64} {w : World} {l : Launch}
    (hl : l ∈ passLaunches h now w) :
    ((tryAdmitPending h now w).mem.seat l.id).live = launchSucceeds h l.id l.task now l.world ∧
      ((tryAdmitPending h now w).mem.seat l.id).state
        = if launchSucceeds h l.id l.task now l.world then some .active else some .failed := by
  have hplan := planPass_planned now w
  rw [passLaunches_eq] at hl
  rw [tryAdmitPending_eq]
  have hseat := (admitAll_seats (h := h) now hplan.nodup hplan.startable).1 l hl
  have hin := ((admitAll_started (h := h) now hplan.nodup hplan.startable).launches l hl).1
  have hidle := (hplan.startable l.id hin).2
  obtain ⟨reasons, hmem⟩ := deferAll_mem (h := h) (planPass now w).2.deferred
    ((planPass now w).2.admitted.foldl (admitOne h now) (planPass now w).1)
  generalize (planPass now w).2.admitted.foldl (admitOne h now) (planPass now w).1 = w₁
    at hseat hmem ⊢
  have hlive : (((planPass now w).2.deferred.foldl (deferOne h) w₁).mem.seat l.id).live
      = (w₁.mem.seat l.id).live := by rw [hmem]; rfl
  have hstate : (((planPass now w).2.deferred.foldl (deferOne h) w₁).mem.seat l.id).state
      = (w₁.mem.seat l.id).state := by rw [hmem]; rfl
  rw [hlive, hstate, hseat]
  unfold seatAfter
  cases launchSucceeds h l.id l.task now l.world with
  | true => exact ⟨rfl, rfl⟩
  | false => exact ⟨hidle, rfl⟩

/-- The pass does not launch the task: it waits, and there is a reason. -/
theorem seat_of_not_launched {now : UInt64} {w : World} {id : String}
    (hs : (w.mem.seat id).Startable) (hp : id ∈ w.mem.pendingAdmission)
    (hnone : ∀ l ∈ passLaunches h now w, l.id ≠ id) :
    ((tryAdmitPending h now w).mem.seat id).Waits ∧
      ((tryAdmitPending h now w).mem.seat id).reasoned = true := by
  obtain ⟨t, ht⟩ := startable_iff.mp hs
  have hplan := planPass_planned now w
  rw [passLaunches_eq] at hnone
  rw [tryAdmitPending_eq]
  have hall := admitAll_started (h := h) now hplan.nodup hplan.startable
  have hnot : id ∉ (planPass now w).2.admitted := by
    intro hin
    obtain ⟨l, hl, hid⟩ := (admitAll_seats (h := h) now hplan.nodup hplan.startable).2 id hin
    exact hnone l hl hid
  -- the task is among the sorted starts
  obtain ⟨hpend, hreason⟩ := @collectCandidates_keeps now (pendingOrder w.mem) _ _ _ ht
  have hoffer := (collectCandidates_sorted now (pendingOrder w.mem) w.mem).2
  have hexplained : id ∈ (planPass now w).1.mem.queuedReasons ∨
      id ∈ (planPass now w).2.deferred.map (·.1) := by
    cases hheld : held t w.mem.pressureStage with
    | true => exact .inl (hreason (.inr ⟨mem_pendingOrder.mpr hp, hheld⟩))
    | false =>
        have hcand : candidateOf id t now w.mem.envelope.agentBudgetBytes
            ∈ (collectCandidates now (pendingOrder w.mem) w.mem).2 := by
          rw [hoffer]
          exact List.mem_filterMap.mpr
            ⟨id, mem_pendingOrder.mpr hp, offer_some.mpr ⟨t, ht, hheld, rfl⟩⟩
        exact .inr ((mem_admitLoop (mem_sortCandidates.mpr hcand)).resolve_left hnot)
  have hseat₁ : ((planPass now w).1.mem.seat id).Waits :=
    ⟨startable_iff.mpr ⟨t, (hplan.sorted.admissible_eq id).trans ht⟩,
      seat_pending_iff.mpr (hpend hp)⟩
  have hoff := hall.off id hnot
  have hreasons := deferAll_reasons (h := h) (planPass now w).2.deferred
    ((planPass now w).2.admitted.foldl (admitOne h now) (planPass now w).1) id
  obtain ⟨reasons, hmem⟩ := deferAll_mem (h := h) (planPass now w).2.deferred
    ((planPass now w).2.admitted.foldl (admitOne h now) (planPass now w).1)
  generalize (planPass now w).2.admitted.foldl (admitOne h now) (planPass now w).1 = w₁
    at hoff hreasons hmem ⊢
  refine ⟨?_, seat_reasoned_iff.mpr (hreasons.mpr ?_)⟩
  · rw [← hoff] at hseat₁
    rw [hmem]
    exact hseat₁
  · refine hexplained.imp_left fun hr => ?_
    rw [← seat_reasoned_iff, hoff, seat_reasoned_iff]
    exact hr

/-! ### The answer -/

/-- The task runs, or waits with a reason. -/
def UpOrWaiting (id : String) (m : DaemonState) : Prop :=
  id ∈ m.runtimes ∨ (∃ t, m.tasks.lookup id = some t ∧ t.state = .queued) ∧
    id ∈ m.pendingAdmission ∧ id ∈ m.queuedReasons

/-- **An honest answer**: no error exactly if the task then runs, or waits with a reason. -/
def HonestStart (codec : CheckpointCodec) (h : Host) (id : String) (w : World) : Prop :=
  (handle codec h (.startTask id) w).2.isError = false
    ↔ UpOrWaiting id (handle codec h (.startTask id) w).1.mem

/-- The launch of the task, if the start attempts one, brings its provider up. -/
def OwnLaunchSucceeds (h : Host) (id : String) (w : World) : Prop :=
  ∀ l ∈ startLaunches h id w, l.id = id →
    launchSucceeds h l.id l.task (h.now w.calls) l.world = true

theorem upOrWaiting_of_waits {id : String} {m : DaemonState} (hw : (m.seat id).Waits)
    (hr : (m.seat id).reasoned = true) : UpOrWaiting id m := by
  refine .inr ⟨?_, seat_pending_iff.mp hw.2, seat_reasoned_iff.mp hr⟩
  exact Option.map_eq_some_iff.mp hw.1.1

/-- A start that runs no pass. -/
theorem honestStart_of_refused {id : String} {w : World} (hl : Ledger.Live w.ledger)
    (hs : ¬ (w.mem.seat id).Startable) : HonestStart codec h id w := by
  show (startTask h id w).2.isError = false ↔ UpOrWaiting id (startTask h id w).1.mem
  unfold startTask
  dsimp only
  by_cases hrun : id ∈ w.ask.mem.runtimes
  · rw [if_pos hrun]
    obtain ⟨t, ht, -⟩ := hl id hrun
    have hview : viewOf id w.ask = .task (view t) := by
      unfold viewOf
      rw [show w.ask.mem.tasks.lookup id = some t from ht]
    rw [hview]
    exact iff_of_true rfl (.inl hrun)
  · rw [if_neg hrun]
    cases ht : w.ask.mem.tasks.lookup id with
    | none =>
        refine iff_of_false (by simp [Response.isError]) ?_
        rintro (hin | ⟨⟨t, ht', -⟩, -⟩)
        · exact hrun hin
        · rw [ht] at ht'
          cases ht'
    | some t =>
        dsimp only
        have hstate : t.state ≠ .queued := by
          intro hq
          refine hs (startable_iff.mpr ⟨t, admissible_iff.mpr ⟨ht, hq, hrun⟩⟩)
        rw [if_pos hstate]
        refine iff_of_false (by simp [Response.isError]) ?_
        rintro (hin | ⟨⟨t', ht', hq⟩, -⟩)
        · exact hrun hin
        · obtain rfl := Option.some.inj (ht.symm.trans ht')
          exact hstate hq

/-- The answer to a start that runs a pass is the view of the task. -/
theorem isError_startTask {id : String} {w : World} (hs : (w.mem.seat id).Startable) :
    (startTask h id w).2.isError = false
      ↔ ((startTask h id w).1.mem.seat id).state.isSome = true := by
  obtain ⟨t, ht⟩ := startable_iff.mp hs
  obtain ⟨ht, hq, hrun⟩ := admissible_iff.mp ht
  have hrun' : ¬ id ∈ w.ask.mem.runtimes := hrun
  have ht' : w.ask.mem.tasks.lookup id = some t := ht
  unfold startTask
  dsimp only
  rw [if_neg hrun', ht']
  dsimp only
  rw [if_neg (not_not.mpr hq)]
  dsimp only
  split
  · next t' hfound => exact iff_of_true rfl (by rw [seat_lookup hfound]; rfl)
  · next hnone =>
    refine iff_of_false (by simp [Response.isError]) ?_
    rw [seat_unregistered (KeyMap.not_mem_iff_lookup.mpr hnone)]
    exact Bool.false_ne_true

/-- **The answer to a start is honest** exactly if the launch of its task succeeds, when it comes to
one. -/
theorem honestStart_iff_of_live {id : String} {w : World} (hl : Ledger.Live w.ledger) :
    HonestStart codec h id w ↔ OwnLaunchSucceeds h id w := by
  rcases startTask_cases (h := h) id w with ⟨-, hlaunches, hs⟩ | ⟨hs, hrun, hlaunches⟩
  · refine iff_of_true (honestStart_of_refused hl hs) fun l hin => ?_
    rw [hlaunches] at hin
    cases hin
  have hanswer := isError_startTask (h := h) hs
  show ((startTask h id w).2.isError = false ↔ UpOrWaiting id (startTask h id w).1.mem) ↔ _
  rw [hanswer, hrun]
  unfold OwnLaunchSucceeds
  rw [hlaunches]
  by_cases hex : ∃ l ∈ passLaunches h (h.now w.calls) (wantStart id w.ask), l.id = id
  · obtain ⟨l, hin, rfl⟩ := hex
    obtain ⟨hlive, hstate⟩ := seat_of_passLaunches hin
    have hsome : ((tryAdmitPending h (h.now w.calls) (wantStart l.id w.ask)).mem.seat
        l.id).state.isSome = true := by
      rw [hstate]
      split <;> rfl
    -- all launches of the task have the same outcome: its seat afterwards
    have hall : (∀ k ∈ passLaunches h (h.now w.calls) (wantStart l.id w.ask), k.id = l.id →
        launchSucceeds h k.id k.task (h.now w.calls) k.world = true)
          ↔ launchSucceeds h l.id l.task (h.now w.calls) l.world = true := by
      refine ⟨fun hk => hk l hin rfl, fun hok k hk hid => ?_⟩
      rw [← (seat_of_passLaunches hk).1, hid, hlive, hok]
    rw [hall, iff_true_left hsome]
    constructor
    · rintro (hup | ⟨⟨t, ht, hq⟩, -⟩)
      · rw [← hlive, seat_live_iff]
        exact hup
      · rw [seat_lookup ht, hq] at hstate
        split at hstate <;> cases hstate
    · intro hok
      rw [← hlive, seat_live_iff] at hok
      exact .inl hok
  · push Not at hex
    have hpend : id ∈ (wantStart id w.ask).mem.pendingAdmission := List.mem_cons_self
    have hstart : ((wantStart id w.ask).mem.seat id).Startable := by
      rw [seat_wantStart]
      exact hs
    obtain ⟨hwaits, hreason⟩ := seat_of_not_launched hstart hpend hex
    have hsome : ((tryAdmitPending h (h.now w.calls) (wantStart id w.ask)).mem.seat
        id).state.isSome = true := by
      rw [hwaits.1.1]
      rfl
    rw [iff_true_left hsome]
    exact iff_of_true (upOrWaiting_of_waits hwaits hreason) fun l hl hid => absurd hid (hex l hl)

/-- **In every reachable state, the answer to a start is honest** exactly if the launch of its task
succeeds, when it comes to one. -/
theorem honestStart_iff {w : World} (hw : Reachable codec w) (h : Host) (id : String) :
    HonestStart codec h id (w.begin h) ↔ OwnLaunchSucceeds h id (w.begin h) :=
  honestStart_iff_of_live hw.live

/-- A task was created on a host of 64 GiB. -/
def createdWorld : World :=
  runs serdeJson
    (boot steadyHost (.withDefaultReserves (64 * gib) (by decide)) "/memmux" (freshDisk ["/repo"]))
    [.op steadyHost (.request (.createTask fixLoginRequest))]

theorem createdWorld_reachable : Reachable serdeJson createdWorld :=
  ⟨steadyHost, _, "/memmux", freshDisk ["/repo"], _, rfl⟩

theorem honestStart_createdWorld :
    HonestStart serdeJson steadyHost fixLogin (createdWorld.begin steadyHost)
      ↔ OwnLaunchSucceeds steadyHost fixLogin (createdWorld.begin steadyHost) :=
  honestStart_iff createdWorld_reachable steadyHost fixLogin

/-- **A launch that fails is answered with the view of the task**, which has failed. -/
theorem failed_launch_is_no_error :
    ¬ HonestStart serdeJson noLaunchHost fixLogin (createdWorld.begin noLaunchHost) := by
  intro hhonest
  rcases hhonest.mp (by decide +kernel) with hup | ⟨-, hpend, -⟩
  · revert hup
    decide +kernel
  · revert hpend
    decide +kernel

end MemMux
