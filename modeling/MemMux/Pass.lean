/-
MemMux/Pass.lean

One admission pass, task by task.

A pass has three parts: the pending starts are sorted out into void, held and offered ones; the
plan admits offered ones, and each is launched; the others are deferred with a reason.  Each part
is a sequence of steps of the seats it touches (`tryAdmitPending_moved`), and the plan is
greedy: what it defers does not fit beside what it admits.  Carried over to the ledger the launches
leave, this says what is still pending after a pass whose launches all succeed (`pass_maximal`).
-/
import MemMux.SeatMoves

namespace MemMux

open Relation Seat

variable {codec : CheckpointCodec} {h : Host} {leaves : String → Prop}

/-! ### Sorting out the pending starts -/

theorem admissible_iff {id : String} {m : DaemonState} {t : Task} :
    admissible id m = some t ↔
      m.tasks.lookup id = some t ∧ t.state = .queued ∧ id ∉ m.runtimes := by
  unfold admissible
  cases m.tasks.lookup id with
  | none => simp
  | some u =>
      dsimp only
      split
      · next hn =>
        simp only [reduceCtorEq, Option.some.injEq, false_iff]
        rintro ⟨rfl, hq, hid⟩
        exact hn.elim (fun hne => hne hq) hid
      · next hn =>
        rw [not_or, not_not] at hn
        refine ⟨fun ht => ?_, fun ht => ht.1⟩
        obtain rfl := Option.some.inj ht
        exact ⟨rfl, hn⟩

/-- A task may be considered exactly when its seat may be started. -/
theorem startable_iff {id : String} {m : DaemonState} :
    (m.seat id).Startable ↔ ∃ t, admissible id m = some t := by
  simp only [admissible_iff, Startable, DaemonState.seat, Option.map_eq_some_iff,
    decide_eq_false_iff_not]
  constructor
  · rintro ⟨⟨t, ht, hq⟩, hid⟩
    exact ⟨t, ht, hq, hid⟩
  · rintro ⟨t, ht, hq, hid⟩
    exact ⟨⟨t, ht, hq⟩, hid⟩

/-- The candidate a pending task is offered as, unless it is void or held. -/
def offer (now : UInt64) (m : DaemonState) (id : String) : Option (Candidate Float) :=
  (admissible id m).bind fun t =>
    if held t m.pressureStage then none
    else some (candidateOf id t now m.envelope.agentBudgetBytes)

/-- What sorting out leaves alone. -/
structure Sorted (m m' : DaemonState) : Prop where
  envelope : m'.envelope = m.envelope
  tasks : m'.tasks = m.tasks
  runtimes : m'.runtimes = m.runtimes
  reservations : m'.reservations = m.reservations
  stage : m'.pressureStage = m.pressureStage

theorem Sorted.trans {m m' m'' : DaemonState} (h₁ : Sorted m m') (h₂ : Sorted m' m'') :
    Sorted m m'' where
  envelope := h₂.envelope.trans h₁.envelope
  tasks := h₂.tasks.trans h₁.tasks
  runtimes := h₂.runtimes.trans h₁.runtimes
  reservations := h₂.reservations.trans h₁.reservations
  stage := h₂.stage.trans h₁.stage

theorem Sorted.admissible_eq {m m' : DaemonState} (hs : Sorted m m') (id : String) :
    admissible id m' = admissible id m := by
  simp only [admissible, hs.tasks, hs.runtimes]

theorem Sorted.offer_eq {m m' : DaemonState} (hs : Sorted m m') (now : UInt64) :
    offer now m' = offer now m := by
  funext id
  simp only [offer, hs.admissible_eq, hs.stage, hs.envelope]

/-- A void start is dropped. -/
def dropStart (id : String) (m : DaemonState) : DaemonState :=
  { m with
      pendingAdmission := m.pendingAdmission.filter (· ≠ id)
      queuedReasons := m.queuedReasons.erase id }

/-- A held start is given its reason. -/
def holdStart (id : String) (m : DaemonState) : DaemonState :=
  { m with
      queuedReasons := m.queuedReasons.insert id
        ("held: under " ++ m.pressureStage.debug ++ " memory pressure") }

theorem sorted_dropStart (id : String) (m : DaemonState) : Sorted m (dropStart id m) :=
  ⟨rfl, rfl, rfl, rfl, rfl⟩

theorem sorted_holdStart (id : String) (m : DaemonState) : Sorted m (holdStart id m) :=
  ⟨rfl, rfl, rfl, rfl, rfl⟩

/-- **The loop over the pending starts**: it offers those that are neither void nor held, drops the
void ones and gives the held ones their reason. -/
theorem collectCandidates_sorted (now : UInt64) (pending : List String) (m : DaemonState) :
    Sorted m (collectCandidates now pending m).1 ∧
      (collectCandidates now pending m).2 = pending.filterMap (offer now m) := by
  induction pending generalizing m with
  | nil => exact ⟨⟨rfl, rfl, rfl, rfl, rfl⟩, rfl⟩
  | cons id pending ih =>
      unfold collectCandidates
      cases ha : admissible id m with
      -- not admissible any more
      | none =>
          obtain ⟨hs, hcs⟩ := ih (dropStart id m)
          have hnone : offer now m id = none := by rw [offer, ha]; rfl
          refine ⟨(sorted_dropStart id m).trans hs, ?_⟩
          rw [List.filterMap_cons_none hnone, ← (sorted_dropStart id m).offer_eq now]
          exact hcs
      | some t =>
          dsimp only
          split
          · -- held back by the pressure stage
            next hheld =>
            obtain ⟨hs, hcs⟩ := ih (holdStart id m)
            have hnone : offer now m id = none := by
              rw [offer, ha, Option.bind_some, if_pos hheld]
            refine ⟨(sorted_holdStart id m).trans hs, ?_⟩
            rw [List.filterMap_cons_none hnone, ← (sorted_holdStart id m).offer_eq now]
            exact hcs
          · next hheld =>
            obtain ⟨hs, hcs⟩ := ih m
            have hsome : offer now m id
                = some (candidateOf id t now m.envelope.agentBudgetBytes) := by
              rw [offer, ha, Option.bind_some, if_neg hheld]
            refine ⟨hs, ?_⟩
            rw [List.filterMap_cons_some hsome, ← hcs, hs.envelope]

theorem steps_dropStart {id : String} {m : DaemonState} (hn : admissible id m = none) (j : String) :
    Steps False (m.seat j) ((dropStart id m).seat j) := by
  have hoff : SeatOff id m (dropStart id m) :=
    seatOff_of (.refl _ _) (.refl _ _) (.refl _ _) (fun j hj => by simp [dropStart, hj])
      (KeyMap.off_erase _ _)
  by_cases hj : j = id
  · subst hj
    have hseat : (dropStart j m).seat j = { m.seat j with pending := false, reasoned := false } := by
      simp [DaemonState.seat, dropStart]
    rw [hseat]
    refine (Step.drop fun hs => ?_).steps
    obtain ⟨t, ht⟩ := startable_iff.mp hs
    cases hn.symm.trans ht
  · exact steps_of_eq (hoff j hj)

theorem steps_holdStart {id : String} {m : DaemonState} (hp : id ∈ m.pendingAdmission)
    (j : String) : Steps False (m.seat j) ((holdStart id m).seat j) := by
  have hoff : SeatOff id m (holdStart id m) :=
    seatOff_of (.refl _ _) (.refl _ _) (.refl _ _) (fun _ _ => .rfl) (KeyMap.off_insert _ _ _)
  by_cases hj : j = id
  · subst hj
    have hseat : (holdStart j m).seat j = { m.seat j with reasoned := true } := by
      simp [DaemonState.seat, holdStart]
      exact ⟨rfl, rfl, rfl⟩
    rw [hseat]
    exact (Step.explain (seat_pending_iff.mpr hp)).steps
  · exact steps_of_eq (hoff j hj)

/-- Sorting out launches nothing and ends nothing. -/
theorem steps_collectCandidates (now : UInt64) {pending : List String} {m : DaemonState}
    (hnodup : pending.Nodup) (hp : ∀ j ∈ pending, j ∈ m.pendingAdmission) (j : String) :
    Steps False (m.seat j) ((collectCandidates now pending m).1.seat j) := by
  induction pending generalizing m with
  | nil => exact .refl
  | cons id pending ih =>
      obtain ⟨hnot, hnodup⟩ := List.nodup_cons.mp hnodup
      have hrest : ∀ j ∈ pending, j ∈ m.pendingAdmission :=
        fun j hj => hp j (List.mem_cons_of_mem _ hj)
      unfold collectCandidates
      cases ha : admissible id m with
      | none =>
          refine (steps_dropStart ha j).trans (ih (m := dropStart id m) hnodup fun k hk => ?_)
          have hne : k ≠ id := fun e => hnot (e ▸ hk)
          exact List.mem_filter.mpr ⟨hrest k hk, by simpa using hne⟩
      | some t =>
          dsimp only
          split
          · exact (steps_holdStart (hp id List.mem_cons_self) j).trans
              (ih (m := holdStart id m) hnodup hrest)
          · exact ih hnodup hrest

/-- Of the starts it looked at, only those that are not void are pending afterwards. -/
theorem pending_collectCandidates (now : UInt64) {pending : List String} {m : DaemonState}
    {j : String} (hj : j ∈ (collectCandidates now pending m).1.pendingAdmission) :
    j ∈ m.pendingAdmission ∧ (j ∈ pending → ∃ t, admissible j m = some t) := by
  induction pending generalizing m with
  | nil => exact ⟨hj, by simp⟩
  | cons id pending ih =>
      unfold collectCandidates at hj
      cases ha : admissible id m with
      | none =>
          rw [ha] at hj
          obtain ⟨hin, hrest⟩ := ih (m := dropStart id m) hj
          obtain ⟨hin, hne⟩ := List.mem_filter.mp hin
          refine ⟨hin, fun hmem => ?_⟩
          rcases List.mem_cons.mp hmem with rfl | hmem
          · simp at hne
          · exact hrest hmem
      | some t =>
          rw [ha] at hj
          dsimp only at hj
          -- a start that is held or offered is not void
          have key : ∀ {m' : DaemonState}, m'.pendingAdmission = m.pendingAdmission →
              (j ∈ m'.pendingAdmission ∧ (j ∈ pending → ∃ t, admissible j m = some t)) →
              j ∈ m.pendingAdmission ∧ (j ∈ id :: pending → ∃ t, admissible j m = some t) := by
            intro m' hm' hj'
            refine ⟨hm' ▸ hj'.1, fun hmem => ?_⟩
            rcases List.mem_cons.mp hmem with rfl | hmem
            · exact ⟨t, ha⟩
            · exact hj'.2 hmem
          split at hj
          · exact key rfl (ih (m := holdStart id m) hj)
          · exact key rfl (ih hj)

/-! ### The admitted starts -/

/-- A launch reads the pressure stage and the pending starts, and leaves them. -/
theorem launchQueued_kept (id : String) (snapshot : Task) (now : UInt64) (w : World) :
    (launchQueued h id snapshot now w).1.mem.pressureStage = w.mem.pressureStage ∧
      (launchQueued h id snapshot now w).1.mem.pendingAdmission = w.mem.pendingAdmission := by
  obtain ⟨wt, hwt⟩ := ensureWorktree_mem h w id snapshot
  obtain ⟨w₁, cwd, he, hcases⟩ := launchQueued_cases h w id snapshot now
  rw [he] at hwt
  rcases hcases with ⟨pid, -, hw⟩ | ⟨-, hw⟩ <;> rw [hw]
  · exact ⟨congrArg (·.pressureStage) hwt, congrArg (·.pendingAdmission) hwt⟩
  · exact ⟨congrArg (·.pressureStage) hwt, congrArg (·.pendingAdmission) hwt⟩

/-- **What admitting a startable task does**: its launch is attempted, it is no longer pending, and
nothing else changes. -/
structure Started (h : Host) (now : UInt64) (l : Launch) (w w' : World) : Prop where
  seat : w'.mem.seat l.id =
    if launchSucceeds h l.id l.task now l.world then ⟨some .active, true, true, false, false⟩
    else { w.mem.seat l.id with state := some .failed, pending := false, reasoned := false }
  off : SeatOff l.id w.mem w'.mem
  tasks : KeyMap.Off l.id w.mem.tasks w'.mem.tasks
  envelope : w'.mem.envelope = w.mem.envelope
  stage : w'.mem.pressureStage = w.mem.pressureStage
  pending : w'.mem.pendingAdmission = w.mem.pendingAdmission.filter (· ≠ l.id)
  total : launchSucceeds h l.id l.task now l.world → (w.mem.seat l.id).reserved = false →
    w'.ledger.total = (classReservation l.task.spec.resourceClass).peakBytes + w.ledger.total

/-- The launch of an admitted task, and what it starts from. -/
structure Launch.From (h : Host) (w : World) (id : String) (l : Launch) : Prop where
  launch : admitLaunch h id w = some l
  task : w.mem.tasks.lookup id = some l.task
  mem : l.world.mem = w.mem
  same : l.id = id

theorem admitOne_started {id : String} {w : World} (now : UInt64)
    (hs : (w.mem.seat id).Startable) :
    ∃ l, Launch.From h w id l ∧ Started h now l w (admitOne h now w id) := by
  obtain ⟨t, ht⟩ := startable_iff.mp hs
  obtain ⟨ht, hq, hidle⟩ := admissible_iff.mp ht
  let w₀ := audit h (some id) "admitted" "scored in and fits the budget" none w
  refine ⟨⟨id, t, w₀, true⟩, ⟨?_, ht, rfl, rfl⟩, ?_⟩
  · unfold admitLaunch
    rw [ht]
    rfl
  have hone : (admitOne h now w id).mem = dropStart id (launchQueued h id t now w₀).1.mem := by
    unfold admitOne
    rw [ht]
    rfl
  have hatt := launchQueued_attempt (h := h) (w := w₀) t now ht hq
  have hseat := seat_launchQueued (h := h) (w := w₀) t now hs.1
  have hoff := seatOff_launchQueued (h := h) id t now w₀
  obtain ⟨hstage, hpend⟩ := launchQueued_kept (h := h) id t now w₀
  have hup := launchQueued_up (h := h) (w := w₀) t now hidle
  -- from here on only what the launch does to the seat matters
  generalize (launchQueued h id t now w₀).1 = w₁ at hone hatt hseat hoff hstage hpend hup
  have hdrop : SeatOff id w₁.mem (dropStart id w₁.mem) :=
    seatOff_of (.refl _ _) (.refl _ _) (.refl _ _) (fun j hj => by simp [dropStart, hj])
      (KeyMap.off_erase _ _)
  have hdropped : (dropStart id w₁.mem).seat id
      = { w₁.mem.seat id with pending := false, reasoned := false } := by
    simp [DaemonState.seat, dropStart]
  have henv := hatt.1
  have htasks := hatt.2.1
  refine ⟨?_, ?_, ?_, ?_, ?_, ?_, ?_⟩
  · rw [hone]
    dsimp only
    rw [hdropped, hseat]
    split <;> rfl
  · rw [hone]
    exact hoff.trans hdrop
  · rw [hone]
    exact htasks
  · rw [hone]
    exact henv
  · rw [hone]
    exact hstage
  · rw [hone]
    exact congrArg (List.filter _) hpend
  · -- nothing was reserved for the task before: the ledger grows by its peak
    intro hok hfree
    have hfree₀ : id ∉ w₀.ledger.reservations := of_decide_eq_false hfree
    have htot := hatt.total_eq hidle (hup.mpr hok)
    rw [Ledger.totalWith, KeyMap.erase_of_not_mem hfree₀] at htot
    show KeyMap.sumBy _ (admitOne h now w id).mem.reservations = _
    rw [hone]
    exact htot

/-- A launch that follows from admitting `id` is a step of its seat. -/
theorem Started.moved {now : UInt64} {l : Launch} {w w' : World} (hw : Started h now l w w')
    (hs : (w.mem.seat l.id).Startable) (hl : leaves l.id) : Moved leaves w w' := by
  refine .one hw.off ?_
  have hlaunch : Steps (leaves l.id) (w.mem.seat l.id)
      { w.mem.seat l.id with
        state := some .active, live := true, reserved := true, reasoned := false } :=
    (Step.launch hl).steps
  have hfail : Steps (leaves l.id) (w.mem.seat l.id)
      { w.mem.seat l.id with state := some .failed } := (Step.fail hl hs.2).steps
  rw [hw.seat]
  split
  · exact hlaunch.tail (.drop fun hs => nomatch hs.1)
  · exact hfail.tail (.drop fun hs => nomatch hs.1)

/-! ### All admitted starts -/

/-- Admitting one task leaves the others startable. -/
theorem Started.startable {now : UInt64} {l : Launch} {w w' : World} (hw : Started h now l w w')
    {ids : List String} (hnot : l.id ∉ ids) (hs : ∀ j ∈ ids, (w.mem.seat j).Startable) :
    ∀ j ∈ ids, (w'.mem.seat j).Startable := by
  intro j hj
  rw [hw.off j fun e => hnot (e ▸ hj)]
  exact hs j hj

/-- **What admitting a list of startable tasks does.** -/
structure AllStarted (h : Host) (now : UInt64) (ids : List String) (w w' : World) : Prop where
  moved : ∀ leaves : String → Prop, (∀ l ∈ admitLaunches h now ids w, leaves l.id) →
    Moved leaves w w'
  off : ∀ j, j ∉ ids → w'.mem.seat j = w.mem.seat j
  tasks : ∀ j, j ∉ ids → w'.mem.tasks.lookup j = w.mem.tasks.lookup j
  envelope : w'.mem.envelope = w.mem.envelope
  stage : w'.mem.pressureStage = w.mem.pressureStage
  pending : ∀ j, j ∈ w'.mem.pendingAdmission → j ∈ w.mem.pendingAdmission ∧ j ∉ ids
  launches : ∀ l ∈ admitLaunches h now ids w, l.id ∈ ids ∧
    l.world.mem.tasks.lookup l.id = w.mem.tasks.lookup l.id ∧
    l.world.mem.pressureStage = w.mem.pressureStage

theorem admitAll_started (now : UInt64) {ids : List String} {w : World} (hnodup : ids.Nodup)
    (hs : ∀ j ∈ ids, (w.mem.seat j).Startable) :
    AllStarted h now ids w (ids.foldl (admitOne h now) w) := by
  induction ids generalizing w with
  | nil =>
      refine ⟨fun _ _ => ?_, fun _ _ => rfl, fun _ _ => rfl, rfl, rfl,
        fun j hj => ⟨hj, List.not_mem_nil⟩, fun l hl => ?_⟩
      · exact Moved.refl w
      · simp [admitLaunches] at hl
  | cons id ids ih =>
      obtain ⟨hnot, hdistinct⟩ := List.nodup_cons.mp hnodup
      obtain ⟨l, ⟨hl, ht, hmem, rfl⟩, hone⟩ :=
        admitOne_started (h := h) now (hs id List.mem_cons_self)
      -- the other seats are as they were, so that the rest can start from here
      have hrest := ih hdistinct (hone.startable hnot fun j hj => hs j (List.mem_cons_of_mem _ hj))
      have hlaunches : admitLaunches h now (l.id :: ids) w
          = l :: admitLaunches h now ids (admitOne h now w l.id) := by
        rw [admitLaunches, hl]
        rfl
      rw [List.foldl_cons]
      generalize admitOne h now w l.id = w₁ at hone hrest hlaunches ⊢
      generalize ids.foldl (admitOne h now) w₁ = w' at hrest ⊢
      -- each part of the pass: what the first launch does, then what the others do
      constructor
      · intro leaves hleaves
        rw [hlaunches] at hleaves
        obtain ⟨hfirst, htail⟩ := List.forall_mem_cons.mp hleaves
        exact (hone.moved (hs _ List.mem_cons_self) hfirst).trans (hrest.moved leaves htail)
      · intro j hj
        obtain ⟨hne, hin⟩ := not_or.mp (mt List.mem_cons.mpr hj)
        rw [hrest.off j hin, hone.off j hne]
      · intro j hj
        obtain ⟨hne, hin⟩ := not_or.mp (mt List.mem_cons.mpr hj)
        rw [hrest.tasks j hin, hone.tasks j hne]
      · exact hrest.envelope.trans hone.envelope
      · exact hrest.stage.trans hone.stage
      · intro j hj
        obtain ⟨hj, hin⟩ := hrest.pending j hj
        rw [hone.pending] at hj
        obtain ⟨hj, hne⟩ := List.mem_filter.mp hj
        refine ⟨hj, fun hmem => ?_⟩
        exact (List.mem_cons.mp hmem).elim (by simpa using hne) hin
      · rw [hlaunches]
        refine List.forall_mem_cons.mpr ⟨⟨List.mem_cons_self, ?_, ?_⟩, fun k hk => ?_⟩
        · rw [hmem]
        · rw [hmem]
        · obtain ⟨hin, htasks, hstage⟩ := hrest.launches k hk
          have hne : k.id ≠ l.id := fun e => hnot (e ▸ hin)
          exact ⟨List.mem_cons_of_mem _ hin, htasks.trans (hone.tasks _ hne),
            hstage.trans hone.stage⟩

/-- **When every launch succeeds, the ledger grows by the peaks of all admitted tasks.** -/
theorem total_admitAll (now : UInt64) (peak : String → Nat) {ids : List String} {w : World}
    (hnodup : ids.Nodup) (hs : ∀ j ∈ ids, (w.mem.seat j).Startable)
    (hfree : ∀ j ∈ ids, (w.mem.seat j).reserved = false)
    (hpeak : ∀ j ∈ ids, ∀ t, w.mem.tasks.lookup j = some t →
      peak j = (classReservation t.spec.resourceClass).peakBytes)
    (hok : ∀ l ∈ admitLaunches h now ids w, launchSucceeds h l.id l.task now l.world) :
    (ids.foldl (admitOne h now) w).ledger.total = (ids.map peak).sum + w.ledger.total := by
  induction ids generalizing w with
  | nil => exact (Nat.zero_add _).symm
  | cons id ids ih =>
      obtain ⟨hnot, hdistinct⟩ := List.nodup_cons.mp hnodup
      obtain ⟨l, ⟨hl, ht, hmem, rfl⟩, hone⟩ :=
        admitOne_started (h := h) now (hs id List.mem_cons_self)
      rw [admitLaunches, hl] at hok
      obtain ⟨hfirst, htail⟩ := List.forall_mem_cons.mp hok
      have htot := hone.total hfirst (hfree _ List.mem_cons_self)
      rw [← hpeak _ List.mem_cons_self _ ht] at htot
      have hne : ∀ j ∈ ids, j ≠ l.id := fun j hj e => hnot (e ▸ hj)
      have hin : ∀ j ∈ ids, j ∈ l.id :: ids := fun j hj => List.mem_cons_of_mem _ hj
      have hstart := hone.startable hnot fun j hj => hs j (hin j hj)
      have hrest := ih hdistinct hstart (fun j hj => ?_) (fun j hj t ht => ?_) htail
      · rw [List.foldl_cons, List.map_cons, List.sum_cons, hrest, htot]
        omega
      · rw [hone.off j (hne j hj)]
        exact hfree j (hin j hj)
      · rw [hone.tasks j (hne j hj)] at ht
        exact hpeak j (hin j hj) t ht

/-! ### The deferred starts -/

theorem deferOne_mem (w : World) (d : String × String) :
    (deferOne h w d).mem
      = { w.mem with queuedReasons := w.mem.queuedReasons.insert d.1 d.2 } := rfl

theorem deferOne_moved {w : World} {d : String × String} (hp : d.1 ∈ w.mem.pendingAdmission) :
    Moved leaves w (deferOne h w d) := by
  have hoff : SeatOff d.1 w.mem (deferOne h w d).mem := by
    rw [deferOne_mem]
    exact seatOff_of (.refl _ _) (.refl _ _) (.refl _ _) (fun _ _ => .rfl) (KeyMap.off_insert _ _ _)
  refine .one hoff ?_
  have hseat : (deferOne h w d).mem.seat d.1 = { w.mem.seat d.1 with reasoned := true } := by
    rw [deferOne_mem]
    simp [DaemonState.seat]
  rw [hseat]
  exact (Step.explain (seat_pending_iff.mpr hp)).steps

/-- Deferring only records reasons. -/
theorem deferAll_mem (ds : List (String × String)) (w : World) :
    ∃ reasons, (ds.foldl (deferOne h) w).mem = { w.mem with queuedReasons := reasons } := by
  induction ds generalizing w with
  | nil => exact ⟨_, rfl⟩
  | cons d ds ih =>
      obtain ⟨reasons, hmem⟩ := ih (deferOne h w d)
      exact ⟨reasons, hmem⟩

theorem deferAll_moved {ds : List (String × String)} {w : World}
    (hp : ∀ d ∈ ds, d.1 ∈ w.mem.pendingAdmission) :
    Moved leaves w (ds.foldl (deferOne h) w) := by
  induction ds generalizing w with
  | nil => exact .refl w
  | cons d ds ih =>
      obtain ⟨hd, hds⟩ := List.forall_mem_cons.mp hp
      exact (deferOne_moved hd).trans (ih (w := deferOne h w d) hds)

/-! ### The whole pass -/

theorem offer_some {now : UInt64} {m : DaemonState} {id : String} {c : Candidate Float} :
    offer now m id = some c ↔ ∃ t, admissible id m = some t ∧ held t m.pressureStage = false ∧
      c = candidateOf id t now m.envelope.agentBudgetBytes := by
  unfold offer
  rw [Option.bind_eq_some_iff]
  constructor
  · rintro ⟨t, ht, hc⟩
    split at hc
    · cases hc
    · next hheld => exact ⟨t, ht, Bool.eq_false_iff.mpr hheld, (Option.some.inj hc).symm⟩
  · rintro ⟨t, ht, hheld, rfl⟩
    refine ⟨t, ht, ?_⟩
    rw [if_neg (by simp [hheld])]

/-- The pending starts in the order a pass looks at them. -/
def pendingOrder (m : DaemonState) : List String := m.pendingAdmission.dedup.insertionSort (· ≤ ·)

theorem mem_pendingOrder {m : DaemonState} {id : String} :
    id ∈ pendingOrder m ↔ id ∈ m.pendingAdmission := by
  rw [pendingOrder, List.mem_insertionSort, List.mem_dedup]

theorem nodup_pendingOrder (m : DaemonState) : (pendingOrder m).Nodup :=
  (List.perm_insertionSort _ _).nodup_iff.mpr (List.nodup_dedup _)

theorem tryAdmitPending_eq (now : UInt64) (w : World) :
    tryAdmitPending h now w = (planPass now w).2.deferred.foldl (deferOne h)
      ((planPass now w).2.admitted.foldl (admitOne h now) (planPass now w).1) := rfl

/-- **What a pass decides**, of the tasks of `w`, in the world `w₁` after the sorting. -/
structure Planned (now : UInt64) (w w₁ : World) (plan : AdmissionPlan) : Prop where
  sorted : Sorted w.mem w₁.mem
  steps : ∀ j, Steps False (w.mem.seat j) (w₁.mem.seat j)
  pending : ∀ j, j ∈ w₁.mem.pendingAdmission →
    j ∈ w.mem.pendingAdmission ∧ ∃ t, admissible j w.mem = some t
  nodup : plan.admitted.Nodup
  /-- only startable tasks that are not held are admitted -/
  admitted : ∀ j ∈ plan.admitted, j ∈ w.mem.pendingAdmission ∧
    ∃ t, admissible j w.mem = some t ∧ held t w.mem.pressureStage = false
  deferred : ∀ d ∈ plan.deferred, d.1 ∈ w.mem.pendingAdmission ∧
    (∃ t, admissible d.1 w.mem = some t) ∧ d.1 ∉ plan.admitted
  fits : ∀ peak : String → Nat,
    (∀ j t, w.mem.tasks.lookup j = some t →
      peak j = (classReservation t.spec.resourceClass).peakBytes) →
    (plan.admitted.map peak).sum ≤ w.mem.envelope.availableBytes (reservedBytes w.mem)
  /-- what is neither held nor admitted does not fit beside what is -/
  greedy : ∀ peak : String → Nat,
    (∀ j t, w.mem.tasks.lookup j = some t →
      peak j = (classReservation t.spec.resourceClass).peakBytes) →
    ∀ j ∈ w.mem.pendingAdmission, ∀ t, admissible j w.mem = some t →
      held t w.mem.pressureStage = false → j ∉ plan.admitted →
      w.mem.envelope.availableBytes (reservedBytes w.mem) < (plan.admitted.map peak).sum + peak j

theorem planPass_planned (now : UInt64) (w : World) :
    Planned now w (planPass now w).1 (planPass now w).2 := by
  have hsteps := steps_collectCandidates now (nodup_pendingOrder w.mem)
    fun j hj => mem_pendingOrder.mp hj
  have hpending := fun j => @pending_collectCandidates now (pendingOrder w.mem) w.mem j
  obtain ⟨hsorted, hcs⟩ := collectCandidates_sorted now (pendingOrder w.mem) w.mem
  rcases hc : collectCandidates now (pendingOrder w.mem) w.mem with ⟨m, cs⟩
  rw [hc] at hsteps hpending hsorted hcs
  dsimp only at hsteps hpending hsorted hcs
  obtain ⟨-, -, -, -, hsub, -⟩ := collectCandidates_spec now _ _ hc
  have hnodup : (cs.map (·.taskId)).Nodup := (nodup_pendingOrder w.mem).sublist hsub
  have hplan : planPass now w = ({ w with mem := m },
      planAdmission cs (m.envelope.availableBytes (reservedBytes m))) := by
    show (_, _) = _
    rw [show collectCandidates now (w.mem.pendingAdmission.dedup.insertionSort (· ≤ ·)) w.mem
      = (m, cs) from hc]
  -- the candidates are the offered starts
  have hcand : ∀ c, c ∈ cs ↔ c.taskId ∈ w.mem.pendingAdmission ∧
      ∃ t, admissible c.taskId w.mem = some t ∧ held t w.mem.pressureStage = false ∧
        c = candidateOf c.taskId t now w.mem.envelope.agentBudgetBytes := by
    intro c
    rw [hcs, List.mem_filterMap]
    constructor
    · rintro ⟨id, hid, hoff⟩
      obtain ⟨t, ht, hheld, rfl⟩ := offer_some.mp hoff
      exact ⟨mem_pendingOrder.mp hid, t, ht, hheld, rfl⟩
    · rintro ⟨hid, t, ht, hheld, hceq⟩
      exact ⟨c.taskId, mem_pendingOrder.mpr hid, offer_some.mpr ⟨t, ht, hheld, hceq⟩⟩
  have hcpeak : ∀ peak : String → Nat,
      (∀ j t, w.mem.tasks.lookup j = some t →
        peak j = (classReservation t.spec.resourceClass).peakBytes) →
      ∀ c ∈ cs, c.predictedPeakBytes = peak c.taskId := by
    intro peak hpeak c hc
    obtain ⟨-, t, ht, -, hceq⟩ := (hcand c).mp hc
    rw [hpeak _ t (admissible_iff.mp ht).1, hceq]
    rfl
  have havail : m.envelope.availableBytes (reservedBytes m)
      = w.mem.envelope.availableBytes (reservedBytes w.mem) := by
    unfold reservedBytes
    rw [hsorted.envelope, hsorted.reservations]
  rw [hplan, havail]
  refine ⟨hsorted, hsteps, fun j hj => ?_, nodup_admitted hnodup _, fun j hj => ?_,
    fun d hd => ?_, fun peak hpeak => ?_, fun peak hpeak j hj t ht hheld hn => ?_⟩
  · obtain ⟨hin, hadm⟩ := hpending j hj
    exact ⟨hin, hadm (mem_pendingOrder.mpr hin)⟩
  · obtain ⟨c, hc, rfl⟩ := exists_of_mem_admitted hj
    obtain ⟨hin, t, ht, hheld, -⟩ := (hcand c).mp hc
    exact ⟨hin, t, ht, hheld⟩
  · obtain ⟨hin, hn⟩ := mem_deferred hnodup hd
    obtain ⟨c, hc, hceq⟩ := List.mem_map.mp hin
    rw [← hceq] at hn ⊢
    obtain ⟨hin, t, ht, -⟩ := (hcand c).mp hc
    exact ⟨hin, ⟨t, ht⟩, hn⟩
  · exact planAdmission_fits peak (hcpeak peak hpeak) _
  · have hmem : candidateOf j t now w.mem.envelope.agentBudgetBytes ∈ cs :=
      (hcand _).mpr ⟨hj, t, ht, hheld, rfl⟩
    exact planAdmission_rejects peak (hcpeak peak hpeak) _ hmem hn

/-- What is admitted may be started. -/
theorem Planned.startable {now : UInt64} {w w₁ : World} {plan : AdmissionPlan}
    (hplan : Planned now w w₁ plan) : ∀ j ∈ plan.admitted, (w₁.mem.seat j).Startable := by
  intro j hj
  obtain ⟨-, t, ht, -⟩ := hplan.admitted j hj
  exact startable_iff.mpr ⟨t, (hplan.sorted.admissible_eq j).trans ht⟩

theorem passLaunches_eq (now : UInt64) (w : World) :
    passLaunches h now w = admitLaunches h now (planPass now w).2.admitted (planPass now w).1 := rfl

/-- **A pass is a sequence of steps**, and takes away only the starts it launches. -/
theorem tryAdmitPending_moved {now : UInt64} {w : World} (hw : Seated w)
    (hleaves : ∀ l ∈ passLaunches h now w, leaves l.id) :
    Moved leaves w (tryAdmitPending h now w) := by
  have hplan := planPass_planned now w
  rw [tryAdmitPending_eq]
  rw [passLaunches_eq] at hleaves
  generalize (planPass now w).1 = w₁ at hplan hleaves ⊢
  generalize (planPass now w).2 = plan at hplan hleaves ⊢
  -- an offered start is still waiting after the sorting
  have hwaits : ∀ j, j ∈ w.mem.pendingAdmission → (∃ t, admissible j w.mem = some t) →
      (w₁.mem.seat j).Waits := by
    intro j hj hadm
    exact (hplan.steps j).waits (hw j) ⟨startable_iff.mpr hadm, seat_pending_iff.mpr hj⟩
  have hall := admitAll_started (h := h) now hplan.nodup hplan.startable
  have hsorted : Moved leaves w w₁ := fun j => (hplan.steps j).mono False.elim
  refine (hsorted.trans (hall.moved leaves hleaves)).trans (deferAll_moved fun d hd => ?_)
  obtain ⟨hin, hadm, hn⟩ := hplan.deferred d hd
  have hseat := hall.off d.1 hn
  have hpend : (w₁.mem.seat d.1).pending = true := (hwaits d.1 hin hadm).2
  rw [← hseat] at hpend
  exact seat_pending_iff.mp hpend

/-- **What a pass launches is not held.** -/
theorem passLaunches_spec {now : UInt64} {w : World} {l : Launch}
    (hl : l ∈ passLaunches h now w) :
    ∃ t, l.world.mem.tasks.lookup l.id = some t ∧
      held t l.world.mem.pressureStage = false := by
  have hplan := planPass_planned now w
  rw [passLaunches_eq] at hl
  obtain ⟨hin, htasks, hstage⟩ :=
    (admitAll_started (h := h) now hplan.nodup hplan.startable).launches l hl
  obtain ⟨-, t, ht, hheld⟩ := hplan.admitted l.id hin
  refine ⟨t, ?_, ?_⟩
  · rw [htasks, hplan.sorted.tasks]
    exact (admissible_iff.mp ht).1
  · rw [hstage, hplan.sorted.stage]
    exact hheld

/-! ### What is still pending -/

/-- The headroom the daemon computes over its ledger. -/
def headroom (w : World) : Int := w.mem.envelope.headroomBytes (reservedBytes w.mem)

/-- **After a pass whose launches all succeed**, every start that is still pending is held, or its
task does not fit in what the ledger leaves. -/
theorem pass_maximal {now : UInt64} {w : World} (hw : Seated w)
    (hok : ∀ l ∈ passLaunches h now w, launchSucceeds h l.id l.task now l.world) :
    ∀ id ∈ (tryAdmitPending h now w).mem.pendingAdmission,
      ∃ t, (tryAdmitPending h now w).mem.tasks.lookup id = some t ∧ t.state = .queued ∧
        (held t (tryAdmitPending h now w).mem.pressureStage = true ∨
          headroom (tryAdmitPending h now w)
            < (classReservation t.spec.resourceClass).peakBytes) := by
  have hplan := planPass_planned now w
  rw [tryAdmitPending_eq]
  rw [passLaunches_eq] at hok
  generalize (planPass now w).1 = w₁ at hplan hok ⊢
  generalize (planPass now w).2 = plan at hplan hok ⊢
  have hall := admitAll_started (h := h) now hplan.nodup hplan.startable
  let peak (id : String) : Nat :=
    ((w.mem.tasks.lookup id).map fun t => (classReservation t.spec.resourceClass).peakBytes).getD 0
  have hpeak : ∀ j t, w.mem.tasks.lookup j = some t →
      peak j = (classReservation t.spec.resourceClass).peakBytes := by
    intro j t ht
    simp only [peak, ht, Option.map_some, Option.getD_some]
  -- a queued task holds no reservation, so every launch adds the peak of its task
  have hfree : ∀ j ∈ plan.admitted, (w₁.mem.seat j).reserved = false :=
    fun j hj => ((hplan.steps j).inv (hw j)).queued (hplan.startable j hj).1
  have htotal := total_admitAll (h := h) now peak hplan.nodup hplan.startable hfree
    (fun j _ t ht => hpeak j t (hplan.sorted.tasks ▸ ht)) hok
  generalize plan.admitted.foldl (admitOne h now) w₁ = w₂ at hall htotal ⊢
  obtain ⟨reasons, hmem⟩ := deferAll_mem (h := h) plan.deferred w₂
  rw [hmem]
  intro id hid
  obtain ⟨hid₁, hn⟩ := hall.pending id hid
  obtain ⟨hid₀, t, hadm⟩ := hplan.pending id hid₁
  obtain ⟨ht, hq, -⟩ := admissible_iff.mp hadm
  refine ⟨t, ?_, hq, ?_⟩
  · rw [← hplan.sorted.tasks] at ht
    exact (hall.tasks id hn).trans ht
  · have hstage : w₂.mem.pressureStage = w.mem.pressureStage := hall.stage.trans hplan.sorted.stage
    dsimp only
    rw [hstage]
    by_cases hheld : held t w.mem.pressureStage = true
    · exact Or.inl hheld
    · right
      have hfits := hplan.fits peak hpeak
      have hlt := hplan.greedy peak hpeak id hid₀ t hadm (Bool.eq_false_iff.mpr hheld) hn
      rw [hpeak id t ht] at hlt
      have hL : w₁.ledger.total = w.ledger.total := by
        unfold Ledger.total
        exact congrArg _ hplan.sorted.reservations
      have henv : w₂.mem.envelope = w.mem.envelope := hall.envelope.trans hplan.sorted.envelope
      have hhead : headroom (plan.deferred.foldl (deferOne h) w₂)
          = w.mem.envelope.headroomBytes
              (((plan.admitted.map peak).sum + w.ledger.total) % u64Size) := by
        unfold headroom
        rw [hmem]
        show w₂.mem.envelope.headroomBytes (w₂.ledger.total % u64Size) = _
        rw [henv, htotal, hL]
      rw [hhead]
      exact w.mem.envelope.headroomBytes_lt hfits hlt

end MemMux
