/-
MemMux/RecordMoves.lean

The handlers as chains of small steps on records.

Most of what a handler does concerns no record (`Idle`).  The rest is a move (`Busy`: transitions
are recorded, the row lags behind) that ends in a save (`Settles`), or one of the other groups.
A handler that writes a checkpoint needs a task that is not frozen, which `Live` gives it.
-/
import MemMux.PumpMoves
import MemMux.Record

namespace MemMux

open Ledger

variable {codec : CheckpointCodec} {h : Host} {R : Rules}

/-! ### Chains between worlds -/

/-- Small steps lead from one state to the other. -/
def Does (codec : CheckpointCodec) (h : Host) (R : Rules) (s s' : Phase × World) : Prop :=
  ∃ es, Chain (Act codec h R) s es s'

theorem Does.refl (s : Phase × World) : Does codec h R s s := ⟨[], .nil⟩

theorem Does.trans {s s' s'' : Phase × World} (h₁ : Does codec h R s s')
    (h₂ : Does codec h R s' s'') : Does codec h R s s'' := by
  obtain ⟨es, hes⟩ := h₁
  obtain ⟨fs, hfs⟩ := h₂
  exact ⟨es ++ fs, hes.trans hfs⟩

theorem Act.does {s s' : Phase × World} {es : List Effect} (ha : Act codec h R s es s') :
    Does codec h R s s' :=
  ⟨es, .single ha⟩

/-- A chain from rest to rest. -/
def Written (codec : CheckpointCodec) (h : Host) (R : Rules) (w w' : World) : Prop :=
  Does codec h R (.rest, w) (.rest, w')

/-- A chain on the record of `id` that may leave a move under way. -/
def Busy (codec : CheckpointCodec) (h : Host) (R : Rules) (id : String) (w w' : World) : Prop :=
  ∀ p : Phase, p.opens id → ∃ q : Phase, q.opens id ∧ Does codec h R (p, w) (q, w')

/-- A chain on the record of `id` that leaves nothing under way. -/
def Settles (codec : CheckpointCodec) (h : Host) (R : Rules) (id : String) (w w' : World) : Prop :=
  ∀ p : Phase, p.opens id → Does codec h R (p, w) (.rest, w')

/-- Chores may be done in any phase. -/
theorem Idle.does {w w' : World} (hi : Idle R w w') (p : Phase) :
    Does codec h R (p, w) (p, w') := by
  obtain ⟨es, hes⟩ := hi
  induction hes with
  | nil => exact .refl _
  | snoc _ hlast ih => exact ih.trans (Act.does (.idle hlast))

theorem Idle.written {w w' : World} (hi : Idle R w w') : Written codec h R w w' := hi.does .rest

theorem Quiet.does {w w' : World} (hq : Quiet w w') (p : Phase) : Does codec h R (p, w) (p, w') :=
  hq.idle.does p

theorem Quiet.written {w w' : World} (hq : Quiet w w') : Written codec h R w w' := hq.does .rest

theorem Written.refl (w : World) : Written codec h R w w := Does.refl _

theorem Written.trans {w w' w'' : World} (h₁ : Written codec h R w w')
    (h₂ : Written codec h R w' w'') : Written codec h R w w'' :=
  Does.trans h₁ h₂

theorem Idle.busy {id : String} {w w' : World} (hi : Idle R w w') : Busy codec h R id w w' :=
  fun p hp => ⟨p, hp, hi.does p⟩

theorem Quiet.busy {id : String} {w w' : World} (hq : Quiet w w') : Busy codec h R id w w' :=
  hq.idle.busy

theorem Busy.trans {id : String} {w w' w'' : World} (h₁ : Busy codec h R id w w')
    (h₂ : Busy codec h R id w' w'') : Busy codec h R id w w'' := by
  intro p hp
  obtain ⟨q, hq, hd⟩ := h₁ p hp
  obtain ⟨r, hr, hd'⟩ := h₂ q hq
  exact ⟨r, hr, hd.trans hd'⟩

theorem Busy.settles {id : String} {w w' w'' : World} (h₁ : Busy codec h R id w w')
    (h₂ : Settles codec h R id w' w'') : Settles codec h R id w w'' := by
  intro p hp
  obtain ⟨q, hq, hd⟩ := h₁ p hp
  exact hd.trans (h₂ q hq)

theorem Settles.written {id : String} {w w' : World} (hs : Settles codec h R id w w') :
    Written codec h R w w' :=
  hs .rest trivial

theorem Settles.idle {id : String} {w w' w'' : World} (h₁ : Settles codec h R id w w')
    (h₂ : Idle R w' w'') : Settles codec h R id w w'' :=
  fun p hp => (h₁ p hp).trans (h₂.does .rest)

/-- Folding a function over a list, when each call is a chain. -/
theorem foldl_written {α : Type} {f : World → α → World} (hf : ∀ w a, Written codec h R w (f w a))
    (as : List α) (w : World) : Written codec h R w (as.foldl f w) := by
  induction as generalizing w with
  | nil => exact .refl w
  | cons a as ih => exact (hf w a).trans (ih _)

/-! ### Moves and saves -/

/-- The schema admits every statement on a record. -/
theorem executes_record {q : Stmt} (hq : q.onRecord) (w : World) :
    executes h q w = h.commit w.calls := by
  unfold executes
  cases q <;> first | exact Bool.and_true _ | cases hq

theorem stepTask_some {id : String} {next : TaskState} {reason : String} {now : UInt64}
    {tasks : KeyMap String Task} {t' : Task} {tr : StateTransition}
    (hs : stepTask id next reason now tasks = some (t', tr)) :
    ∃ t, tasks.lookup id = some t ∧ t.transition next reason now = .ok (t', tr) := by
  unfold stepTask at hs
  cases ht : tasks.lookup id with
  | none =>
      rw [ht] at hs
      cases hs
  | some t =>
      rw [ht] at hs
      dsimp only at hs
      cases htr : t.transition next reason now with
      | ok r =>
          rw [htr] at hs
          exact ⟨t, rfl, by rw [htr, Option.some.inj hs]⟩
      | error e =>
          rw [htr] at hs
          cases hs

/-- **A transition is a move**, or nothing when it is not legal. -/
theorem busy_advance {id : String} {next : TaskState} (reason : String) (now : UInt64) {w : World}
    (hck : next = .hibernated → Loads codec id w.disk) :
    Busy codec h R id w (advance h id next reason now w) := by
  intro p hp
  cases hs : stepTask id next reason now w.mem.tasks with
  | none =>
      -- an illegal move changes nothing
      suffices hq : Quiet w (advance h id next reason now w) from ⟨p, hp, hq.does p⟩
      refine .of_mem ?_ rfl rfl rfl ?_
      · unfold advance
        rw [hs]
      · unfold advance
        rw [hs]
  | some r =>
      obtain ⟨t', tr⟩ := r
      obtain ⟨t, ht, htr⟩ := stepTask_some hs
      have hmem : (advance h id next reason now w).mem
          = { w.mem with tasks := w.mem.tasks.insert id t' } := by
        unfold advance
        rw [hs]
      have hd : (advance h id next reason now w).durable = w.durable.write
          (if executes h (.recordTransition id tr) w then .commit (.recordTransition id tr)
            else .refuse (.recordTransition id tr)) := by
        unfold advance
        rw [hs]
      rw [executes_record rfl] at hd
      by_cases hc : h.commit w.calls
      · rw [if_pos hc] at hd
        exact ⟨.moving id, rfl, (Act.move hp ht htr hck hmem hd).does⟩
      · rw [if_neg hc] at hd
        -- the move is not recorded: memory is ahead of the disk, with the same specifications
        have hsp : ∀ j, ((advance h id next reason now w).mem.tasks.lookup j).map (·.spec)
            = (w.mem.tasks.lookup j).map (·.spec) := by
          intro j
          rw [lookup_advance]
          split
          · next hj =>
            subst hj
            rw [ht]
            exact congrArg some (Task.attempt_spec t next reason now)
          · rfl
        exact ⟨.rest, trivial,
          Act.does
            (.refused rfl ⟨w.calls, by simpa using hc⟩ Phase.creates_rest hsp rfl rfl rfl hd)⟩

/-- **A save ends a move.** -/
theorem settles_save {id : String} {w : World} (hid : id ∈ w.mem.tasks) :
    Settles codec h R id w (saveTask h id w) := by
  intro p hp
  obtain ⟨t, ht⟩ := KeyMap.mem_iff_lookup.mp hid
  have hd : (saveTask h id w).durable = w.durable.write
      (if executes h (.upsertTask t) w then .commit (.upsertTask t)
        else .refuse (.upsertTask t)) := by
    unfold saveTask
    rw [ht]
  rw [executes_record rfl] at hd
  by_cases hc : h.commit w.calls
  · rw [if_pos hc] at hd
    exact Act.does (.save hp ht rfl hd)
  · rw [if_neg hc] at hd
    exact Act.does (.refused rfl ⟨w.calls, by simpa using hc⟩ Phase.creates_rest (fun _ => rfl)
      rfl rfl rfl hd)

theorem mem_advance {id : String} {next : TaskState} {reason : String} {now : UInt64} {w : World}
    (hid : id ∈ w.mem.tasks) : id ∈ (advance h id next reason now w).mem.tasks :=
  (mem_tasks_advance h w id next reason now id).mpr hid

/-- The usual move: one transition, then the save. -/
theorem settles_advance_save {id : String} {next : TaskState} {reason : String} {now : UInt64}
    {w : World} (hid : id ∈ w.mem.tasks) (hne : next ≠ .hibernated) :
    Settles codec h R id w (saveTask h id (advance h id next reason now w)) :=
  (busy_advance reason now fun h => absurd h hne).settles (settles_save (mem_advance hid))

/-! ### Launches -/

/-- The rules permit a launch. -/
def Launch.permitted (R : Rules) (h : Host) (l : Launch) : Prop :=
  R.permits l.world.sites l.id (l.dir h)

theorem Launch.permitted_any (l : Launch) : l.permitted .any h := Rules.permits_any

theorem mem_idle {id : String} {w w' : World} (hi : Idle R w w') (hid : id ∈ w.mem.tasks) :
    id ∈ w'.mem.tasks := by
  rw [hi.tasks]
  exact hid

theorem Launchable.mem {id : String} {dir : Path} {w : World} (hl : Launchable R id dir w) :
    id ∈ w.mem.tasks := by
  obtain ⟨t, ht, -⟩ := hl
  exact KeyMap.mem_iff_lookup.mpr ⟨t, ht⟩

/-- A transition does not change where a task may be launched. -/
theorem Launchable.advance {id : String} {dir : Path} {w : World} (hl : Launchable R id dir w)
    (next : TaskState) (reason : String) (now : UInt64) :
    Launchable R id dir (advance h id next reason now w) := by
  refine hl.of_specs ?_ ?_
  · rw [lookup_advance, if_pos rfl]
    cases w.mem.tasks.lookup id with
    | none => rfl
    | some t => exact congrArg some (Task.attempt_spec t next reason now)
  · have hd : ∃ es, (MemMux.advance h id next reason now w).durable = w.durable.writeAll es := by
      unfold MemMux.advance
      cases stepTask id next reason now w.mem.tasks with
      | none => exact ⟨[], (Journal.writeAll_nil _).symm⟩
      | some r => exact ⟨[_], rfl⟩
    obtain ⟨es, hes⟩ := hd
    exact sites_eq rfl rfl hes

theorem Launchable.save {id : String} {dir : Path} {w : World} (hl : Launchable R id dir w) :
    Launchable R id dir (saveTask h id w) := by
  have hd : ∃ es, (saveTask h id w).durable = w.durable.writeAll es := by
    unfold saveTask
    cases w.mem.tasks.lookup id with
    | none => exact ⟨[], (Journal.writeAll_nil _).symm⟩
    | some t => exact ⟨[_], rfl⟩
  obtain ⟨es, hes⟩ := hd
  exact hl.of_specs rfl (sites_eq rfl rfl hes)

theorem busy_beginLaunch (id : String) (now : UInt64) (w : World) :
    Busy codec h R id w (beginLaunch h id now w) := by
  let w₁ := advance h id .admitting "admitted: fits budget" now w
  have h₁ : Busy codec h R id w w₁ := busy_advance _ now nofun
  have h₂ : Busy codec h R id w₁ (advance h id .starting "launching provider" now w₁) :=
    busy_advance _ now nofun
  exact h₁.trans h₂

theorem settles_launched {id : String} {dir : Path} (cls : ResourceClass) {rt : RuntimeInstance}
    (now : UInt64) {w : World} (hl : Launchable R id dir w) (hcwd : rt.cwd = some dir) :
    Settles codec h R id w (launched h id cls rt now w) := by
  let w₁ := advance h id .active "provider running" now w
  have hs : Settles codec h R id w (saveTask h id w₁) :=
    settles_advance_save hl.mem (by decide)
  have hl₁ : Launchable R id dir w₁ := hl.advance _ _ _
  have hin : Idle R (saveTask h id w₁) (installRuntime h id rt (saveTask h id w₁)) :=
    idle_installRuntime hl₁.save hcwd
  refine hs.idle (hin.trans (Quiet.idle ?_))
  refine Quiet.trans (Quiet.trans ?_ (quiet_event _ _ _ _ _)) (quiet_audit _ _ _ _ _)
  exact .of_mem rfl rfl rfl rfl rfl

theorem settles_launchFailed {id : String} (e : String) (now : UInt64) {w : World}
    (hid : id ∈ w.mem.tasks) : Settles codec h R id w (launchFailed h id e now w) := by
  have hs : Settles codec h R id w (saveTask h id (advance h id .failed "launch failed" now w)) :=
    settles_advance_save hid (by decide)
  exact hs.idle (quiet_audit _ _ _ _ _).idle

/-- **A launch is one group**, in the directory that was chosen for it. -/
theorem written_launchQueued {id : String} {snapshot : Task} (now : UInt64) {w : World}
    (ht : w.mem.tasks.lookup id = some snapshot)
    (hf : R.permits w.sites id (ensureWorktree h id snapshot w).2) :
    Written codec h R w (launchQueued h id snapshot now w).1 := by
  obtain ⟨w₁, cwd, he, hcases⟩ := launchQueued_cases h w id snapshot now
  have hi := @idle_ensureWorktree h R id snapshot w ht hf
  have hdir := @ensureWorktree_dir h id snapshot w
  have hperm := permits_ensureWorktree hf
  rw [he] at hi hdir hperm
  have hl : Launchable R id cwd w₁ := ⟨snapshot, by rw [hi.tasks, ht], hdir.symm, hperm⟩
  have hl' : Launchable R id cwd (beginLaunch h id now w₁) := (hl.advance _ _ _).advance _ _ _
  have hbusy : Busy codec h R id w (attemptSpawn h id (some cwd) (beginLaunch h id now w₁)) :=
    (hi.busy.trans (busy_beginLaunch id now w₁)).trans (idle_attemptSpawn hl').busy
  have hl'' := @Launchable.spawn h R id cwd _ hl' (some cwd)
  rcases hcases with ⟨pid, -, heq⟩ | ⟨-, heq⟩
  · rw [heq]
    exact (hbusy.settles (settles_launched _ now hl'' rfl)).written
  · rw [heq]
    exact (hbusy.settles (settles_launchFailed _ now hl''.mem)).written

/-! ### Admission -/

theorem quiet_collect (now : UInt64) (pending : List String) (w : World) {m : DaemonState}
    {cs : List (Candidate Float)} (hc : collectCandidates now pending w.mem = (m, cs)) :
    Quiet w { w with mem := m } := by
  obtain ⟨-, htasks, hrt, -⟩ := collectCandidates_spec now _ _ hc
  have hsame : ∀ (pending : List String) (m₀ : DaemonState),
      (collectCandidates now pending m₀).1.root = m₀.root ∧
        (collectCandidates now pending m₀).1.worktrees = m₀.worktrees := by
    intro pending
    induction pending with
    | nil => exact fun _ => ⟨rfl, rfl⟩
    | cons id pending ih =>
        intro m₀
        unfold collectCandidates
        cases admissible id m₀ with
        | none => exact ih _
        | some task =>
            dsimp only
            split
            · exact ih _
            · exact ih _
  have hr := hsame pending w.mem
  rw [hc] at hr
  exact .of_mem htasks hr.1 hrt hr.2 rfl

theorem quiet_deferOne (w : World) (d : String × String) : Quiet w (deferOne h w d) := by
  have hann : Quiet w (if w.mem.queuedReasons.lookup d.1 ≠ some d.2 then
      event h (some d.1) "admission" "deferred" "info"
        (audit h (some d.1) "admission_deferred" d.2 none w) else w) := by
    split
    · exact (quiet_audit _ _ _ _ _).trans (quiet_event _ _ _ _ _)
    · exact .refl w
  exact hann.of_durable rfl rfl rfl rfl rfl

theorem written_admitOne (now : UInt64) {w : World} {id : String}
    (hf : ∀ l ∈ admitLaunch h id w, l.permitted R h) :
    Written codec h R w (admitOne h now w id) := by
  unfold admitOne
  cases ht : w.mem.tasks.lookup id with
  | none => exact .refl w
  | some snapshot =>
      have hperm := hf ⟨id, snapshot, _, true⟩ (by rw [admitLaunch, ht]; rfl)
      have ha := @quiet_audit h (some id) "admitted" "scored in and fits the budget" none w
      refine Written.trans (ha.written.trans (written_launchQueued now ht hperm)) ?_
      exact Quiet.written (.of_mem rfl rfl rfl rfl rfl)

theorem written_admitAll (now : UInt64) (ids : List String) (w : World)
    (hf : ∀ l ∈ admitLaunches h now ids w, l.permitted R h) :
    Written codec h R w (ids.foldl (admitOne h now) w) := by
  induction ids generalizing w with
  | nil => exact .refl w
  | cons id ids ih =>
      obtain ⟨hone, hrest⟩ := List.forall_mem_append.mp hf
      exact (written_admitOne now fun l hl => hone l (Option.mem_toList.mpr hl)).trans (ih _ hrest)

theorem quiet_planPass (now : UInt64) (w : World) : Quiet w (planPass now w).1 :=
  quiet_collect now (w.mem.pendingAdmission.dedup.insertionSort (· ≤ ·)) w rfl

/-- **An admission pass is a chain from rest to rest.** -/
theorem written_tryAdmitPending (now : UInt64) {w : World}
    (hf : ∀ l ∈ passLaunches h now w, l.permitted R h) :
    Written codec h R w (tryAdmitPending h now w) :=
  ((quiet_planPass now w).written.trans (written_admitAll now _ _ hf)).trans
    (foldl_quiet quiet_deferOne _ _).written

theorem written_startTask {id : String} {w : World}
    (hf : ∀ l ∈ startLaunches h id w, l.permitted R h) :
    Written codec h R w (startTask h id w).1 := by
  unfold startTask
  unfold startLaunches at hf
  dsimp only at hf ⊢
  split
  · exact (quiet_ask w).written
  · next hid =>
    rw [ask_mem] at hid
    rw [if_neg hid] at hf
    cases ht : w.mem.tasks.lookup id with
    | none =>
        rw [ask_mem, ht]
        exact (quiet_ask w).written
    | some snapshot =>
        rw [ask_mem, ht]
        rw [ht] at hf
        dsimp only at hf ⊢
        split
        · exact (quiet_ask w).written
        · next hst =>
          rw [if_neg hst] at hf
          refine Written.trans ?_ (written_tryAdmitPending _ hf)
          exact Quiet.written (.of_mem rfl rfl rfl rfl rfl)

/-! ### Create and forget -/

/-- A statement on a record commits and is a small step, or is refused. -/
theorem does_exec {q : Stmt} (hq : q.onRecord) {p p' p'' : Phase} {w : World}
    (hp : ∀ spec ∈ p''.creates, spec ∈ p.creates)
    (hc : (exec h q w).durable = w.durable.write (.commit q) →
      Does codec h R (p, w) (p', exec h q w)) :
    (executes h q w → Does codec h R (p, w) (p', exec h q w)) ∧
      (¬ executes h q w → Does codec h R (p, w) (p'', exec h q w)) := by
  constructor
  · intro hex
    refine hc ?_
    unfold exec
    rw [if_pos hex]
  · intro hex
    have hd : (exec h q w).durable = w.durable.write (.refuse q) := by
      unfold exec
      rw [if_neg hex]
    rw [executes_record hq] at hex
    exact Act.does (.refused hq ⟨w.calls, by simpa using hex⟩ hp (fun _ => rfl) rfl rfl rfl hd)

/-- Registration, after whatever was logged about the new task. -/
theorem does_registered {spec : TaskSpec} (hn : R.new spec) {now : UInt64} {w w' : World}
    (hq : Quiet w w') :
    Does codec h R (.registering spec now, w)
      (.rest, { w' with
        mem := { w'.mem with tasks := w'.mem.tasks.insert spec.id (queuedTask spec now) } }) :=
  (hq.does _).trans (Act.does (.register hn rfl rfl))

/-- What follows the row of a new task. -/
theorem does_registerTask {spec : TaskSpec} (hn : R.new spec) {now : UInt64} {w : World} :
    Does codec h R (.creating spec now, w) (.rest, registerTask h (queuedTask spec now) w) := by
  obtain ⟨hcommit, hrefuse⟩ := @does_exec codec h R (.recordTransition spec.id (submitted now)) rfl
    (.creating spec now) (.registering spec now) (.registering spec now) w (fun _ hs => hs)
    fun hd => Act.does (.submit rfl hd)
  have hsub : Does codec h R (.creating spec now, w)
      (.registering spec now, exec h (.recordTransition spec.id (submitted now)) w) := by
    by_cases hex : executes h (.recordTransition spec.id (submitted now)) w
    · exact hcommit hex
    · exact hrefuse hex
  exact hsub.trans (does_registered hn (Quiet.trans (quiet_event _ _ _ _ _) (quiet_audit _ _ _ _ _)))

/-- **A new task is one group**, or nothing when its row is refused. -/
theorem written_store {spec : TaskSpec} (hn : R.new spec) {now : UInt64} {w : World}
    (hf : spec.id ∉ w.mem.tasks) (r r' : Response) :
    Written codec h R w (if executes h (.upsertTask (queuedTask spec now)) w then
      (registerTask h (queuedTask spec now) (exec h (.upsertTask (queuedTask spec now)) w), r)
      else (exec h (.upsertTask (queuedTask spec now)) w, r')).1 := by
  obtain ⟨hcommit, hrefuse⟩ := @does_exec codec h R (.upsertTask (queuedTask spec now)) rfl
    .rest (.creating spec now) .rest w Phase.creates_rest fun hd => Act.does (.store hn hf rfl hd)
  split
  · next hex => exact (hcommit hex).trans (does_registerTask hn)
  · next hex => exact hrefuse hex

/-- The task a create request would make. -/
def createSpec (h : Host) (req : CreateTaskRequest) (w : World) : Option TaskSpec :=
  (parseProvider req.provider).map fun provider =>
    specOf (newTaskId (h.now w.calls) (w.mem.seq + 1)) provider req

theorem written_createTask {req : CreateTaskRequest} {w : World}
    (hf : ∀ spec ∈ createSpec h req w, spec.id ∉ w.mem.tasks)
    (hn : ∀ spec ∈ createSpec h req w, R.new spec) :
    Written codec h R w (createTask h req w).1 := by
  unfold createTask
  unfold createSpec at hf hn
  cases hp : parseProvider req.provider with
  | none => exact .refl w
  | some provider =>
      rw [hp] at hf hn
      let w₀ : World := { w.ask with mem := { w.mem with seq := w.mem.seq + 1 } }
      have hseq : Quiet w w₀ := .of_mem rfl rfl rfl rfl rfl
      have hstore : (specOf (newTaskId (h.now w.calls) w₀.mem.seq) provider req).id
          ∉ w₀.mem.tasks := hf _ rfl
      exact hseq.written.trans (written_store (hn _ rfl) hstore _ _)

theorem does_deleteTask (id : String) (w : World) :
    Does codec h R (.forgetting id, w) (.rest, (deleteTask h id w).1) := by
  obtain ⟨ht, ht'⟩ := @does_exec codec h R (.deleteTransitions id) rfl (.forgetting id) (.erasing id)
    .rest w Phase.creates_rest fun hd => Act.does (.eraseHistory rfl hd)
  unfold deleteTask
  split
  · next hex =>
    refine (ht hex).trans ?_
    generalize exec h (.deleteTransitions id) w = w₁
    obtain ⟨hr, hr'⟩ := @does_exec codec h R (.deleteCheckpoints id) rfl (.erasing id) (.erasing id)
      .rest w₁ Phase.creates_rest fun hd => Act.does (.eraseRef rfl hd)
    dsimp only
    split
    · next hex =>
      refine (hr hex).trans ?_
      generalize exec h (.deleteCheckpoints id) w₁ = w₂
      obtain ⟨hw, hw'⟩ := @does_exec codec h R (.deleteTaskRow id) rfl (.erasing id) .rest .rest w₂
        Phase.creates_rest fun hd => Act.does (.eraseRow rfl hd)
      by_cases hex : executes h (.deleteTaskRow id) w₂
      · exact hw hex
      · exact hw' hex
    · next hex => exact hr' hex
  · next hex => exact ht' hex

theorem written_forget (id : String) (w : World) : Written codec h R w (forget h id w).1 := by
  unfold forget
  split
  · exact .refl w
  · next hid =>
    cases ht : w.mem.tasks.lookup id with
    | none => exact .refl w
    | some task =>
        dsimp only
        split
        · exact .refl w
        · next hst =>
          have hs : Forgettable task.state := by
            unfold Forgettable
            by_cases hf : task.state = .failed
            · exact .inl hf
            · exact .inr (by simpa [hf] using hst)
          -- forgotten in memory first, then deleted on the disk, row by row
          generalize hw : (⟨{ w.mem with
            tasks := w.mem.tasks.erase id, histories := w.mem.histories.erase id },
            w.durable, w.procs, w.calls⟩ : World) = w₀
          have hdrop : Does codec h R (.rest, w) (.forgetting id, w₀) := by
            subst hw
            exact Act.does (.forget hid ht hs rfl rfl rfl rfl rfl)
          have hdel := hdrop.trans (@does_deleteTask codec h R id w₀)
          rcases hd : deleteTask h id w₀ with ⟨w₁, b⟩
          rw [hd] at hdel
          cases b with
          | false => exact hdel
          | true =>
              exact Written.trans hdel
                ((quiet_audit _ _ _ _ _).trans (quiet_event _ _ _ _ _)).written

/-! ### Restart -/

/-- How many transitions `force_requeue` needs from a state. -/
def requeueSteps : TaskState → Nat
  | .queued | .terminating | .terminated => 0
  | .created | .admitting | .blocked | .hibernated | .failed => 1
  | .waitingUser | .idle => 3
  | _ => 2

/-- A state `force_requeue` gets out of, or need not. -/
def Requeues (s : TaskState) : Prop := s ≠ .terminating ∧ s ≠ .terminated

theorem requeueNext_spec {s next : TaskState} (hn : requeueNext s = some next) :
    s.canTransitionTo next ∧ Requeues next ∧ requeueSteps next < requeueSteps s ∧
      next ≠ .hibernated := by
  revert hn
  unfold Requeues
  cases s <;> cases next <;> decide

theorem requeueNext_none {s : TaskState} (hn : requeueNext s = none) (hq : s ≠ .queued) :
    ¬ Requeues s := by
  revert hn hq
  unfold Requeues
  cases s <;> decide

theorem requeueNext_isSome {s : TaskState} (hr : Requeues s) (hq : s ≠ .queued) :
    ∃ next, requeueNext s = some next := by
  cases hn : requeueNext s with
  | none => exact absurd hr (requeueNext_none hn hq)
  | some next => exact ⟨next, rfl⟩

theorem busy_forceRequeue (id : String) (now : UInt64) (n : Nat) (w : World) :
    Busy codec h R id w (forceRequeue h id now n w) := by
  induction n generalizing w with
  | zero => exact (Quiet.refl w).busy
  | succ n ih =>
      unfold forceRequeue
      cases w.mem.tasks.lookup id with
      | none => exact (Quiet.refl w).busy
      | some task =>
          dsimp only
          split
          · exact (Quiet.refl w).busy
          · cases hn : requeueNext task.state with
            | none => exact (Quiet.refl w).busy
            | some s =>
                have hne := (requeueNext_spec hn).2.2.2
                exact (busy_advance _ now fun he => absurd he hne).trans (ih _)

/-- **`force_requeue` reaches `Queued`** from every state it gets out of. -/
theorem forceRequeue_queued {id : String} {now : UInt64} {n : Nat} {w : World} {t : Task}
    (ht : w.mem.tasks.lookup id = some t) (hr : Requeues t.state)
    (hn : requeueSteps t.state ≤ n) :
    ∃ t', (forceRequeue h id now n w).mem.tasks.lookup id = some t' ∧ t'.state = .queued := by
  induction n generalizing w t with
  | zero =>
      refine ⟨t, ht, ?_⟩
      by_contra hq
      obtain ⟨next, hnext⟩ := requeueNext_isSome hr hq
      have hlt := (requeueNext_spec hnext).2.2.1
      omega
  | succ n ih =>
      unfold forceRequeue
      rw [ht]
      dsimp only
      split
      · next hq => exact ⟨t, ht, hq⟩
      · next hq =>
        obtain ⟨next, hnext⟩ := requeueNext_isSome hr hq
        obtain ⟨hlegal, hr', hlt, -⟩ := requeueNext_spec hnext
        rw [hnext]
        have hst : (t.attempt next "restart: re-queue" now).state = next := by
          rw [Task.attempt_state, if_pos hlegal]
        have hle : requeueSteps next ≤ n := by omega
        rw [← hst] at hr' hle
        exact ih (lookup_advance_self h w ht next _ now) hr' hle

/-- From the other states it does nothing. -/
theorem forceRequeue_stuck {id : String} {now : UInt64} (n : Nat) {w : World} {t : Task}
    (ht : w.mem.tasks.lookup id = some t) (hr : ¬ Requeues t.state) :
    forceRequeue h id now n w = w := by
  cases n with
  | zero => rfl
  | succ n =>
      unfold forceRequeue
      rw [ht]
      have hnone : t.state ≠ .queued ∧ requeueNext t.state = none := by
        revert hr
        unfold Requeues
        cases t.state <;> decide
      dsimp only
      rw [if_neg hnone.1, hnone.2]

/-- A restart can bring the task up: it has no provider, and it is neither ending nor ended. -/
def Restartable (id : String) (m : DaemonState) : Prop :=
  id ∉ m.runtimes ∧ ∃ t, m.tasks.lookup id = some t ∧ Requeues t.state

/-- A restart is refused before it changes anything, or its task is re-queued and saved. -/
theorem prepareRestart_cases {id : String} {w w' : World} {r : Except Response Task}
    (hp : prepareRestart h id w = (w', r)) :
    (¬ Restartable id w.mem ∧ w' = w.ask ∧ ∃ e, r = .error e) ∨
      (Restartable id w.mem ∧ ∃ u, r = .ok u ∧
        (forceRequeue h id (h.now w.calls) 6 w.ask).mem.tasks.lookup id = some u ∧
        w' = event h (some id) "lifecycle" "restarted" "info"
          (saveTask h id (forceRequeue h id (h.now w.calls) 6 w.ask))) := by
  unfold prepareRestart at hp
  dsimp only at hp
  split at hp
  · next hid =>
    obtain ⟨rfl, rfl⟩ := Prod.mk.inj hp
    exact Or.inl ⟨fun hr => hr.1 hid, rfl, _, rfl⟩
  · next hid =>
    cases ht : w.mem.tasks.lookup id with
    | none =>
        rw [ask_mem, ht] at hp
        obtain ⟨rfl, rfl⟩ := Prod.mk.inj hp
        refine Or.inl ⟨fun hr => ?_, rfl, _, rfl⟩
        obtain ⟨t, ht', -⟩ := hr.2
        exact nomatch ht.symm.trans ht'
    | some t =>
        rw [ask_mem, ht] at hp
        dsimp only at hp
        have hta : w.ask.mem.tasks.lookup id = some t := ht
        -- no restart is possible without a way back to `Queued`
        have hstuck : ¬ Requeues t.state → ¬ Restartable id w.mem := by
          intro hn hr
          obtain ⟨u, hu, hr⟩ := hr.2
          obtain rfl := Option.some.inj (ht.symm.trans hu)
          exact hn hr
        split at hp
        · next hst =>
          obtain ⟨rfl, rfl⟩ := Prod.mk.inj hp
          exact Or.inl ⟨hstuck fun hr => hr.2 hst, rfl, _, rfl⟩
        · by_cases hr : Requeues t.state
          · -- six rounds are enough from every state that has a way back to `Queued`
            have hsix : requeueSteps t.state ≤ 6 := by cases t.state <;> decide
            obtain ⟨u, hu, hq⟩ := @forceRequeue_queued h id (h.now w.calls) 6 w.ask t hta hr hsix
            rw [hu] at hp
            dsimp only at hp
            rw [if_neg (by simp [hq])] at hp
            obtain ⟨rfl, rfl⟩ := Prod.mk.inj hp
            exact Or.inr ⟨⟨hid, t, ht, hr⟩, u, rfl, hu, rfl⟩
          · rw [forceRequeue_stuck 6 hta hr, hta] at hp
            have hq : t.state ≠ .queued := by
              intro hq
              rw [hq] at hr
              exact hr ⟨by decide, by decide⟩
            dsimp only at hp
            rw [if_pos hq] at hp
            obtain ⟨rfl, rfl⟩ := Prod.mk.inj hp
            exact Or.inl ⟨hstuck hr, rfl, _, rfl⟩

/-- **A restart leaves nothing under way**: what it moves, it saves. -/
theorem written_prepareRestart {id : String} {w w' : World} {r : Except Response Task}
    (hp : prepareRestart h id w = (w', r)) :
    Written codec h R w w' ∧
      ∀ requeued, r = .ok requeued → w'.mem.tasks.lookup id = some requeued := by
  have hask : Written codec h R w w.ask := (quiet_ask w).written
  obtain ⟨-, rfl, e, rfl⟩ | ⟨-, u, rfl, hu, rfl⟩ := prepareRestart_cases hp
  · exact ⟨hask, by simp⟩
  · have hid : id ∈ (forceRequeue h id (h.now w.calls) 6 w.ask).mem.tasks :=
      KeyMap.mem_iff_lookup.mpr ⟨u, hu⟩
    refine ⟨hask.trans ?_, fun v hv => Except.ok.inj hv ▸ hu⟩
    exact Settles.written
      (((busy_forceRequeue id _ 6 w.ask).settles (settles_save hid)).idle
        (quiet_event _ _ _ _ _).idle)

theorem written_restart {id : String} {w : World}
    (hf : ∀ l ∈ restartLaunch h id w, l.permitted R h) :
    Written codec h R w (restart h id w).1 := by
  unfold restart
  unfold restartLaunch at hf
  rcases hp : prepareRestart h id w with ⟨w', r⟩
  obtain ⟨hw, hid⟩ := @written_prepareRestart codec h R id w w' r hp
  rw [hp] at hf
  cases r with
  | error r => exact hw
  | ok requeued => exact hw.trans (written_launchQueued _ (hid requeued rfl) (hf _ rfl))

/-! ### Terminate and retire -/

theorem busy_drive (id : String) (now : UInt64) (w : World) :
    Busy codec h R id w (drive h id now w) := by
  unfold drive
  refine Busy.trans ?_ (busy_advance _ now nofun)
  cases w.mem.tasks.lookup id with
  | none => exact (Quiet.refl w).busy
  | some task =>
      dsimp only
      split
      · exact busy_advance _ now nofun
      · exact (Quiet.refl w).busy

theorem mem_drive {id : String} {now : UInt64} {w : World} (hid : id ∈ w.mem.tasks) :
    id ∈ (drive h id now w).mem.tasks := by
  unfold drive
  cases w.mem.tasks.lookup id with
  | none => exact mem_advance hid
  | some task =>
      dsimp only
      split
      · exact mem_advance (mem_advance hid)
      · exact mem_advance hid

/-- What `terminate` does before it drives the task down. -/
theorem idle_takeDown {id : String} (hs : R.stops id) (w : World) :
    Idle R w (releaseReservation id (cleanupWorktree h id (stopLive h id
      (reapTaskProcesses h id ((w.mem.runtimes.lookup id).bind (·.pid)) w)))) :=
  (((quiet_reapTaskProcesses id _ w).idle.trans (idle_stopLive hs _)).trans
    (idle_cleanupWorktree (stopLive_down id _))).trans (quiet_releaseReservation id _).idle

theorem written_terminate {id : String} (hs : R.stops id) (w : World) :
    Written codec h R w (terminate h id w).1 := by
  unfold terminate
  dsimp only
  split
  · exact (quiet_ask w).written
  · next hid =>
    have hdown := @idle_takeDown h R id hs w.ask
    have hin := mem_idle hdown (not_not.mp hid)
    generalize releaseReservation id _ = w₁ at hdown hin ⊢
    have hs : Settles codec h R id w₁ (saveTask h id (drive h id (h.now w.calls) w₁)) :=
      (busy_drive id _ w₁).settles (settles_save (mem_drive hin))
    refine ((quiet_ask w).idle.trans hdown).written.trans ?_
    exact (hs.idle ((quiet_audit _ _ _ _ _).trans (quiet_event _ _ _ _ _)).idle).written

theorem settles_retireTask (id : String) (now : UInt64) (w : World) :
    Written codec h R w (retireTask h id now w) := by
  unfold retireTask
  cases ht : w.mem.tasks.lookup id with
  | none => exact .refl w
  | some task =>
      dsimp only
      split
      · exact .refl w
      · have hid : id ∈ w.mem.tasks := KeyMap.mem_iff_lookup.mpr ⟨task, ht⟩
        have hfirst : Busy codec h R id w (advance h id .terminating "provider exited" now w) :=
          busy_advance _ now nofun
        exact (hfirst.settles (settles_advance_save (mem_advance hid) (by decide))).written

theorem retireTask_runtimes (id : String) (now : UInt64) (w : World) :
    (retireTask h id now w).mem.runtimes = w.mem.runtimes := by
  unfold retireTask
  cases w.mem.tasks.lookup id with
  | none => rfl
  | some task =>
      dsimp only
      split <;> rfl

theorem written_retire (now : UInt64) (w : World) (id : String) :
    Written codec h R w (retire h now w id) := by
  let w₀ : World := { w with mem := { w.mem with runtimes := w.mem.runtimes.erase id } }
  have hdrop : Idle R w w₀ := Chore.idles (.drop rfl rfl)
  let w₁ := reapTaskProcesses h id ((w.mem.runtimes.lookup id).bind (·.pid)) (flushHistory h id w₀)
  have hreap : Quiet w₀ w₁ := (quiet_flushHistory id w₀).trans (quiet_reapTaskProcesses id _ _)
  -- the worktree is given up after the provider was dropped
  have hdown : id ∉ (retireTask h id now w₁).mem.runtimes := by
    rw [retireTask_runtimes, hreap.runtimes, KeyMap.mem_erase_iff]
    exact fun hin => hin.1 rfl
  refine ((hdrop.trans hreap.idle).written.trans (settles_retireTask id now _)).trans ?_
  exact Idle.written ((idle_cleanupWorktree hdown).trans
    ((quiet_releaseReservation id _).trans (quiet_event _ _ _ _ _)).idle)

/-! ### Checkpoints -/

theorem loadCheckpoint_congr {id : String} {d d' : Disk}
    (hc : d'.tables.checkpoints = d.tables.checkpoints) (hf : d'.files = d.files) :
    loadCheckpoint codec id d' = loadCheckpoint codec id d := by
  have href : d'.tables.loadCheckpointRef id = d.tables.loadCheckpointRef id := by
    unfold Tables.loadCheckpointRef
    rw [hc]
  unfold loadCheckpoint
  rw [href, hf]

/-- Neither a reference nor an artifact is touched. -/
def Effect.sparesCheckpoints : Effect → Bool
  | .commit (.saveCheckpointRef _) | .commit (.deleteCheckpoints _) => false
  | .writeArtifact _ _ | .tornArtifact _ => false
  | _ => true

theorem spares_of_idle {e : Effect} (he : e.idle) : e.sparesCheckpoints := by
  cases e with
  | commit q => cases q <;> first | rfl | cases he
  | _ => first | rfl | cases he

theorem checkpoints_apply {e : Effect} (he : e.sparesCheckpoints) (d : Disk) :
    (Replay.apply d e : Disk).tables.checkpoints = d.tables.checkpoints ∧
      (Replay.apply d e : Disk).files = d.files := by
  cases e with
  | commit q => cases q <;> first | exact ⟨rfl, rfl⟩ | cases he
  | _ => first | exact ⟨rfl, rfl⟩ | cases he

theorem loads_replay {id : String} {es : List Effect} (hes : ∀ e ∈ es, e.sparesCheckpoints)
    (d : Disk) :
    loadCheckpoint codec id (Journal.replay d es) = loadCheckpoint codec id d := by
  induction es generalizing d with
  | nil => rfl
  | cons e es ih =>
      obtain ⟨hc, hf⟩ := checkpoints_apply (hes e List.mem_cons_self) d
      exact (ih (fun e' he' => hes e' (List.mem_cons_of_mem _ he')) _).trans
        (loadCheckpoint_congr hc hf)

theorem Chore.loads {id : String} {w w' : World} {es : List Effect} (hc : Chore R w es w')
    (hl : Loads codec id w.disk) : Loads codec id w'.disk := by
  obtain ⟨cp, hcp⟩ := hl
  refine ⟨cp, ?_⟩
  rw [disk_writeAll hc.durable, loads_replay fun e he => spares_of_idle (hc.idle e he)]
  exact hcp

theorem Idle.loads {id : String} {w w' : World} (hi : Idle R w w') (hl : Loads codec id w.disk) :
    Loads codec id w'.disk := by
  obtain ⟨es, hes⟩ := hi
  induction hes with
  | nil => exact hl
  | snoc _ hlast ih => exact hlast.loads ih

/-- A transition touches no checkpoint. -/
theorem loads_advance {id i : String} {next : TaskState} {reason : String} {now : UInt64}
    {w : World} (hl : Loads codec id w.disk) :
    Loads codec id (advance h i next reason now w).disk := by
  obtain ⟨cp, hcp⟩ := hl
  refine ⟨cp, ?_⟩
  cases hs : stepTask i next reason now w.mem.tasks with
  | none =>
      have hd : (advance h i next reason now w).durable = w.durable := by
        unfold advance
        rw [hs]
      rwa [World.disk, hd]
  | some r =>
      obtain ⟨t, tr⟩ := r
      have hd : (advance h i next reason now w).durable = w.durable.writeAll
          [if executes h (.recordTransition i tr) w then .commit (.recordTransition i tr)
            else .refuse (.recordTransition i tr)] := by
        unfold advance
        rw [hs]
        rfl
      rw [disk_writeAll hd, loads_replay]
      · exact hcp
      · intro e he
        rw [List.mem_singleton.mp he]
        split <;> rfl

/-- **A persisted checkpoint loads.** -/
theorem load_persisted {cp : Checkpoint} {body : IntegrityBody} (hcp : cp = .new codec body)
    {d : Disk} {root : Path}
    (href : d.tables.loadCheckpointRef cp.taskId = some (refOf root cp))
    (hfile : d.files.lookup (checkpointPath root cp.taskId) = some (codec.encode cp)) :
    loadCheckpoint codec cp.taskId d = .ok cp := by
  have hver : cp.verify codec = true := by
    rw [hcp]
    exact Checkpoint.verify_new codec body
  unfold loadCheckpoint
  rw [href]
  dsimp only [refOf]
  rw [hfile, Option.bind_some, codec.decode_encode]
  simp [hver]

/-- A capture is a snapshot, before anything else is written. -/
theorem snapshot_capture (id : String) (task : Task) (now : UInt64) (w : World) :
    Snapshot h (captureCheckpoint codec h id task now w).1
      (captureCheckpoint codec h id task now w).2 :=
  ⟨id, captureDir id task w.mem, List.getLast?_concat, ⟨_, rfl⟩, _, rfl⟩

/-- A persisted checkpoint is an artifact and then its reference. -/
theorem persistCheckpoint_ok {cp : Checkpoint} {w w' : World}
    (hp : persistCheckpoint codec h cp w = (w', .ok ())) :
    w'.durable = w.durable.writeAll
      [.writeArtifact (checkpointPath w.mem.root cp.taskId) (codec.encode cp),
        .commit (.saveCheckpointRef (refOf w.mem.root cp))] := by
  unfold persistCheckpoint at hp
  dsimp only at hp
  split at hp
  · cases (Prod.mk.inj hp).2
  · split at hp
    · cases (Prod.mk.inj hp).2
    · obtain ⟨rfl, hok⟩ := Prod.mk.inj hp
      split at hok
      · next hex =>
        unfold exec
        rw [if_pos hex]
        simp [World.note, World.ask, Journal.write, Journal.writeAll]
      · cases hok

theorem load_persistCheckpoint {cp : Checkpoint} {body : IntegrityBody}
    (hcp : cp = .new codec body) {w w' : World}
    (hp : persistCheckpoint codec h cp w = (w', .ok ())) :
    loadCheckpoint codec cp.taskId w'.disk = .ok cp := by
  have hid : (refOf w.mem.root cp).taskId = cp.taskId := rfl
  refine @load_persisted codec cp body hcp _ w.mem.root ?_ ?_
  · rw [disk_writeAll (persistCheckpoint_ok hp)]
    exact (Tables.lookup_saveCheckpointRef _ _ _).trans (if_pos hid)
  · rw [disk_writeAll (persistCheckpoint_ok hp)]
    exact AList.lookup_insert _

/-- Persisting the checkpoint of a task that is not frozen: an artifact, then its reference. -/
theorem written_persist {cp : Checkpoint} {body : IntegrityBody} (hcp : cp = .new codec body)
    {w : World} {t : Task} (ht : w.mem.tasks.lookup cp.taskId = some t)
    (hs : t.state ≠ .hibernated) (hsnap : Snapshot h w cp) :
    Written codec h R w (persistCheckpoint codec h cp w).1 ∧
      ((persistCheckpoint codec h cp w).2 = .ok () →
        Loads codec cp.taskId (persistCheckpoint codec h cp w).1.disk) := by
  refine ⟨?_, fun hok => ⟨cp, load_persistCheckpoint hcp (Prod.ext rfl hok)⟩⟩
  unfold persistCheckpoint
  dsimp only
  split
  · exact (quiet_ask w).written
  · split
    · -- the artifact could not be written
      exact (quiet_ask w).written.trans (Act.does (.artifact ht hs (.inl rfl) rfl rfl))
    · generalize hw : (w.ask.ask).note
        (.writeArtifact (checkpointPath w.ask.mem.root cp.taskId) (codec.encode cp)) = w₁
      have hmem : w₁.mem = w.mem := by
        subst hw
        rfl
      have hd : w₁.durable
          = w.durable.write (.writeArtifact (checkpointPath w.mem.root cp.taskId)
              (codec.encode cp)) := by
        subst hw
        rfl
      have hart : Written codec h R w w₁ :=
        Act.does (.artifact ht hs (.inr ⟨cp, hsnap, rfl⟩) hmem hd)
      rw [← hmem] at ht
      -- it is there; its reference may still be refused
      by_cases hex : executes h (.saveCheckpointRef (refOf w₁.mem.root cp)) w₁
      · have hd' : (exec h (.saveCheckpointRef (refOf w₁.mem.root cp)) w₁).durable
            = w₁.durable.write (.commit (.saveCheckpointRef (refOf w₁.mem.root cp))) := by
          unfold exec
          rw [if_pos hex]
        exact hart.trans (Act.does (.reference ht hs rfl rfl hd'))
      · have hi : Quiet w₁ (exec h (.saveCheckpointRef (refOf w₁.mem.root cp)) w₁) := by
          refine .of_write rfl rfl ?_
          rw [if_neg hex]
          rfl
        exact hart.trans hi.written

/-! ### Hibernate -/

/-- A live provider's task is not frozen. -/
theorem not_hibernated_of_live {w : World} {id : String} {t : Task} (hl : Live w.ledger)
    (hid : id ∈ w.mem.runtimes) (ht : w.mem.tasks.lookup id = some t) :
    t.state ≠ .hibernated := by
  obtain ⟨u, hu, hr⟩ := hl id hid
  obtain rfl : t = u := Option.some.inj (ht.symm.trans hu)
  intro hs
  rw [hs] at hr
  exact absurd hr (by decide)

/-- **What hibernate and recycle begin with**: the checkpoint is written as small steps, and loads
when they go on. -/
theorem written_checkpointLive (verb failed id : String) (now : UInt64) {w : World}
    (hl : Live w.ledger) :
    Written codec h R w (checkpointLive codec h verb failed id now w).1 ∧
      ∀ r, (checkpointLive codec h verb failed id now w).2 = .ok r →
        Loads codec id (checkpointLive codec h verb failed id now w).1.disk := by
  unfold checkpointLive
  split
  · exact ⟨.refl w, by simp⟩
  · next hid =>
    cases ht : w.mem.tasks.lookup id with
    | none => exact ⟨.refl w, by simp⟩
    | some task =>
        dsimp only
        cases assess (activity task) with
        | wait reason => exact ⟨(quiet_audit _ _ _ _ _).written, by simp⟩
        -- captured without a change, then persisted
        | ready =>
            have hcap := @idle_captureCheckpoint codec h R id task now w (not_not.mp hid) ht
            have hpers := @written_persist codec h R (captureCheckpoint codec h id task now w).2 _ rfl
              (captureCheckpoint codec h id task now w).1 task ht
              (not_hibernated_of_live hl (not_not.mp hid) ht) (snapshot_capture _ _ _ _)
            dsimp only
            rcases hp : persistCheckpoint codec h (captureCheckpoint codec h id task now w).2
              (captureCheckpoint codec h id task now w).1 with ⟨w', e | u⟩
            · rw [hp] at hpers
              exact ⟨hcap.written.trans hpers.1, by simp⟩
            · rw [hp] at hpers
              exact ⟨hcap.written.trans hpers.1, fun _ _ => hpers.2 rfl⟩

/-- Freezing a task whose provider is down and whose checkpoint loads. -/
theorem written_frozen {id : String} (cp : Checkpoint) (now : UInt64) {w : World}
    (hid : id ∈ (shutdownRuntime h id w).1.mem.tasks)
    (hload : Loads codec id (shutdownRuntime h id w).1.disk) :
    Written codec h R (shutdownRuntime h id w).1 (freeze h id cp now w) := by
  unfold freeze
  rcases hcut : shutdownRuntime h id w with ⟨w', cleanup⟩
  rw [hcut] at hid hload
  have hdown : Idle R w' (releaseReservation id w') := (quiet_releaseReservation id w').idle
  have hin := mem_idle hdown hid
  have hl := hdown.loads hload
  dsimp only
  generalize releaseReservation id w' = w₁ at hdown hin hl ⊢
  have hfirst : Busy codec h R id w₁ (advance h id .checkpointing "capturing checkpoint" now w₁) :=
    busy_advance _ now nofun
  have hsecond : Busy codec h R id (advance h id .checkpointing "capturing checkpoint" now w₁)
      (advance h id .hibernated "provider stopped; task frozen" now
        (advance h id .checkpointing "capturing checkpoint" now w₁)) :=
    busy_advance _ now fun _ => loads_advance hl
  have hsettles := (hfirst.trans hsecond).settles (settles_save (mem_advance (mem_advance hin)))
  refine hdown.written.trans (hsettles.idle ?_).written
  exact ((quiet_event _ _ _ _ _).trans (quiet_audit _ _ _ _ _)).idle

theorem written_freeze {id : String} (hs : R.stops id) (cp : Checkpoint) (now : UInt64) {w : World}
    (hid : id ∈ w.mem.tasks) (hload : Loads codec id w.disk) :
    Written codec h R w (freeze h id cp now w) := by
  have hshut := @idle_shutdownRuntime h R id hs w
  exact hshut.written.trans (written_frozen cp now (mem_idle hshut hid) (hshut.loads hload))

theorem written_hibernate {id : String} (hs : R.stops id) {w : World} (hl : Live w.ledger) :
    Written codec h R w (hibernate codec h id w).1 := by
  obtain ⟨hw, hload⟩ := @written_checkpointLive codec h R "hibernate" "checkpoint failed: " id
    (h.now w.calls) w.ask hl
  rcases hibernate_cases codec h w id with ⟨w', r, hc, -, heq⟩ | ⟨w', task, cp, hc, hmem, heq⟩
  · rw [hc] at hw
    rw [heq]
    exact (quiet_ask w).written.trans hw
  · rw [hc] at hw hload
    obtain ⟨-, ht, -⟩ := checkpointLive_ok codec h hc
    have hid : id ∈ w'.mem.tasks := by
      rw [hmem]
      exact KeyMap.mem_iff_lookup.mpr ⟨task, ht⟩
    rw [heq]
    exact (quiet_ask w).written.trans (hw.trans (written_freeze hs cp _ hid (hload _ rfl)))

/-! ### Resume and recycle -/

/-- The reference of a task that is not frozen is dropped. -/
theorem written_dropRef {id : String} {w : World} {t : Task} (ht : w.mem.tasks.lookup id = some t)
    (hs : t.state ≠ .hibernated) : Written codec h R w (exec h (.deleteCheckpoints id) w) := by
  obtain ⟨hcommit, hrefuse⟩ := @does_exec codec h R (.deleteCheckpoints id) rfl .rest .rest .rest w
    Phase.creates_rest fun hd => Act.does (.dropRef ht hs rfl hd)
  by_cases hex : executes h (.deleteCheckpoints id) w
  · exact hcommit hex
  · exact hrefuse hex

/-- `Resuming`, `Active`, saved. -/
def wakeUp (h : Host) (id : String) (r₁ r₂ : String) (now : UInt64) (w : World) : World :=
  saveTask h id (advance h id .active r₂ now (advance h id .resuming r₁ now w))

theorem written_wakeUp {id : String} (r₁ r₂ : String) (now : UInt64) {w : World}
    (hid : id ∈ w.mem.tasks) : Written codec h R w (wakeUp h id r₁ r₂ now w) := by
  have hfirst : Busy codec h R id w (advance h id .resuming r₁ now w) := busy_advance _ now nofun
  exact (hfirst.settles (settles_advance_save (mem_advance hid) (by decide))).written

theorem lookup_wakeUp {id : String} {r₁ r₂ : String} {now : UInt64} {w : World} {t : Task}
    (ht : w.mem.tasks.lookup id = some t) :
    (wakeUp h id r₁ r₂ now w).mem.tasks.lookup id
      = some ((t.attempt .resuming r₁ now).attempt .active r₂ now) :=
  lookup_advance_self h _ (lookup_advance_self h w ht _ _ _) _ _ _

/-- What is woken up is not frozen. -/
theorem wakeUp_state (t : Task) (r₁ r₂ : String) (now : UInt64) :
    ((t.attempt .resuming r₁ now).attempt .active r₂ now).state ≠ .hibernated := by
  simp only [Task.attempt_state]
  cases t.state <;> decide

theorem written_thaw {id : String} (cls : ResourceClass) (o : ResumeOutcome) (now : UInt64)
    {w : World} {t : Task} (ht : w.mem.tasks.lookup id = some t) :
    Written codec h R w (thaw h id cls o now w) := by
  have hwake := @written_wakeUp codec h R id "restoring from checkpoint" "provider resumed" now w
    (KeyMap.mem_iff_lookup.mpr ⟨t, ht⟩)
  have hlook := @lookup_wakeUp h id "restoring from checkpoint" "provider resumed" now w t ht
  show Written codec h R w (emitResumeEvent h id o (exec h (.deleteCheckpoints id)
    (reserve id cls (wakeUp h id "restoring from checkpoint" "provider resumed" now w))))
  generalize wakeUp h id "restoring from checkpoint" "provider resumed" now w = w₁ at hwake hlook ⊢
  have hres : Quiet w₁ (reserve id cls w₁) := .of_mem rfl rfl rfl rfl rfl
  have hdrop : Written codec h R (reserve id cls w₁)
      (exec h (.deleteCheckpoints id) (reserve id cls w₁)) :=
    written_dropRef hlook (wakeUp_state t _ _ now)
  refine ((hwake.trans hres.written).trans hdrop).trans (Quiet.written ?_)
  exact (quiet_appendEvent _ _ _ _ _ _).trans (quiet_audit _ _ _ _ _)

/-- A task that the rules permit to launch in `dir` is launchable there. -/
theorem launchable_permitted {id : String} {task : Task} {w : World}
    (ht : w.mem.tasks.lookup id = some task)
    (hf : (⟨id, task, w, false⟩ : Launch).permitted R h) :
    Launchable R id (captureDir id task w.mem) w :=
  ⟨task, ht, rfl, hf⟩

theorem written_resume {id : String} {w : World}
    (hf : ∀ l ∈ resumeLaunch codec id w, l.permitted R h) :
    Written codec h R w (resume codec h id w).1 := by
  have hask : Written codec h R w w.ask := (quiet_ask w).written
  unfold resumeLaunch at hf
  rcases resume_cases codec h w id with ⟨r, -, heq⟩ | ⟨task, cp, hp, hcases⟩
  · rw [heq]
    exact hask
  · rw [hp] at hf
    obtain ⟨ht, -, -⟩ := prepareResume_ok codec hp
    have hre := @idle_relaunch h R id task cp w.ask (launchable_permitted ht (hf _ rfl))
    rcases hcases with ⟨w', e, hr, hmem, heq⟩ | ⟨w', o, rt, hist, hr, hmem, heq⟩ <;> rw [heq]
    · rw [hr] at hre
      exact hask.trans (hre.written.trans (quiet_audit _ _ _ _ _).written)
    · rw [hr] at hre
      have ht' : w'.mem.tasks.lookup id = some task := by
        rw [hmem]
        exact ht
      exact hask.trans (Written.trans hre.written (written_thaw _ o _ ht'))

theorem written_rollBack {id : String} (e : String) (now : UInt64) {w : World}
    (hid : id ∈ w.mem.tasks) : Written codec h R w (rollBack h id e now w) := by
  have hs : Settles codec h R id w
      (saveTask h id (advance h id .failed "recycle resume failed" now w)) :=
    settles_advance_save hid (by decide)
  exact (hs.idle (quiet_audit _ _ _ _ _).idle).written

theorem written_finishRecycle {id : String} (cp : Checkpoint) (rss : Nat) (cleanup : String)
    (o : ResumeOutcome) (now : UInt64) {w : World} {t : Task}
    (ht : w.mem.tasks.lookup id = some t) :
    Written codec h R w (finishRecycle h id cp rss cleanup o now w) := by
  have hwake := @written_wakeUp codec h R id "restoring from checkpoint" "provider recycled" now w.ask
    (KeyMap.mem_iff_lookup.mpr ⟨t, ht⟩)
  have hlook := @lookup_wakeUp h id "restoring from checkpoint" "provider recycled" now w.ask t ht
  have hdrop := @written_dropRef codec h R id _ _ hlook (wakeUp_state t _ _ now)
  refine (((quiet_ask w).written.trans hwake).trans hdrop).trans (Quiet.written ?_)
  exact (quiet_appendEvent _ _ _ _ _ _).trans (quiet_audit _ _ _ _ _)

/-- A relaunch under a checkpoint launches the specification that is still the registered one. -/
theorem written_relaunched {id : String} {task : Task} (cp : Checkpoint) (now : UInt64) {w : World}
    (ht : (shutdownRuntime h id w).1.mem.tasks.lookup id = some task)
    (hperm : Launch.permitted R h
      ⟨id, task, beginRecycle h id now (shutdownRuntime h id w).1, false⟩) :
    Written codec h R (shutdownRuntime h id w).1 (relaunchLive h id task cp now w).1 ∧
      id ∈ (relaunchLive h id task cp now w).1.mem.tasks := by
  unfold relaunchLive
  dsimp only
  generalize (shutdownRuntime h id w).1 = w₁ at hperm ht ⊢
  have hbegin : Settles codec h R id w₁ (beginRecycle h id now w₁) :=
    settles_advance_save (KeyMap.mem_iff_lookup.mpr ⟨task, ht⟩) (by decide)
  have hlaunch : Launchable R id (captureDir id task (beginRecycle h id now w₁).mem)
      (beginRecycle h id now w₁) := by
    refine ⟨_, lookup_advance_self h w₁ ht _ _ _, captureDir_congr ?_ rfl, ?_⟩
    · exact Task.attempt_spec _ _ _ _
    · rw [Task.attempt_spec]
      exact hperm
  have hre := @idle_relaunch h R id task cp _ hlaunch
  exact ⟨hbegin.written.trans hre.written, mem_idle hre hlaunch.mem⟩

theorem written_relaunchLive {id : String} (hs : R.stops id) {task : Task} (cp : Checkpoint)
    (now : UInt64) {w : World} (ht : w.mem.tasks.lookup id = some task)
    (hperm : Launch.permitted R h
      ⟨id, task, beginRecycle h id now (shutdownRuntime h id w).1, false⟩) :
    Written codec h R w (relaunchLive h id task cp now w).1 ∧
      id ∈ (relaunchLive h id task cp now w).1.mem.tasks := by
  have hshut := @idle_shutdownRuntime h R id hs w
  rw [← hshut.tasks] at ht
  obtain ⟨hre, hin⟩ := @written_relaunched codec h R id task cp now w ht hperm
  exact ⟨hshut.written.trans hre, hin⟩

theorem written_recycle {id : String} (hs : R.stops id) {w : World} (hl : Live w.ledger)
    (hf : ∀ l ∈ recycleLaunch codec h (id, w), l.permitted R h) :
    Written codec h R w (recycle codec h id w).1 := by
  obtain ⟨hw, -⟩ := @written_checkpointLive codec h R "recycle" "recycle checkpoint failed: " id
    (h.now w.calls) w.ask.ask hl
  have hask : Written codec h R w w.ask.ask := ((quiet_ask w).trans (quiet_ask _)).written
  unfold recycleLaunch at hf
  dsimp only at hf
  rcases recycle_cases codec h w id with ⟨w', r, hc, -, heq⟩ | ⟨w', task, cp, hc, hmem, hcases⟩
  · rw [hc] at hw
    rw [heq]
    exact hask.trans hw
  · rw [hc] at hw hf
    obtain ⟨-, ht, -⟩ := checkpointLive_ok codec h hc
    have ht' : w'.mem.tasks.lookup id = some task := by
      rw [hmem]
      exact ht
    obtain ⟨hre, hin⟩ := @written_relaunchLive codec h R id hs task cp (h.now w.calls) w' ht'
      (hf _ rfl)
    have hall := (hask.trans hw).trans hre
    rcases hcases with ⟨w₂, cleanup, e, hr, heq⟩ | ⟨w₂, cleanup, o, hr, heq⟩
    · rw [hr] at hall hin
      rw [heq]
      exact hall.trans (written_rollBack e _ hin)
    · rw [hr] at hall hin
      rw [heq]
      obtain ⟨u, hu⟩ := KeyMap.mem_iff_lookup.mp hin
      exact hall.trans (written_finishRecycle cp _ cleanup o _ hu)

end MemMux
