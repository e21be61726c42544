/-
MemMux/TrailMoves.lean

The handlers and the pump, by what they record.

On a host that commits every statement each of them tells what it did (`Follows`): a launch, a resume
and a recycle end with an event and a decision that the provider is up, a hibernation, a termination and
a forget request with both that it is down.  An exit is told by an event alone, and a recycle that is
rolled back by a decision alone.  `told_perform` is the whole operation.
-/
import MemMux.Pass
import MemMux.Residency
import MemMux.TrailKeeps

namespace MemMux.Trail

open Retelling

section Operations

variable (codec : CheckpointCodec) (h : Host) (hc : ∀ n, h.commit n = true)
include hc

/-- A statement commits, and is an entry. -/
theorem tells_exec {q : Stmt} {x : Entry} {P Q : Account → World → Prop} {w : World}
    (hacc : w.disk.tables.accepts q = true) (hq : entry (.commit q) = some x)
    (hfit : ∀ a, P a w → Q (a.write x) (exec h q w)) :
    Tells (fun w => w.durable.log) Account.read P Q w (exec h q w) := by
  have hex : executes h q w = true := by
    unfold executes
    rw [hc, hacc]
    rfl
  refine ⟨[.commit q], ?_, fun a ha => ?_⟩
  · unfold exec
    rw [if_pos hex]
    rfl
  · rw [List.foldl_cons, a.read_entry hq]
    exact hfit a ha

theorem told_audit {id : Option String} {act reason : String} {e : Option JsonObject} {x : Entry}
    {up up' : Set String} {w : World} (hq : ofDecision id act e = some x)
    (hfit : ∀ a, Fits up a w → Fits up' (a.write x) w) :
    Told up up' w (audit h id act reason e w) :=
  tells_exec h hc (q := .recordDecision _) rfl hq fun a ha => (hfit a ha).congr rfl rfl

theorem told_event {id : Option String} {c t s : String} {x : Entry} {up up' : Set String} {w : World}
    (hq : ofEvent id t = some x)
    (hfit : ∀ a, Fits up a w → Fits up' (a.write x) w) : Told up up' w (event h id c t s w) :=
  tells_exec h hc (q := .appendEvent _) rfl hq fun a ha => (hfit a ha).congr rfl rfl

/-- A change that is told after it was made: `v` has it already, and `u` is where it is written. -/
theorem told_late {id : Option String} {act reason : String} {e : Option JsonObject} {x : Entry}
    {up : Set String} {w v u : World} (hd : v.durable = w.durable)
    (hfit : ∀ a, Fits up a w → Fits up (a.write x) v) (hk : Keeps v u)
    (hq : ofDecision id act e = some x) : Told up up w (audit h id act reason e u) := by
  have hmade : Tells (fun w => w.durable.log) Account.read (Fits up)
      (fun a u => Fits up (a.write x) u) w v := .of_eq (by rw [hd]) hfit
  have hkept : Tells (fun w => w.durable.log) Account.read (fun a u => Fits up (a.write x) u)
      (fun a u => Fits up (a.write x) u) v u := hk.tells fun a hf => hf.congr hk.worktrees hk.stage
  refine (hmade.trans hkept).trans ?_
  exact tells_exec h hc (q := .recordDecision _) rfl hq fun a hf => hf.congr rfl rfl

/-- Two statements: what the first makes of the account is read by the second. -/
theorem told_pair {q p : Stmt} {x y : Entry} {up up' : Set String} {w : World}
    (hacc : ∀ tb : Tables, tb.accepts q = true) (hacc' : ∀ tb : Tables, tb.accepts p = true)
    (hq : entry (.commit q) = some x) (hq' : entry (.commit p) = some y)
    (hfit : ∀ a, Fits up a w → Fits up' ((a.write x).write y) w) :
    Told up up' w (exec h p (exec h q w)) := by
  have hfirst := @tells_exec h hc q x (Fits up) (fun a u => Fits up' (a.write y) u) w (hacc _) hq
    fun a ha => (hfit a ha).congr rfl rfl
  exact hfirst.trans (tells_exec h hc (hacc' _) hq' fun a ha => ha.congr rfl rfl)

/-- An event and a decision tell that `id` is up. -/
theorem told_started {id c t s act reason : String} {p e : Option JsonObject} {up : Set String}
    (w : World) (ht : eventTypes.lookup t = some .shown)
    (ha : actions.lookup act = some (.news .up)) :
    Told up (insert id up) w
      (audit h (some id) act reason e (appendEvent h (some id) c t s p w)) := by
  refine told_pair h hc (q := .appendEvent _) (p := .recordDecision _) (fun _ => rfl)
    (fun _ => rfl) ?_ ?_ fun a hf => hf.started id
  · show (eventTypes.lookup t).map (· id) = some (.shown id)
    rw [ht]
    rfl
  · show (actions.lookup act).map (· id) = some (.news .up id)
    rw [ha]
    rfl

/-- An event and a decision, in either order, tell that `id` is down. -/
theorem told_stopped {id : String} {q p : Stmt} {up : Set String} (w : World)
    (hacc : ∀ tb : Tables, tb.accepts q = true) (hacc' : ∀ tb : Tables, tb.accepts p = true)
    (hq : entry (.commit q) = some (.news .down id) ∧ entry (.commit p) = some (.hidden id) ∨
      entry (.commit q) = some (.hidden id) ∧ entry (.commit p) = some (.news .down id)) :
    Told up (up \ {id}) w (exec h p (exec h q w)) := by
  rcases hq with ⟨hdown, hhidden⟩ | ⟨hhidden, hdown⟩
  · exact told_pair h hc hacc hacc' hdown hhidden fun a hf => hf.stopped id
  · exact told_pair h hc hacc hacc' hhidden hdown fun a hf => hf.stopped id

/-! ### Worktrees and launches -/

theorem told_ensureWorktree (id : String) (task : Task) (up : Set String) (w : World) :
    Told up up w (ensureWorktree h id task w).1 := by
  unfold ensureWorktree
  cases w.mem.worktrees.lookup id with
  | some handle => exact .refl w
  | none =>
      have hcreate := keeps_createWorktree h id task w
      rcases hcr : createWorktree h id task w with ⟨w', e | handle⟩ <;> rw [hcr] at hcreate
      · have hskip : Keeps w' (audit h (some id) "worktree_skipped"
            ("no isolated worktree (" ++ e ++ "); launching in the repository path") none w') :=
          keeps_audit h rfl w'
        exact (Keeps.trans hcreate hskip).told up
      · -- the decision and the event do not read who holds a worktree
        let v : World :=
          { w' with mem := { w'.mem with worktrees := w'.mem.worktrees.insert id handle } }
        have hcut : ∀ a, Fits up a w' → Fits up (a.write (.cut id)) v := fun a hf =>
          hf.cut (fun i => KeyMap.mem_insert_iff _ _ _ _) rfl
        have htold : Told up up w' (audit h (some id) "worktree_created"
            ("isolated worktree at " ++ handle.path ++ " on " ++ handle.branch) none v) :=
          told_late h hc (x := .cut id) (v := v) rfl hcut (.refl v) rfl
        exact Keeps.then hcreate (htold.keeps (keeps_event h rfl _))

/-- A worktree that is given up is removed, or left to itself. -/
theorem told_cleanupWorktree (id : String) (up : Set String) (w : World) :
    Told up up w (cleanupWorktree h id w) := by
  unfold cleanupWorktree
  cases w.mem.worktrees.lookup id with
  | none => exact .refl w
  | some handle =>
      let v : World := { w with mem := { w.mem with worktrees := w.mem.worktrees.erase id } }
      have huncut : ∀ a, Fits up a w → Fits up (a.write (.uncut id)) v := fun a hf =>
        hf.uncut rfl rfl
      have htold : ∀ reason act u, ofDecision (some id) act none = some (.uncut id) → Keeps v u →
          Told up up w (audit h (some id) act reason none u) := fun _ _ _ hq hk =>
        told_late h hc (x := .uncut id) (v := v) rfl huncut hk hq
      have hdirty := keeps_dirtyManifest h handle v
      show Told up up w (discardWorktree h id handle v)
      unfold discardWorktree
      rcases hd : dirtyManifest h handle v with ⟨w', manifest⟩
      rw [hd] at hdirty
      dsimp only
      cases manifest.filter (·.dirty) with
      | some m => exact (htold _ _ w' rfl hdirty).keeps (keeps_event h rfl _)
      | none => exact htold _ _ _ rfl (Keeps.trans hdirty (keeps_removeWorktree h handle w'))

/-- A launch is told.  One that failed is not, and neither is the agent heard of. -/
theorem follows_launchQueued (id : String) (snapshot : Task) (now : UInt64) (w : World) :
    Follows w (launchQueued h id snapshot now w).1 := by
  obtain ⟨wt, hmem⟩ := ensureWorktree_mem h w id snapshot
  obtain ⟨w₁, cwd, he, hcases⟩ := launchQueued_cases h w id snapshot now
  have hensure := told_ensureWorktree h hc id snapshot (residents w.mem) w
  rw [he] at hensure hmem
  have hspawned : Told (residents w.mem) (residents w.mem) w
      (attemptSpawn h id (some cwd) (beginLaunch h id now w₁)) :=
    (told_beginLaunch h id now hensure).keeps (.of_write rfl rfl rfl)
  have hrt : (attemptSpawn h id (some cwd) (beginLaunch h id now w₁)).mem.runtimes
      = w.mem.runtimes := by
    show w₁.mem.runtimes = w.mem.runtimes
    rw [hmem]
  generalize attemptSpawn h id (some cwd) (beginLaunch h id now w₁) = w₂ at hspawned hcases hrt
  rcases hcases with ⟨pid, -, heq⟩ | ⟨-, heq⟩ <;> rw [heq]
  · let rt : RuntimeInstance := ⟨snapshot.spec.provider, pid, some cwd⟩
    let w₃ := reserve id snapshot.spec.resourceClass (installRuntime h id rt
      (saveTask h id (advance h id .active "provider running" now w₂)))
    let w₄ : World :=
      { w₃ with mem := { w₃.mem with queuedReasons := w₃.mem.queuedReasons.erase id } }
    have hinstalled : Keeps w₂ w₄ := (keeps_move h id _ _ now w₂).trans (.of_mem rfl rfl rfl)
    have hup : residents (launched h id snapshot.spec.resourceClass rt now w₂).mem
        = insert id (residents w.mem) := by
      refine @residents_insert w.mem _ id rt ?_
      show w₂.mem.runtimes.insert id rt = w.mem.runtimes.insert id rt
      rw [hrt]
    exact Told.follows ((hspawned.keeps hinstalled).trans (told_started h hc w₄ rfl rfl)) hup
  · refine Told.follows (hspawned.keeps (keeps_launchFailed h id _ now w₂)) ?_
    rw [residents, residents, ← hrt]
    rfl

theorem follows_admitOne (now : UInt64) (w : World) (id : String) :
    Follows w (admitOne h now w id) := by
  unfold admitOne
  cases w.mem.tasks.lookup id with
  | none => exact .refl w
  | some snapshot =>
      have haudit : Follows w (audit h (some id) "admitted" "scored in and fits the budget" none w) :=
        (keeps_audit h rfl w).follows rfl
      refine (haudit.trans (follows_launchQueued h hc id snapshot now _)).trans ?_
      exact Keeps.follows (.of_mem rfl rfl rfl) rfl

theorem follows_tryAdmitPending (now : UInt64) (w : World) :
    Follows w (tryAdmitPending h now w) := by
  have hplan : Quiet w (planPass now w).1 := quiet_planPass now w
  obtain ⟨hsorted, -⟩ := collectCandidates_sorted now
    (w.mem.pendingAdmission.dedup.insertionSort (· ≤ ·)) w.mem
  have hpass : Follows w (planPass now w).1 :=
    Keeps.follows (.of_mem hplan.worktrees hsorted.stage rfl) hsorted.runtimes
  rw [tryAdmitPending_eq]
  exact (hpass.trans (follows_foldl (follows_admitOne h hc now) _ _)).trans
    (follows_foldl (follows_deferOne h) _ _)

theorem follows_startTask (id : String) (w : World) : Follows w (startTask h id w).1 := by
  have hask : Follows w w.ask := (keeps_ask w).follows rfl
  unfold startTask
  dsimp only
  split
  · exact hask
  · rw [ask_mem]
    cases w.mem.tasks.lookup id with
    | none => exact hask
    | some snapshot =>
        dsimp only
        split
        · exact hask
        · let w₀ : World := { w.ask with
            mem := { w.mem with
              pendingAdmission := id :: w.mem.pendingAdmission.filter (· ≠ id) } }
          have hqueued : Follows w w₀ := Keeps.follows (.of_mem rfl rfl rfl) rfl
          exact hqueued.trans (follows_tryAdmitPending h hc (h.now w.calls) w₀)

/-! ### Restart, terminate and retire -/

theorem follows_restart (id : String) (w : World) : Follows w (restart h id w).1 := by
  have hask : Follows w w.ask := (keeps_ask w).follows rfl
  unfold restart
  rcases hp : prepareRestart h id w with ⟨w', r⟩
  obtain ⟨-, rfl, e, rfl⟩ | ⟨-, u, rfl, hu, rfl⟩ := prepareRestart_cases hp
  · exact hask
  · obtain ⟨ts, hmem, -⟩ := forceRequeue_mem h id (h.now w.calls) 6 w.ask
    have hqueued : Follows w.ask (forceRequeue h id (h.now w.calls) 6 w.ask) :=
      (keeps_forceRequeue h id (h.now w.calls) 6 w.ask).follows (by rw [hmem])
    have hevent : ∀ u, Keeps u (event h (some id) "lifecycle" "restarted" "info" u) :=
      fun u => keeps_event h rfl u
    have hsaved := (keeps_save h id (forceRequeue h id (h.now w.calls) 6 w.ask)).trans (hevent _)
    exact ((hask.trans hqueued).trans (hsaved.follows rfl)).trans
      (follows_launchQueued h hc id u _ _)

theorem follows_terminate (id : String) (w : World) : Follows w (terminate h id w).1 := by
  have hask : Keeps w w.ask := keeps_ask w
  unfold terminate
  dsimp only
  split
  · exact hask.follows rfl
  · -- the provider is down before the worktree is given up, and the record follows both
    let w₁ := stopLive h id
      (reapTaskProcesses h id ((w.ask.mem.runtimes.lookup id).bind (·.pid)) w.ask)
    have hstop : Keeps w w₁ :=
      (hask.trans (keeps_reapTaskProcesses h id _ w.ask)).trans (keeps_stopLive h id _)
    have hrt₁ : w₁.mem.runtimes = w.mem.runtimes.erase id := by
      obtain ⟨hist, hmem⟩ := stopLive_mem h
        (reapTaskProcesses h id ((w.ask.mem.runtimes.lookup id).bind (·.pid)) w.ask) id
      rw [hmem, (quiet_reapTaskProcesses id _ w.ask).runtimes]
      rfl
    let w₂ := releaseReservation id (cleanupWorktree h id w₁)
    have hdown : Told (residents w.mem) (residents w.mem) w w₂ :=
      (hstop.then (told_cleanupWorktree h hc id _ w₁)).keeps (keeps_releaseReservation id _)
    let w₃ := saveTask h id (drive h id (h.now w.calls) w₂)
    have hdriven : Keeps w₂ w₃ := (keeps_drive h id _ w₂).trans (keeps_save h id _)
    obtain ⟨ts, hmem₃, -⟩ := drive_mem h w₂ id (h.now w.calls)
    have hrt₃ : w₃.mem.runtimes = w.mem.runtimes.erase id := by
      rw [← hrt₁]
      show (drive h id (h.now w.calls) w₂).mem.runtimes = _
      rw [hmem₃]
      show (cleanupWorktree h id w₁).mem.runtimes = _
      rw [cleanupWorktree_mem]
    exact Told.follows ((hdown.keeps hdriven).trans
      (told_stopped h hc (q := .recordDecision _) (p := .appendEvent _) w₃ (fun _ => rfl)
        (fun _ => rfl) (.inl ⟨rfl, rfl⟩))) (residents_erase hrt₃)

/-- The exit of a provider is told by an event alone. -/
theorem follows_retire (now : UInt64) {w : World} {id : String} (hid : id ∈ w.mem.runtimes) :
    Follows w (retire h now w id) := by
  let w₀ : World := { w with mem := { w.mem with runtimes := w.mem.runtimes.erase id } }
  let w₁ := reapTaskProcesses h id ((w.mem.runtimes.lookup id).bind (·.pid)) (flushHistory h id w₀)
  have hdrop : Keeps w (flushHistory h id w₀) := .of_mem rfl rfl rfl
  have hreap : Keeps w w₁ := hdrop.trans (keeps_reapTaskProcesses h id _ _)
  let w₂ := retireTask h id now w₁
  let w₃ := releaseReservation id (cleanupWorktree h id w₂)
  have hdown : Told (residents w.mem) (residents w.mem) w w₃ :=
    ((hreap.trans (keeps_retireTask h id now w₁)).then (told_cleanupWorktree h hc id _ w₂)).keeps
      (keeps_releaseReservation id _)
  have hexit : Told (residents w.mem) (residents w.mem \ {id}) w₃ (retire h now w id) :=
    told_event h hc rfl fun a hf => hf.exited hid
  exact Told.follows (hdown.trans hexit) (residents_erase (retire_runtimes h now w id))

theorem follows_retireAll (now : UInt64) {ids : List String} (hn : ids.Nodup) {w : World}
    (hids : ∀ id ∈ ids, id ∈ w.mem.runtimes) : Follows w (ids.foldl (retire h now) w) := by
  induction ids generalizing w with
  | nil => exact .refl w
  | cons id ids ih =>
      obtain ⟨hid, hrest⟩ := List.forall_mem_cons.mp hids
      obtain ⟨hnot, hn'⟩ := List.nodup_cons.mp hn
      refine Tells.trans (follows_retire h hc now hid) (ih hn' fun i hi => ?_)
      rw [retire_runtimes, KeyMap.mem_erase_iff]
      exact ⟨fun heq => hnot (heq ▸ hi), hrest i hi⟩

theorem follows_retireExited (now : UInt64) (w : World) : Follows w (retireExited h now w) := by
  have hdrain := keeps_drainRuntimes h (walk h w.mem.runtimes w) w.ask
  have hrt := (@quiet_drainRuntimes h (walk h w.mem.runtimes w) w.ask).runtimes
  have hsub := drainRuntimes_sublist (h := h) (walk h w.mem.runtimes w) w.ask
  have hperm := h.order_perm w.calls w.mem.runtimes.keys
  unfold retireExited
  rcases hd : drainRuntimes h (walk h w.mem.runtimes w) w.ask with ⟨w₁, exited⟩
  rw [hd] at hdrain hrt hsub
  have hdrained : Follows w w₁ := ((keeps_ask w).trans hdrain).follows hrt
  refine hdrained.trans (follows_retireAll h hc now ?_ fun id hid => ?_)
  · exact (hperm.nodup_iff.mpr w.mem.runtimes.nodupKeys).sublist hsub
  · dsimp only at hrt
    rw [hrt]
    exact hperm.mem_iff.mp (hsub.subset hid)

/-! ### Checkpoints -/

theorem follows_freeze (id : String) (cp : Checkpoint) (now : UInt64) (w : World) :
    Follows w (freeze h id cp now w) := by
  have hshut := keeps_shutdownRuntime h id w
  obtain ⟨hist, hmem⟩ := shutdownRuntime_mem h w id
  unfold freeze
  rcases hs : shutdownRuntime h id w with ⟨w', cleanup⟩
  rw [hs] at hshut hmem
  let w₁ := saveTask h id (advance h id .hibernated "provider stopped; task frozen" now
    (advance h id .checkpointing "capturing checkpoint" now (releaseReservation id w')))
  have hmoved : Keeps (releaseReservation id w') w₁ :=
    (keeps_advance h id _ _ now _).trans (keeps_move h id _ _ now _)
  have hdown : Keeps w w₁ := Keeps.trans hshut ((keeps_releaseReservation id w').trans hmoved)
  have hrt : w'.mem.runtimes = w.mem.runtimes.erase id := by
    dsimp only at hmem
    rw [hmem]
  exact Told.follows (hdown.then (told_stopped h hc (q := .appendEvent _)
    (p := .recordDecision _) w₁ (fun _ => rfl) (fun _ => rfl) (.inr ⟨rfl, rfl⟩)))
    (residents_erase hrt)

theorem follows_hibernate (id : String) (w : World) : Follows w (hibernate codec h id w).1 := by
  have hlive := (keeps_ask w).trans (keeps_checkpointLive codec h "hibernate" "checkpoint failed: "
    id (h.now w.calls) rfl w.ask)
  rcases hibernate_cases codec h w id with ⟨w', r, hl, hmem, heq⟩ | ⟨w', task, cp, hl, hmem, heq⟩ <;>
    rw [hl] at hlive <;> rw [heq]
  · exact hlive.follows (by rw [hmem])
  · have hcaptured : Follows w w' := Keeps.follows hlive (by rw [hmem])
    exact hcaptured.trans (follows_freeze h hc id cp _ w')

/-! ### Resume and recycle -/

/-- A thawed agent is told to be up. -/
theorem told_thaw (id : String) (cls : ResourceClass) (o : ResumeOutcome) (now : UInt64)
    (up : Set String) (w : World) : Told up (insert id up) w (thaw h id cls o now w) := by
  let w₁ := reserve id cls (wakeUp h id "restoring from checkpoint" "provider resumed" now w)
  have hwake : Keeps w w₁ := (keeps_wakeUp h id _ _ now w).trans (.of_mem rfl rfl rfl)
  have hdone : Keeps w (exec h (.deleteCheckpoints id) w₁) := hwake.trans (keeps_exec h _ rfl w₁)
  exact hdone.then (told_started h hc _ rfl rfl)

theorem follows_resume (id : String) (w : World) : Follows w (resume codec h id w).1 := by
  have hask : Keeps w w.ask := keeps_ask w
  rcases resume_cases codec h w id with ⟨r, -, heq⟩ | ⟨task, cp, -, hcases⟩
  · rw [heq]
    exact hask.follows rfl
  · have hre := hask.trans (keeps_relaunch h id task cp w.ask)
    rcases hcases with ⟨w', e, hr, hmem, heq⟩ | ⟨w', o, rt, hist, hr, hmem, heq⟩ <;>
      rw [hr] at hre <;> rw [heq]
    · exact (Keeps.trans hre (keeps_audit h rfl w')).follows (by rw [audit_mem, hmem])
    · refine Told.follows (Keeps.then hre (told_thaw h hc id _ o _ _ w')) ?_
      refine @residents_insert w.mem _ id rt ?_
      show w'.mem.runtimes = _
      rw [hmem]

/-- A recycle that is rolled back is told by a decision alone. -/
theorem told_rollBack {id : String} (e : String) (now : UInt64) {up : Set String} (hid : id ∈ up)
    (w : World) : Told up (up \ {id}) w (rollBack h id e now w) :=
  (keeps_move h id .failed "recycle resume failed" now w).then
    (told_audit h hc rfl fun _ hf => hf.rolledBack hid)

theorem told_finishRecycle (id : String) (cp : Checkpoint) (rss : Nat) (cleanup : String)
    (o : ResumeOutcome) (now : UInt64) (up : Set String) (w : World) :
    Told up (insert id up) w (finishRecycle h id cp rss cleanup o now w) := by
  have hwake := (keeps_ask w).trans
    (keeps_wakeUp h id "restoring from checkpoint" "provider recycled" now w.ask)
  exact (hwake.trans (keeps_exec h (.deleteCheckpoints id) rfl _)).then
    (told_started h hc _ rfl rfl)

theorem follows_recycle (id : String) (w : World) : Follows w (recycle codec h id w).1 := by
  have hlive := ((keeps_ask w).trans (keeps_ask _)).trans (keeps_checkpointLive codec h "recycle"
    "recycle checkpoint failed: " id (h.now w.calls) rfl w.ask.ask)
  rcases recycle_cases codec h w id with ⟨w', r, hl, hmem, heq⟩ | ⟨w', task, cp, hl, hmem, hcases⟩ <;>
    rw [hl] at hlive
  · rw [heq]
    exact hlive.follows (by rw [hmem])
  · obtain ⟨hid, -, -⟩ := checkpointLive_ok codec h hl
    have hup : id ∈ residents w.mem := hid
    have hre := Keeps.trans hlive (keeps_relaunchLive h id task cp (h.now w.calls) w')
    have hlaunch := relaunchLive_runtimes h id task cp (h.now w.calls) w'
    rw [hmem] at hlaunch
    rcases hcases with ⟨w₂, cleanup, e, hr, heq⟩ | ⟨w₂, cleanup, o, hr, heq⟩ <;>
      rw [hr] at hre hlaunch <;> rw [heq]
    · obtain ⟨o, rt, ho, -⟩ | ⟨-, hrt⟩ := hlaunch
      · cases ho
      · exact Told.follows (Keeps.then hre (told_rollBack h hc e _ hup w₂)) (residents_erase hrt)
    · obtain ⟨o', rt, -, hrt⟩ | ⟨⟨e, he⟩, -⟩ := hlaunch
      · refine Told.follows (Keeps.then hre (told_finishRecycle h hc id cp _ cleanup o _ _ w₂)) ?_
        refine (@residents_insert { w.mem with runtimes := w.mem.runtimes.erase id } _ id rt
          hrt).trans ?_
        rw [@residents_erase w.mem { w.mem with runtimes := w.mem.runtimes.erase id } id rfl,
          Set.insert_sdiff_singleton]
      · cases he

/-! ### Registration -/

theorem follows_forget (id : String) (w : World) : Follows w (forget h id w).1 := by
  unfold forget
  split
  · exact .refl w
  · next hid =>
    cases w.mem.tasks.lookup id with
    | none => exact .refl w
    | some task =>
        dsimp only
        split
        · exact .refl w
        · generalize hw : (⟨{ w.mem with
            tasks := w.mem.tasks.erase id, histories := w.mem.histories.erase id },
            w.durable, w.procs, w.calls⟩ : World) = w₀
          have hdel := keeps_deleteTask h id w₀
          have hmem := deleteTask_mem h w₀ id
          have hdone := deleteTask_commits h hc id w₀
          rcases hd : deleteTask h id w₀ with ⟨w₁, b⟩
          rw [hd] at hdel hmem hdone
          dsimp only at hdone
          subst hdone
          have hkeep : Keeps w w₁ := by
            refine Keeps.trans ?_ hdel
            rw [← hw]
            exact .of_mem rfl rfl rfl
          have hrt : w₁.mem.runtimes = w.mem.runtimes.erase id := by
            rw [KeyMap.erase_of_not_mem hid]
            dsimp only at hmem
            rw [hmem, ← hw]
          exact Told.follows (hkeep.then (told_stopped h hc (q := .recordDecision _)
            (p := .appendEvent _) w₁ (fun _ => rfl) (fun _ => rfl) (.inl ⟨rfl, rfl⟩)))
            (residents_erase hrt)

/-! ### The pump -/

/-- A change of the pressure, and the decision that names the new stage. -/
theorem told_stage {reason severity : String} {evidence : Option JsonObject} {up : Set String}
    {w w₁ : World} (hd : w₁.durable = w.durable) (hwt : w₁.mem.worktrees = w.mem.worktrees)
    (hev : stageEntry evidence = some (.stage w₁.mem.pressureStage)) :
    Told up up w (event h none "pressure" "pressure_stage" severity
      (audit h none "pressure_stage" reason evidence w₁)) := by
  have hq : ofDecision none "pressure_stage" evidence = some (.stage w₁.mem.pressureStage) := hev
  exact (told_late h hc hd (fun _ hf => hf.staged hwt) (.refl w₁) hq).keeps (keeps_event h rfl _)

theorem follows_readPressure (now : UInt64) (w : World) :
    Follows w (readPressure h now w).1 := by
  have hrt : (readPressure h now w).1.mem.runtimes = w.mem.runtimes :=
    (quiet_readPressure now w).runtimes
  have hsame : residents (readPressure h now w).1.mem = residents w.mem := by
    rw [residents, residents, hrt]
  refine Told.follows ?_ hsame
  unfold readPressure
  dsimp only
  split
  · refine told_stage h hc rfl rfl ?_
    show (stageNamed _).map Entry.stage = _
    rw [stageNamed_debug]
    rfl
  · next hsame =>
    refine Keeps.told ?_ _
    exact .of_mem rfl (not_not.mp hsame) rfl

theorem follows_hibernateLow (evidence : JsonObject) (w : World) :
    Follows w (actHibernateLowPriority codec h evidence w) := by
  unfold actHibernateLowPriority
  dsimp only
  split
  · exact (keeps_ask w).follows rfl
  · next id _ _ =>
    have hann : Follows w (audit h (some id) "hibernate_low_priority"
        PressureAction.hibernateLowPriority.describe (some evidence) w.ask) :=
      ((keeps_ask w).trans (keeps_audit h rfl _)).follows rfl
    exact Told.keeps (hann.trans (follows_hibernate codec h hc id _))
      (keeps_event h rfl _)

theorem follows_recycleBloated (evidence : JsonObject) (w : World) :
    Follows w (actRecycleBloated codec h evidence w) := by
  unfold actRecycleBloated
  cases hb : bloatedRecycle h evidence w with
  | none => exact (keeps_ask w).follows rfl
  | some x =>
      obtain ⟨reason, hx⟩ := bloatedRecycle_some h hb
      have hann : Follows w x.2 := by
        rw [hx]
        exact ((keeps_ask w).trans (keeps_audit h rfl _)).follows rfl
      exact Told.keeps (hann.trans (follows_recycle codec h hc x.1 x.2))
        (keeps_event h rfl _)

theorem follows_actTerminateVictim (id : String) (evidence : JsonObject) (w : World) :
    Follows w (actTerminateVictim h id evidence w) := by
  have hann : Follows w (audit h (some id) "terminate_lowest_priority"
      PressureAction.terminateLowestPriorityTree.describe (some evidence) w) :=
    (keeps_audit h rfl w).follows rfl
  exact Told.keeps (hann.trans (follows_terminate h hc id _)) (keeps_event h rfl _)

theorem follows_applyAction (evidence : JsonObject) (s : World × Option String)
    (a : PressureAction) : Follows s.1 (applyAction codec h evidence s a).1 := by
  obtain ⟨w, preserved⟩ := s
  have advisory : ∀ e : PressureAction, Follows w
      (event h none "pressure" "pressure_action_advisory" "info"
        (audit h none "pressure_action_advisory" e.describe (some evidence) w)) := fun _ =>
    ((keeps_audit h rfl w).trans (keeps_event h rfl _)).follows rfl
  cases a with
  | reclaimIdleChildren =>
      exact (keeps_actReclaimEscaped h evidence w).follows (quiet_actReclaimEscaped evidence w).runtimes
  | hibernateLowPriority => exact follows_hibernateLow codec h hc evidence w
  | recycleBloatedProviders => exact follows_recycleBloated codec h hc evidence w
  | preserveGitState => exact follows_actPreserveGitState codec h evidence w
  | terminateLowestPriorityTree =>
      cases preserved with
      | none => exact .refl w
      | some id => exact follows_actTerminateVictim h hc id evidence w
  | blockLowPriorityStarts => exact (keeps_event h rfl w).follows rfl
  | notifyOperator =>
      exact ((keeps_audit h rfl w).trans (keeps_event h rfl _)).follows rfl
  | routineCompaction => exact advisory _
  | trimRenderCaches => exact advisory _
  | rotateBuffers => exact advisory _
  | stopIdleSharedWorkers => exact advisory _
  | reduceWorkerConcurrency => exact advisory _

theorem follows_applyActions (evidence : JsonObject) (as : List PressureAction)
    (s : World × Option String) : Follows s.1 (as.foldl (applyAction codec h evidence) s).1 := by
  induction as generalizing s with
  | nil => exact .refl _
  | cons a as ih => exact (follows_applyAction codec h hc evidence s a).trans (ih _)

theorem follows_pressureTick (now : UInt64) (w : World) : Follows w (pressureTick codec h now w) := by
  have hread := follows_readPressure h hc now w
  unfold pressureTick
  split
  · exact .refl w
  · rcases hr : readPressure h now w with ⟨w₁, stage, evidence⟩
    rw [hr] at hread
    dsimp only
    split
    · exact hread
    · exact Tells.trans hread (follows_applyActions codec h hc evidence stage.actions (w₁, none))

theorem follows_triggerRecycle (w : World) (t : String × Nat × String) :
    Follows w (triggerRecycle codec h w t) := by
  have hann : Follows w (announceTrigger h w t) := (keeps_audit h rfl w).follows rfl
  exact hann.trans (follows_recycle codec h hc t.1 (announceTrigger h w t))

theorem follows_checkRecycleTriggers (now : UInt64) (w : World) :
    Follows w (checkRecycleTriggers codec h now w) := by
  have hmeasured : Follows w (measureProviders h now w).1 := Keeps.follows (.of_mem rfl rfl rfl) rfl
  unfold checkRecycleTriggers
  split
  · exact .refl w
  · exact hmeasured.trans (follows_foldl (follows_triggerRecycle codec h hc) _ _)

theorem follows_pump (now : UInt64) (w : World) : Follows w (pump codec h now w) := by
  have hsample : ∀ w, Follows w (sampleTick h now w) := fun w =>
    (keeps_sampleTick h now w).follows (quiet_sampleTick now w).runtimes
  have hfirst := (follows_retireExited h hc now w).trans (hsample _)
  exact ((hfirst.trans (follows_pressureTick codec h hc now _)).trans
    (follows_checkRecycleTriggers codec h hc now _)).trans (follows_tryAdmitPending h hc now _)

/-- **What an operation records tells what it did**: whichever agents ran, held a worktree or were under
which pressure, the account that says so says it again afterwards. -/
theorem told_perform (i : Input) (w : World) : Follows w (perform codec h i w) := by
  have hbegin : Follows w (w.begin h) := Keeps.follows (.of_mem rfl rfl rfl) rfl
  cases i with
  | tick =>
      have hpump : perform codec h .tick w = pump codec h (h.now 0) (w.begin h).ask := rfl
      have hask : Follows (w.begin h) (w.begin h).ask := (keeps_ask _).follows rfl
      rw [hpump]
      exact (hbegin.trans hask).trans (follows_pump codec h hc _ _)
  | request r =>
      have hhandle : perform codec h (.request r) w = (handle codec h r (w.begin h)).1 := rfl
      rw [hhandle]
      refine hbegin.trans ?_
      generalize w.begin h = w
      cases r with
      | createTask req => exact (keeps_createTask h req w).follows (createTask_runtimes h req w)
      | forgetTask id => exact follows_forget h hc id w
      | startTask id => exact follows_startTask h hc id w
      | restartTask id => exact follows_restart h hc id w
      | terminateTask id => exact follows_terminate h hc id w
      | hibernateTask id => exact follows_hibernate codec h hc id w
      | resumeTask id => exact follows_resume codec h hc id w
      | recycleTask id => exact follows_recycle codec h hc id w
      | addWorkspace path => exact (keeps_addWorkspace h path w).follows (quiet_addWorkspace path w).runtimes
      | removeWorkspace id =>
          exact (keeps_removeWorkspace h id w).follows (quiet_removeWorkspace id w).runtimes
      | daemonInfo => exact .refl w
      | getTask id => exact .refl w
      | listTasks => exact .refl w
      | listWorkspaces => exact .refl w
      | systemPressure => exact .refl w
      | readEvents afterSeq limit => exact .refl w
      | getScreen id => exact .refl w
      | readHistory id cursor limit => exact .refl w
      | attach id => exact .refl w

end Operations

end MemMux.Trail
