/-
MemMux/ChoreMoves.lean

The helpers of the handlers as sequences of chores.

Most helpers are `Quiet`.  The others stop or install a provider, choose or give up a worktree,
launch or capture: they are `Idle`, a chain of chores.
-/
import MemMux.Chores

namespace MemMux

variable {codec : CheckpointCodec} {h : Host} {R : Rules}

/-! ### Quiet helpers -/

theorem Quiet.refl (w : World) : Quiet w w := ⟨rfl, rfl, rfl, rfl, [], by simp, by simp⟩

theorem Quiet.trans {w w' w'' : World} (h₁ : Quiet w w') (h₂ : Quiet w' w'') : Quiet w w'' := by
  obtain ⟨es, hes, hd⟩ := h₁.writes
  obtain ⟨fs, hfs, hd'⟩ := h₂.writes
  refine ⟨h₂.tasks.trans h₁.tasks, h₂.root.trans h₁.root, h₂.runtimes.trans h₁.runtimes,
    h₂.worktrees.trans h₁.worktrees, es ++ fs, ?_, ?_⟩
  · exact List.forall_mem_append.mpr ⟨hes, hfs⟩
  · rw [hd', hd]
    simp [Journal.writeAll]

/-- A change of the memory that spares tasks, providers and worktrees. -/
theorem Quiet.of_mem {w w' : World} (ht : w'.mem.tasks = w.mem.tasks)
    (hroot : w'.mem.root = w.mem.root) (hrt : w'.mem.runtimes = w.mem.runtimes)
    (hwt : w'.mem.worktrees = w.mem.worktrees) (hd : w'.durable = w.durable) : Quiet w w' :=
  ⟨ht, hroot, hrt, hwt, [], by simp, by simp [hd]⟩

theorem Quiet.of_write {w w' : World} {e : Effect} (hm : w'.mem = w.mem)
    (hd : w'.durable = w.durable.write e) (he : e.quiet) : Quiet w w' :=
  ⟨by rw [hm], by rw [hm], by rw [hm], by rw [hm], [e], by simpa using he, hd⟩

/-- The same memory, and the effects of another quiet world. -/
theorem Quiet.of_durable {w w' w'' : World} (hq : Quiet w w') (ht : w''.mem.tasks = w.mem.tasks)
    (hroot : w''.mem.root = w.mem.root) (hrt : w''.mem.runtimes = w.mem.runtimes)
    (hwt : w''.mem.worktrees = w.mem.worktrees) (hd : w''.durable = w'.durable) : Quiet w w'' := by
  obtain ⟨es, hes, hd'⟩ := hq.writes
  exact ⟨ht, hroot, hrt, hwt, es, hes, hd.trans hd'⟩

/-- The repositories are where they were, whatever happened. -/
theorem repos_replay (es : List Effect) (d : Disk) :
    (Journal.replay d es).git.repos = d.git.repos := by
  induction es generalizing d with
  | nil => rfl
  | cons e es ih =>
      refine (ih _).trans ?_
      cases e <;> rfl

theorem repos_writeAll {w w' : World} {es : List Effect} (hd : w'.durable = w.durable.writeAll es) :
    w'.disk.git.repos = w.disk.git.repos := by
  show w'.durable.state.git.repos = _
  rw [hd, Journal.state_writeAll]
  exact repos_replay es _

/-- Only its own removal takes a worktree away. -/
theorem mem_worktrees_apply {e : Effect} {p : Path} (he : e ≠ .worktreeRemove p) {d : Disk}
    (hp : p ∈ d.git.worktrees) : p ∈ (Replay.apply d e : Disk).git.worktrees := by
  cases e with
  | worktreeAdd repo branch path => exact List.mem_cons_of_mem _ hp
  | worktreeRemove path =>
      refine List.mem_filter.mpr ⟨hp, decide_eq_true ?_⟩
      rintro rfl
      exact he rfl
  | _ => exact hp

theorem mem_worktrees_replay {es : List Effect} {p : Path} (hes : .worktreeRemove p ∉ es)
    {d : Disk} (hp : p ∈ d.git.worktrees) : p ∈ (Journal.replay d es).git.worktrees := by
  induction es generalizing d with
  | nil => exact hp
  | cons e es ih =>
      have hne : e ≠ .worktreeRemove p := fun heq => hes (heq ▸ List.mem_cons_self)
      exact ih (fun hin => hes (List.mem_cons_of_mem _ hin)) (mem_worktrees_apply hne hp)

theorem sites_eq {w w' : World} {es : List Effect} (hrt : w'.mem.runtimes = w.mem.runtimes)
    (hwt : w'.mem.worktrees = w.mem.worktrees) (hd : w'.durable = w.durable.writeAll es) :
    w'.sites = w.sites := by
  unfold World.sites
  rw [hrt, hwt, repos_writeAll hd]

theorem Quiet.sites {w w' : World} (hq : Quiet w w') : w'.sites = w.sites := by
  obtain ⟨es, -, hd⟩ := hq.writes
  exact sites_eq hq.runtimes hq.worktrees hd

/-- Launching a process changes no site. -/
theorem attemptSpawn_sites (id : String) (cwd : Option Path) (w : World) :
    (attemptSpawn h id cwd w).sites = w.sites := by
  have hd : (attemptSpawn h id cwd w).durable
      = w.durable.writeAll [.spawn id cwd (h.spawn w.calls).isSome] := rfl
  exact sites_eq rfl rfl hd

theorem quiet_ask (w : World) : Quiet w w.ask := .of_mem rfl rfl rfl rfl rfl

theorem quiet_begin (w : World) : Quiet w (w.begin h) := .of_mem rfl rfl rfl rfl rfl

/-- Statements outside the records, whether they commit or not. -/
theorem quiet_exec {q : Stmt} (hq : (Effect.commit q).quiet) (w : World) : Quiet w (exec h q w) := by
  refine .of_write rfl rfl ?_
  split
  · exact hq
  · cases q <;> first | rfl | cases hq

theorem quiet_appendEvent (id : Option String) (c t s : String) (p : Option JsonObject)
    (w : World) : Quiet w (appendEvent h id c t s p w) :=
  quiet_exec rfl w

theorem quiet_event (id : Option String) (c t s : String) (w : World) :
    Quiet w (event h id c t s w) :=
  quiet_appendEvent id c t s none w

theorem quiet_audit (id : Option String) (a r : String) (e : Option JsonObject) (w : World) :
    Quiet w (audit h id a r e w) :=
  quiet_exec rfl w

theorem quiet_signalAll (kill : Bool) (pids : List Pid) (w : World) :
    Quiet w (signalAll h kill pids w) := by
  refine ⟨rfl, rfl, rfl, rfl, _, ?_, rfl⟩
  intro e he
  obtain ⟨p, -, rfl⟩ := List.mem_map.mp he
  rfl

theorem quiet_flushHistory (id : String) (w : World) : Quiet w (flushHistory h id w) :=
  .of_mem rfl rfl rfl rfl rfl

theorem quiet_releaseReservation (id : String) (w : World) :
    Quiet w (releaseReservation id w) :=
  .of_mem rfl rfl rfl rfl rfl

theorem quiet_terminatePids (pids : List Pid) (w : World) :
    Quiet w (terminatePids h pids w).1 := by
  unfold terminatePids
  dsimp only
  split
  · exact .refl w
  · have hterm := @quiet_signalAll h false
      ((pids.filter (1 < ·)).dedup.insertionSort (· ≤ ·)).reverse w
    split
    · exact hterm.trans (quiet_ask _)
    · split
      · exact hterm.trans (quiet_ask _)
      · refine (hterm.trans (quiet_ask _)).trans ?_
        split
        · exact (quiet_signalAll true _ _).trans (quiet_ask _)
        · exact (quiet_signalAll true _ _).trans (quiet_ask _)

theorem quiet_terminateSubtree (root : Pid) (w : World) :
    Quiet w (terminateSubtree h root w).1 := by
  unfold terminateSubtree
  split
  · exact .refl w
  · split
    · exact quiet_ask w
    · exact (quiet_ask w).trans (quiet_terminatePids _ _)

theorem quiet_verifySubtreeGone (root : Option Pid) (w : World) :
    Quiet w (verifySubtreeGone h root w).1 := by
  cases root with
  | none => exact .refl w
  | some root => exact quiet_terminateSubtree root w

theorem quiet_reapSweep (id : String) (targets : List Pid) (w : World) :
    Quiet w (reapSweep h id targets w) := by
  have hsweep := @quiet_terminatePids h targets w
  unfold reapSweep
  rcases ht : terminatePids h targets w with ⟨w', _ | r⟩
  · rw [ht] at hsweep
    exact hsweep.trans (quiet_audit _ _ _ _ _)
  · rw [ht] at hsweep
    exact (hsweep.trans (quiet_event _ _ _ _ _)).trans (quiet_audit _ _ _ _ _)

theorem quiet_reapTaskProcesses (id : String) (rootPid : Option Nat) (w : World) :
    Quiet w (reapTaskProcesses h id rootPid w) := by
  have hswept : Quiet w (if reapTargets h id rootPid w = [] then w.ask
      else reapSweep h id (reapTargets h id rootPid w) w.ask) := by
    split
    · exact quiet_ask w
    · exact (quiet_ask w).trans (quiet_reapSweep _ _ _)
  exact hswept.of_durable rfl rfl rfl rfl rfl

theorem quiet_askStatus (path : Path) (w : World) : Quiet w (askStatus h path w) :=
  .of_write rfl rfl rfl

theorem quiet_dirtyManifest (handle : WorktreeHandle) (w : World) :
    Quiet w (dirtyManifest h handle w).1 := by
  unfold dirtyManifest
  cases statusOf h w handle.path with
  | none => exact quiet_askStatus _ _
  | some status => exact (quiet_askStatus _ _).trans (quiet_ask _)

theorem foldl_quiet {α : Type} {f : World → α → World} (hf : ∀ w a, Quiet w (f w a))
    (as : List α) (w : World) : Quiet w (as.foldl f w) := by
  induction as generalizing w with
  | nil => exact .refl w
  | cons a as ih => exact (hf w a).trans (ih _)

/-! ### What is written -/

/-- What happened wrote effects with the property `P` only. -/
def Writes (P : Effect → Prop) (w w' : World) : Prop :=
  ∃ es, w'.durable = w.durable.writeAll es ∧ ∀ e ∈ es, P e

theorem Writes.of_durable {P : Effect → Prop} {w w' : World} (hd : w'.durable = w.durable) :
    Writes P w w' :=
  ⟨[], hd.trans (Journal.writeAll_nil _).symm, List.forall_mem_nil _⟩

theorem Writes.trans {P : Effect → Prop} {w w' w'' : World} (h₁ : Writes P w w')
    (h₂ : Writes P w' w'') : Writes P w w'' := by
  obtain ⟨es, hd, hes⟩ := h₁
  obtain ⟨fs, hd', hfs⟩ := h₂
  refine ⟨es ++ fs, ?_, List.forall_mem_append.mpr ⟨hes, hfs⟩⟩
  rw [hd', hd]
  simp [Journal.writeAll]

theorem writes_exec {P : Effect → Prop} {q : Stmt} (hc : P (.commit q)) (hr : P (.refuse q))
    (w : World) : Writes P w (exec h q w) := by
  unfold exec
  split
  · exact ⟨[.commit q], rfl, fun e he => List.mem_singleton.mp he ▸ hc⟩
  · exact ⟨[.refuse q], rfl, fun e he => List.mem_singleton.mp he ▸ hr⟩

/-! ### Chains of chores -/

/-- Chores lead from one world to the other. -/
def Idle (R : Rules) (w w' : World) : Prop := ∃ es, Chain (Chore R) w es w'

theorem Idle.refl (w : World) : Idle R w w := ⟨[], .nil⟩

theorem Idle.trans {w w' w'' : World} (h₁ : Idle R w w') (h₂ : Idle R w' w'') :
    Idle R w w'' := by
  obtain ⟨es, hes⟩ := h₁
  obtain ⟨fs, hfs⟩ := h₂
  exact ⟨es ++ fs, hes.trans hfs⟩

theorem Chore.idles {w w' : World} {es : List Effect} (hc : Chore R w es w') : Idle R w w' :=
  ⟨es, .single hc⟩

theorem Quiet.idle {w w' : World} (hq : Quiet w w') : Idle R w w' := by
  obtain ⟨es, hes, hd⟩ := hq.writes
  exact Chore.idles (.quiet hq.tasks hq.root hq.runtimes hq.worktrees hd hes)

theorem Idle.tasks {w w' : World} (hi : Idle R w w') : w'.mem.tasks = w.mem.tasks := by
  obtain ⟨es, hes⟩ := hi
  induction hes with
  | nil => rfl
  | snoc _ hlast ih => exact hlast.tasks.trans ih

/-! ### Providers -/

theorem idle_stopAndFlush {id : String} (hs : R.stops id) (rt : RuntimeInstance) (w : World) :
    Idle R w (stopAndFlush h id rt w) := by
  let w₀ : World := { w with mem := { w.mem with runtimes := w.mem.runtimes.erase id } }
  have hdrop : Idle R w w₀ := Chore.idles (.drop rfl rfl)
  have hstop : Idle R w₀ (stopRuntime h id rt w₀) := Chore.idles (.stop hs rfl rfl)
  exact hdrop.trans (hstop.trans (quiet_flushHistory id _).idle)

theorem idle_stopLive {id : String} (hs : R.stops id) (w : World) :
    Idle R w (stopLive h id w) := by
  unfold stopLive
  cases w.mem.runtimes.lookup id with
  | none => exact .refl w
  | some rt => exact idle_stopAndFlush hs rt w

/-- The provider of a task is taken out of the daemon's hands. -/
def World.dropped (w : World) (id : String) : World :=
  { w with mem := { w.mem with runtimes := w.mem.runtimes.erase id } }

/-- Once the provider is stopped, a shutdown stops nothing more. -/
theorem idle_stopped {id : String} {rt : RuntimeInstance} {w : World}
    (hrt : w.mem.runtimes.lookup id = some rt) :
    Idle R (stopRuntime h id rt (w.dropped id)) (shutdownRuntime h id w).1 := by
  unfold shutdownRuntime
  rw [hrt]
  exact (quiet_flushHistory id _).idle.trans (quiet_verifySubtreeGone _ _).idle

/-- After `stop` the task does not run. -/
theorem stopLive_down (id : String) (w : World) : id ∉ (stopLive h id w).mem.runtimes := by
  unfold stopLive
  cases hrt : w.mem.runtimes.lookup id with
  | none => exact KeyMap.not_mem_iff_lookup.mpr hrt
  | some rt =>
      show id ∉ w.mem.runtimes.erase id
      rw [KeyMap.mem_erase_iff]
      exact fun hin => hin.1 rfl

theorem idle_shutdownRuntime {id : String} (hs : R.stops id) (w : World) :
    Idle R w (shutdownRuntime h id w).1 := by
  unfold shutdownRuntime
  cases w.mem.runtimes.lookup id with
  | none => exact .refl w
  | some rt => exact (idle_stopAndFlush hs rt w).trans (quiet_verifySubtreeGone _ _).idle

/-! ### Worktrees -/

/-- What giving up the worktree at `path` may write. -/
def GivesUp (path : Path) (w w' : World) : Prop :=
  ∃ es, (∀ e ∈ es, e.quiet ∨ e = .worktreeRemove path) ∧ RemovesClean es ∧
    w'.durable = w.durable.writeAll es

theorem Quiet.givesUp {path : Path} {w w' : World} (hq : Quiet w w') : GivesUp path w w' := by
  obtain ⟨es, hes, hd⟩ := hq.writes
  exact ⟨es, fun e he => .inl (hes e he), removesClean_of_quiet hes, hd⟩

theorem GivesUp.trans {path : Path} {w w' w'' : World} (h₁ : GivesUp path w w')
    (h₂ : GivesUp path w' w'') : GivesUp path w w'' := by
  obtain ⟨es, hes, hg, hd⟩ := h₁
  obtain ⟨fs, hfs, hg', hd'⟩ := h₂
  refine ⟨es ++ fs, List.forall_mem_append.mpr ⟨hes, hfs⟩, hg.append hg', ?_⟩
  rw [hd', hd]
  simp [Journal.writeAll]

theorem givesUp_removeWorktree (handle : WorktreeHandle) (w : World) :
    GivesUp handle.path w (removeWorktree h handle w) := by
  have hask := @quiet_askStatus h handle.path w
  unfold removeWorktree
  cases hst : statusOf h w handle.path with
  | none => exact hask.givesUp
  | some status =>
      dsimp only
      split
      · exact hask.givesUp
      · next htrim =>
        split
        · refine ⟨[.gitStatus handle.path (some status), .worktreeRemove handle.path], ?_, ?_, ?_⟩
          · simp [Effect.quiet, Effect.idle]
          · exact removesClean_removal (not_not.mp htrim)
          · rw [← hst]
            simp [World.note, World.ask, askStatus, Journal.write, Journal.writeAll]
        · exact (hask.trans (quiet_ask _)).givesUp

theorem givesUp_discardWorktree (id : String) (handle : WorktreeHandle) (w : World) :
    GivesUp handle.path w (discardWorktree h id handle w) := by
  have hd := @quiet_dirtyManifest h handle w
  unfold discardWorktree
  rcases hm : dirtyManifest h handle w with ⟨w', manifest⟩
  rw [hm] at hd
  dsimp only at hd ⊢
  cases manifest.filter (·.dirty) with
  | none =>
      exact (hd.givesUp.trans (givesUp_removeWorktree handle w')).trans
        (quiet_audit _ _ _ _ _).givesUp
  | some m => exact ((hd.trans (quiet_audit _ _ _ _ _)).trans (quiet_event _ _ _ _ _)).givesUp

/-- Giving up the worktree of a task that does not run. -/
theorem idle_cleanupWorktree {id : String} {w : World} (hid : id ∉ w.mem.runtimes) :
    Idle R w (cleanupWorktree h id w) := by
  have hmem := cleanupWorktree_mem h w id
  unfold cleanupWorktree at hmem ⊢
  cases hl : w.mem.worktrees.lookup id with
  | none => exact .refl w
  | some handle =>
      rw [hl] at hmem
      dsimp only at hmem ⊢
      generalize hw : (⟨{ w.mem with worktrees := w.mem.worktrees.erase id }, w.durable, w.procs,
        w.calls⟩ : World) = w₀ at hmem ⊢
      obtain ⟨es, hes, hg, hd⟩ := @givesUp_discardWorktree h id handle w₀
      have hd₀ : w₀.durable = w.durable := by
        subst hw
        rfl
      rw [hd₀] at hd
      exact Chore.idles (.release hid hl hmem hd hes hg)

/-- The two outcomes of `create`. -/
theorem createWorktree_cases (id : String) (task : Task) (w : World) :
    (∃ base, (createWorktree h id task w).2 = .ok (handleFor w.mem.root id task base) ∧
        task.spec.repositoryPath ∈ w.disk.git.repos ∧
        w.disk.git.addable task.spec.repositoryPath (handleFor w.mem.root id task base).branch
          (handleFor w.mem.root id task base).path ∧
        (createWorktree h id task w).1.durable = w.durable.write
          (.worktreeAdd task.spec.repositoryPath (handleFor w.mem.root id task base).branch
            (handleFor w.mem.root id task base).path)) ∨
      (∃ e, (createWorktree h id task w).2 = .error e) ∧
        Quiet w (createWorktree h id task w).1 := by
  unfold createWorktree
  dsimp only
  split
  · exact .inr ⟨⟨_, rfl⟩, .refl w⟩
  · next hrepo =>
    split
    · exact .inr ⟨⟨_, rfl⟩, quiet_ask w⟩
    · next base hbase =>
      split
      · exact .inr ⟨⟨_, rfl⟩, (quiet_ask w).trans (quiet_ask _)⟩
      · split
        · exact .inr ⟨⟨_, rfl⟩, (quiet_ask w).trans (quiet_ask _)⟩
        · split
          · next hadd => exact .inl ⟨base, rfl, not_not.mp hrepo, hadd, rfl⟩
          · exact .inr ⟨⟨_, rfl⟩, (quiet_ask w).trans (quiet_ask _)⟩

theorem captureDir_congr {id : String} {t t' : Task} {m m' : DaemonState} (hs : t.spec = t'.spec)
    (hm : m.worktrees = m'.worktrees) : captureDir id t m = captureDir id t' m' := by
  unfold captureDir
  rw [hm, hs]

/-- The directory `ensure_worktree` returns is the one a checkpoint would be captured from. -/
theorem ensureWorktree_dir (id : String) (task : Task) (w : World) :
    (ensureWorktree h id task w).2 = captureDir id task (ensureWorktree h id task w).1.mem := by
  unfold ensureWorktree captureDir
  cases hl : w.mem.worktrees.lookup id with
  | some handle =>
      dsimp only
      rw [hl]
  | none =>
      have hmem := createWorktree_mem h w id task
      rcases hc : createWorktree h id task w with ⟨w', e | handle⟩
      · rw [hc] at hmem
        dsimp only at hmem ⊢
        rw [audit_mem, hmem, hl]
      · dsimp only
        rw [AList.lookup_insert]

/-- Choosing a directory, when the one it chooses for a task without a worktree is free. -/
theorem idle_ensureWorktree {id : String} {task : Task} {w : World}
    (ht : w.mem.tasks.lookup id = some task)
    (hf : R.permits w.sites id (ensureWorktree h id task w).2) :
    Idle R w (ensureWorktree h id task w).1 := by
  cases hl : w.mem.worktrees.lookup id with
  | some handle =>
      have hsame : (ensureWorktree h id task w).1 = w := by
        unfold ensureWorktree
        rw [hl]
      rw [hsame]
      exact .refl w
  | none =>
      -- without a worktree the rules say which directory may be made
      have hfree := hf.free hl
      have hmem := createWorktree_mem h w id task
      have hcases := @createWorktree_cases h id task w
      unfold ensureWorktree at hfree ⊢
      rw [hl] at hfree ⊢
      rcases hc : createWorktree h id task w with ⟨w', e | handle⟩
      · rw [hc] at hcases
        rcases hcases with ⟨base, hok, -⟩ | ⟨-, hq⟩
        · cases hok
        · exact (hq.trans (quiet_audit _ _ _ _ _)).idle
      · rw [hc] at hmem hcases hfree
        rcases hcases with ⟨base, hok, hrepo, hadd, hd⟩ | ⟨⟨e, he⟩, -⟩
        · obtain rfl := Except.ok.inj hok
          dsimp only at hd hfree hmem ⊢
          have hlog : Quiet w' (event h (some id) "worktree" "worktree_created" "info"
              (audit h (some id) "worktree_created"
                ("isolated worktree at " ++ (handleFor w.mem.root id task base).path ++ " on "
                  ++ (handleFor w.mem.root id task base).branch) none w')) :=
            (quiet_audit _ _ _ _ _).trans (quiet_event _ _ _ _ _)
          obtain ⟨es, hes, hd'⟩ := hlog.writes
          refine Chore.idles (.cut hl ht hrepo hadd hfree ?_ ?_ hes)
          · rw [event_mem, audit_mem, hmem]
          · rw [Journal.writeAll_cons, ← hd]
            exact hd'
        · cases he

/-- The sites after a directory was chosen permit a launch in the repository, if it is there that the
launch would be. -/
theorem permits_ensureWorktree {id : String} {task : Task} {w : World}
    (hf : R.permits w.sites id (ensureWorktree h id task w).2) :
    R.permits (ensureWorktree h id task w).1.sites id task.spec.repositoryPath := by
  refine ⟨hf.launch, fun hnone => ?_⟩
  replace hf := hf.free
  have hcases := @createWorktree_cases h id task w
  have hmem := createWorktree_mem h w id task
  unfold ensureWorktree at hf hnone ⊢
  cases hl : w.mem.worktrees.lookup id with
  | some handle =>
      rw [hl] at hnone
      exact absurd (hl.symm.trans hnone) (by simp)
  | none =>
      rw [hl] at hf hnone
      rcases hc : createWorktree h id task w with ⟨w', e | handle⟩
      · rw [hc] at hcases hf
        rcases hcases with ⟨base, hok, -⟩ | ⟨-, hq⟩
        · cases hok
        · have hsites := (hq.trans (@quiet_audit h (some id) "worktree_skipped"
            ("no isolated worktree (" ++ e ++ "); launching in the repository path") none w')).sites
          dsimp only at hsites hf ⊢
          rw [hsites]
          exact hf hl
      · rw [hc] at hnone
        have hsome : (w'.mem.worktrees.insert id handle).lookup id = none := hnone
        rw [AList.lookup_insert] at hsome
        cases hsome

/-! ### Launches and captures -/

/-- Task `id` may be launched in `dir`, its directory. -/
def Launchable (R : Rules) (id : String) (dir : Path) (w : World) : Prop :=
  ∃ t, w.mem.tasks.lookup id = some t ∧ captureDir id t w.mem = dir ∧
    R.permits w.sites id t.spec.repositoryPath

/-- Where a task may be launched depends on its specification and on the sites only. -/
theorem Launchable.of_specs {id : String} {dir : Path} {w w' : World}
    (hl : Launchable R id dir w)
    (hsp : (w'.mem.tasks.lookup id).map (·.spec) = (w.mem.tasks.lookup id).map (·.spec))
    (hs : w'.sites = w.sites) : Launchable R id dir w' := by
  obtain ⟨t, ht, hdir, hf⟩ := hl
  rw [ht] at hsp
  obtain ⟨t', ht', hspec⟩ := Option.map_eq_some_iff.mp hsp
  refine ⟨t', ht', ?_, ?_⟩
  · rw [← hdir]
    exact captureDir_congr hspec (congrArg Sites.worktrees hs)
  · rw [hspec, hs]
    exact hf

theorem Launchable.quiet {id : String} {dir : Path} {w w' : World} (hl : Launchable R id dir w)
    (hq : Quiet w w') : Launchable R id dir w' :=
  hl.of_specs (by rw [hq.tasks]) hq.sites

theorem Launchable.spawn {id : String} {dir : Path} {w : World} (hl : Launchable R id dir w)
    (cwd : Option Path) : Launchable R id dir (attemptSpawn h id cwd w) :=
  hl.of_specs rfl (attemptSpawn_sites id cwd w)

theorem idle_attemptSpawn {id : String} {dir : Path} {w : World} (hl : Launchable R id dir w) :
    Idle R w (attemptSpawn h id (some dir) w) := by
  obtain ⟨t, ht, rfl, hf⟩ := hl
  exact Chore.idles (.spawn ht hf rfl rfl)

theorem idle_installRuntime {id : String} {dir : Path} {rt : RuntimeInstance} {w : World}
    (hl : Launchable R id dir w) (hcwd : rt.cwd = some dir) :
    Idle R w (installRuntime h id rt w) := by
  obtain ⟨t, ht, rfl, hf⟩ := hl
  exact Chore.idles (.install ht hf hcwd rfl rfl rfl rfl rfl)

theorem idle_captureCheckpoint {id : String} {t : Task} (now : UInt64) {w : World}
    (hid : id ∈ w.mem.runtimes) (ht : w.mem.tasks.lookup id = some t) :
    Idle R w (captureCheckpoint codec h id t now w).1 :=
  Chore.idles (.capture hid ht rfl rfl)

theorem relaunchSpec_cwd (id : String) (task : Task) (m : DaemonState) :
    (relaunchSpec h id task m).cwd = some (captureDir id task m) := by
  unfold relaunchSpec captureDir
  dsimp only
  cases m.worktrees.lookup id <;> rfl

/-- What a successful launch hands over runs where it was launched. -/
theorem spawnPty_ok {id : String} {provider : Provider} {pty : PtySpec} {w w' : World}
    {rt : RuntimeInstance} (hs : spawnPty h id provider pty w = (w', .ok rt)) :
    w' = attemptSpawn h id pty.cwd w ∧ rt.cwd = pty.cwd := by
  obtain ⟨rfl, hrt⟩ := Prod.mk.inj hs
  refine ⟨rfl, ?_⟩
  split at hrt
  · obtain rfl := Except.ok.inj hrt
    rfl
  · cases hrt

/-- A provider that was launched in the directory of its task is installed. -/
theorem idle_installRelaunched {id : String} {dir : Path} (mode : ResumeMode)
    {rt : RuntimeInstance} (started : UInt64) {w : World} (hl : Launchable R id dir w)
    (hcwd : rt.cwd = some dir) : Idle R w (installRelaunched h id mode rt started w).1 := by
  have hask := (quiet_ask w).trans (quiet_ask _)
  unfold installRelaunched
  split
  · exact (quiet_ask w).idle
  · exact hask.idle.trans (idle_installRuntime (hl.quiet hask) hcwd)

theorem idle_relaunchFallback {id : String} {task : Task} {dir : Path} {spec : LaunchSpec}
    (e : String) (started : UInt64) {w : World} (hl : Launchable R id dir w)
    (hcwd : spec.cwd = some dir) :
    Idle R w (relaunchFallback h id task spec e started w).1 := by
  have hc := (Provider.command_cwd task.spec.provider spec).trans hcwd
  have hspawn := @idle_attemptSpawn h R id dir w hl
  rw [← hc] at hspawn
  unfold relaunchFallback
  split
  · next w₁ e' hs =>
    obtain ⟨rfl, -⟩ := Prod.mk.inj hs
    exact hspawn
  · next w₁ rt hs =>
    obtain ⟨rfl, hrt⟩ := spawnPty_ok hs
    exact (hspawn.trans (quiet_ask _).idle).trans
      (idle_installRuntime ((hl.spawn _).quiet (quiet_ask _)) (hrt.trans hc))

/-- A relaunch, when the task may be launched in its directory. -/
theorem idle_relaunch {id : String} {task : Task} (cp : Checkpoint) {w : World}
    (hl : Launchable R id (captureDir id task w.mem) w) :
    Idle R w (relaunchFromCheckpoint h id task cp w).1 := by
  have hcwd := @relaunchSpec_cwd h id task w.mem
  have hc := fun mode =>
    (relaunchPty_cwd task.spec.provider (relaunchSpec h id task w.mem) cp mode).trans hcwd
  have hl' := hl.quiet (quiet_ask w)
  unfold relaunchFromCheckpoint
  dsimp only
  generalize planResume _ _ = mode
  have hspawn := (quiet_ask w).idle.trans (@idle_attemptSpawn h R id _ w.ask hl')
  rw [← hc mode] at hspawn
  split
  · next w₁ rt hs =>
    obtain ⟨rfl, hrt⟩ := spawnPty_ok hs
    exact hspawn.trans (idle_installRelaunched _ _ (hl'.spawn _) (hrt.trans (hc mode)))
  · next w₁ e hs =>
    obtain ⟨rfl, -⟩ := Prod.mk.inj hs
    split
    · exact hspawn.trans (idle_relaunchFallback _ _ (hl'.spawn _) hcwd)
    · exact hspawn

end MemMux
