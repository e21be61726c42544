/-
MemMux/Chores.lean

What handlers do besides the records of tasks: providers, worktrees, and everything that leaves both
alone.

A `Chore` is one small step of that kind, with the effects it has.  Most are quiet: they concern
neither a provider nor a worktree.  The others are a stopped or installed provider, a worktree
that is cut or given up, a launch and a capture, each with the directory it happens in.

Chores are stated for `Rules`: which directories a launch may take, which tasks may be created, and whose
providers may be stopped.  What holds of every run uses `Rules.any`.
-/
import MemMux.Chain
import MemMux.Daemon

namespace MemMux

variable {h : Host}

/-! ### Effects -/

/-- The statements that change the record of a task. -/
def Stmt.onRecord : Stmt → Bool
  | .upsertTask _ | .recordTransition _ _ | .deleteTransitions _ | .deleteCheckpoints _
  | .deleteTaskRow _ => true
  | _ => false

/-- An effect that leaves all records and checkpoints alone. -/
def Effect.idle : Effect → Bool
  | .commit (.saveCheckpointRef _) => false
  | .commit q => !q.onRecord
  | .refuse q => !q.onRecord
  | .writeArtifact _ _ | .tornArtifact _ => false
  | _ => true

/-- An effect that leaves providers and worktrees alone as well. -/
def Effect.quiet : Effect → Bool
  | .capture _ _ | .spawn _ _ _ | .stop _ _ | .worktreeAdd _ _ _ | .worktreeRemove _ => false
  | e => e.idle

theorem Effect.idle_of_quiet {e : Effect} (he : e.quiet) : e.idle := by
  cases e <;> first | exact he | cases he

/-- **A worktree is removed only right after git printed nothing for its status.** -/
def RemovesClean (es : List Effect) : Prop :=
  ∀ before p after, es = before ++ .worktreeRemove p :: after →
    ∃ earlier printed, before = earlier ++ [.gitStatus p (some printed)] ∧ trim printed = ""

theorem removesClean_of_not_mem {es : List Effect} (hes : ∀ p, .worktreeRemove p ∉ es) :
    RemovesClean es := by
  rintro before p after rfl
  exact absurd (List.mem_append_right _ List.mem_cons_self) (hes p)

theorem removesClean_of_quiet {es : List Effect} (hes : ∀ e ∈ es, e.quiet) : RemovesClean es :=
  removesClean_of_not_mem fun _ hp => nomatch hes _ hp

/-- A removal, and the status that permits it. -/
theorem removesClean_removal {path : Path} {printed : String} (hp : trim printed = "") :
    RemovesClean [.gitStatus path (some printed), .worktreeRemove path] := by
  intro before p after hes
  rcases before with _ | ⟨e, _ | ⟨e', before⟩⟩
  · cases hes
  · obtain ⟨rfl, htl⟩ := List.cons.inj hes
    obtain ⟨hremove, -⟩ := List.cons.inj htl
    obtain rfl := Effect.worktreeRemove.inj hremove
    exact ⟨[], printed, rfl, hp⟩
  · simp at hes

theorem RemovesClean.append {es fs : List Effect} (h₁ : RemovesClean es) (h₂ : RemovesClean fs) :
    RemovesClean (es ++ fs) := by
  intro before p after heq
  rcases List.append_eq_append_iff.mp heq with ⟨mid, rfl, hfs⟩ | ⟨mid, hes, hrest⟩
  · obtain ⟨earlier, printed, rfl, hp⟩ := h₂ mid p after hfs
    exact ⟨es ++ earlier, printed, (List.append_assoc _ _ _).symm, hp⟩
  · rcases mid with _ | ⟨e, mid⟩
    · -- the removal would be the first effect of `fs`
      obtain ⟨earlier, printed, hnil, -⟩ := h₂ [] p after hrest.symm
      simp at hnil
    · obtain ⟨rfl, -⟩ := List.cons.inj hrest
      exact h₁ before p mid hes

theorem RemovesClean.take {es : List Effect} (h₁ : RemovesClean es) (k : Nat) :
    RemovesClean (es.take k) := by
  intro before p after heq
  refine h₁ before p (after ++ es.drop k) ?_
  rw [← List.cons_append, ← List.append_assoc, ← heq, List.take_append_drop]

/-! ### Chores -/

/-- Where providers run: the live ones, the worktrees held, and the repositories. -/
structure Sites where
  runtimes : KeyMap String RuntimeInstance
  worktrees : KeyMap String WorktreeHandle
  repos : List Path

def World.sites (w : World) : Sites := ⟨w.mem.runtimes, w.mem.worktrees, w.disk.git.repos⟩

/-- The assumptions of a development on handlers: the directory a launch may take for a task that
holds no worktree, the task a request may create, and whose provider may be stopped and launched. -/
structure Rules where
  free : Sites → String → Path → Prop
  new : TaskSpec → Prop
  stops : String → Prop
  launches : String → Prop

/-- No assumptions. -/
def Rules.any : Rules := ⟨fun _ _ _ => True, fun _ => True, fun _ => True, fun _ => True⟩

/-- The task may be launched, in `path` if it holds no worktree. -/
structure Rules.permits (R : Rules) (s : Sites) (id : String) (path : Path) : Prop where
  launch : R.launches id
  free : s.worktrees.lookup id = none → R.free s id path

theorem Rules.permits_any {s : Sites} {id : String} {path : Path} : Rules.any.permits s id path :=
  ⟨trivial, fun _ => trivial⟩

/-- Nothing happened that concerns a record, a provider or a worktree. -/
structure Quiet (w w' : World) : Prop where
  tasks : w'.mem.tasks = w.mem.tasks
  root : w'.mem.root = w.mem.root
  runtimes : w'.mem.runtimes = w.mem.runtimes
  worktrees : w'.mem.worktrees = w.mem.worktrees
  writes : ∃ es, (∀ e ∈ es, e.quiet) ∧ w'.durable = w.durable.writeAll es

/-- **One chore**, with its effects. -/
inductive Chore (R : Rules) : World → List Effect → World → Prop
  /-- whatever concerns no record, provider or worktree -/
  | quiet {w w' es} (ht : w'.mem.tasks = w.mem.tasks) (hroot : w'.mem.root = w.mem.root)
      (hrt : w'.mem.runtimes = w.mem.runtimes) (hwt : w'.mem.worktrees = w.mem.worktrees)
      (hd : w'.durable = w.durable.writeAll es) (he : ∀ e ∈ es, e.quiet) : Chore R w es w'
  /-- a provider is dropped -/
  | drop {w w' id} (hm : w'.mem = { w.mem with runtimes := w.mem.runtimes.erase id })
      (hd : w'.durable = w.durable) : Chore R w [] w'
  /-- a provider is stopped -/
  | stop {w w' id pid} (hs : R.stops id) (hm : w'.mem = w.mem)
      (hd : w'.durable = w.durable.write (.stop id pid)) : Chore R w [.stop id pid] w'
  /-- a provider is installed -/
  | install {w w' id t rt} (ht : w.mem.tasks.lookup id = some t)
      (hf : R.permits w.sites id t.spec.repositoryPath)
      (hcwd : rt.cwd = some (captureDir id t w.mem))
      (hts : w'.mem.tasks = w.mem.tasks) (hroot : w'.mem.root = w.mem.root)
      (hrt : w'.mem.runtimes = w.mem.runtimes.insert id rt)
      (hwt : w'.mem.worktrees = w.mem.worktrees) (hd : w'.durable = w.durable) : Chore R w [] w'
  /-- a launch is attempted, in the worktree of the task or else in its repository -/
  | spawn {w w' id t started} (ht : w.mem.tasks.lookup id = some t)
      (hf : R.permits w.sites id t.spec.repositoryPath)
      (hm : w'.mem = w.mem)
      (hd : w'.durable = w.durable.write (.spawn id (some (captureDir id t w.mem)) started)) :
      Chore R w [.spawn id (some (captureDir id t w.mem)) started] w'
  /-- a running task is captured for a checkpoint -/
  | capture {w w' id t} (hid : id ∈ w.mem.runtimes) (ht : w.mem.tasks.lookup id = some t)
      (hm : w'.mem = w.mem)
      (hd : w'.durable = w.durable.write (.capture id (captureDir id t w.mem))) :
      Chore R w [.capture id (captureDir id t w.mem)] w'
  /-- a worktree is cut for a task that holds none -/
  | cut {w w' id t base es} (hl : w.mem.worktrees.lookup id = none)
      (ht : w.mem.tasks.lookup id = some t)
      (hrepo : t.spec.repositoryPath ∈ w.disk.git.repos)
      (hadd : w.disk.git.addable t.spec.repositoryPath (handleFor w.mem.root id t base).branch
        (handleFor w.mem.root id t base).path)
      (hf : R.free w.sites id (handleFor w.mem.root id t base).path)
      (hm : w'.mem = { w.mem with
        worktrees := w.mem.worktrees.insert id (handleFor w.mem.root id t base) })
      (hd : w'.durable = w.durable.writeAll (.worktreeAdd t.spec.repositoryPath
        (handleFor w.mem.root id t base).branch (handleFor w.mem.root id t base).path :: es))
      (he : ∀ e ∈ es, e.quiet) :
      Chore R w (.worktreeAdd t.spec.repositoryPath (handleFor w.mem.root id t base).branch
        (handleFor w.mem.root id t base).path :: es) w'
  /-- a worktree was cut, and the daemon did not get to note it -/
  | added {w w' repo branch path es} (hm : w'.mem = w.mem)
      (hd : w'.durable = w.durable.writeAll (.worktreeAdd repo branch path :: es))
      (he : ∀ e ∈ es, e.quiet) : Chore R w (.worktreeAdd repo branch path :: es) w'
  /-- the worktree of a task that does not run is given up, and removed if it is clean -/
  | release {w w' id handle es} (hid : id ∉ w.mem.runtimes)
      (hl : w.mem.worktrees.lookup id = some handle)
      (hm : w'.mem = { w.mem with worktrees := w.mem.worktrees.erase id })
      (hd : w'.durable = w.durable.writeAll es)
      (he : ∀ e ∈ es, e.quiet ∨ e = .worktreeRemove handle.path) (hg : RemovesClean es) :
      Chore R w es w'

variable {R : Rules}

/-- No chore changes a task. -/
theorem Chore.tasks {w w' : World} {es : List Effect} (hc : Chore R w es w') :
    w'.mem.tasks = w.mem.tasks := by
  cases hc with
  | quiet ht => exact ht
  | install _ _ _ hts => exact hts
  | drop hm | stop _ hm | spawn _ _ hm | capture _ _ hm | cut _ _ _ _ _ hm | added hm | release _ _ hm =>
      rw [hm]

theorem Chore.root {w w' : World} {es : List Effect} (hc : Chore R w es w') :
    w'.mem.root = w.mem.root := by
  cases hc with
  | quiet _ hroot => exact hroot
  | install _ _ _ _ hroot => exact hroot
  | drop hm | stop _ hm | spawn _ _ hm | capture _ _ hm | cut _ _ _ _ _ hm | added hm | release _ _ hm =>
      rw [hm]

theorem Chore.durable {w w' : World} {es : List Effect} (hc : Chore R w es w') :
    w'.durable = w.durable.writeAll es := by
  cases hc with
  | drop hm hd => exact hd.trans (Journal.writeAll_nil _).symm
  | install _ _ _ _ _ _ _ hd => exact hd.trans (Journal.writeAll_nil _).symm
  | stop _ _ hd => exact hd
  | quiet _ _ _ _ hd => exact hd
  | spawn _ _ _ hd => exact hd
  | capture _ _ _ hd => exact hd
  | cut _ _ _ _ _ _ hd => exact hd
  | added _ hd => exact hd
  | release _ _ _ hd => exact hd

/-- No chore changes a record or a checkpoint. -/
theorem Chore.idle {w w' : World} {es : List Effect} (hc : Chore R w es w') :
    ∀ e ∈ es, e.idle := by
  cases hc with
  | drop hm hd => simp
  | install _ _ _ _ _ _ _ hd => simp
  | quiet _ _ _ _ _ he => exact fun e hin => Effect.idle_of_quiet (he e hin)
  | stop _ _ _ => simp [Effect.idle]
  | spawn ht hf hm hd => simp [Effect.idle]
  | capture hid ht hm hd => simp [Effect.idle]
  | cut _ _ _ _ _ _ _ he =>
      exact List.forall_mem_cons.mpr ⟨rfl, fun e hin => Effect.idle_of_quiet (he e hin)⟩
  | added _ _ he =>
      exact List.forall_mem_cons.mpr ⟨rfl, fun e hin => Effect.idle_of_quiet (he e hin)⟩
  | release _ _ _ _ he =>
      intro e hin
      rcases he e hin with hq | rfl
      · exact Effect.idle_of_quiet hq
      · rfl

/-- No chore removes a worktree that git did not just report clean. -/
theorem Chore.removesClean {w w' : World} {es : List Effect} (hc : Chore R w es w') :
    RemovesClean es := by
  have hcons : ∀ (e : Effect) (es : List Effect), (∀ p, e ≠ .worktreeRemove p) →
      (∀ e ∈ es, e.quiet) → RemovesClean (e :: es) := by
    intro e es hne he
    refine removesClean_of_not_mem fun p hp => ?_
    rcases List.mem_cons.mp hp with heq | hin
    · exact hne p heq.symm
    · exact nomatch he _ hin
  cases hc with
  | quiet _ _ _ _ _ he => exact removesClean_of_quiet he
  | release _ _ _ _ _ hg => exact hg
  | drop hm hd => exact removesClean_of_not_mem (by simp)
  | install _ _ _ _ _ _ _ hd => exact removesClean_of_not_mem (by simp)
  | stop _ _ _ => exact hcons _ [] (by simp) (by simp)
  | spawn ht hf hm hd => exact hcons _ [] (by simp) (by simp)
  | capture hid ht hm hd => exact hcons _ [] (by simp) (by simp)
  | cut _ _ _ _ _ _ _ he => exact hcons _ _ (by simp) he
  | added _ _ he => exact hcons _ _ (by simp) he

/-- A chore can be cut after any of its effects. -/
theorem chore_cut {w w' : World} {es : List Effect} (hc : Chore R w es w') (k : Nat) :
    ∃ u, Chain (Chore R) w (es.take k) u := by
  let u : World := { w with durable := w.durable.writeAll (es.take k) }
  have htake : ∀ fs : List Effect, (∀ e ∈ fs, e.quiet) → ∀ j, ∀ e ∈ fs.take j, e.quiet :=
    fun fs hfs j e he => hfs e (List.mem_of_mem_take he)
  cases k with
  | zero =>
      rw [List.take_zero]
      exact ⟨w, .nil⟩
  | succ k =>
      cases hc with
      | drop hm hd =>
          rw [List.take_nil]
          exact ⟨w, .nil⟩
      | install _ _ _ _ _ _ _ hd =>
          rw [List.take_nil]
          exact ⟨w, .nil⟩
      | stop hs hm hd =>
          rw [List.take_of_length_le (by simp)]
          exact ⟨w', .single (.stop hs hm hd)⟩
      | spawn ht hf hm hd =>
          rw [List.take_of_length_le (by simp)]
          exact ⟨w', .single (.spawn ht hf hm hd)⟩
      | capture hid ht hm hd =>
          rw [List.take_of_length_le (by simp)]
          exact ⟨w', .single (.capture hid ht hm hd)⟩
      | quiet _ _ _ _ _ he =>
          exact ⟨u, .single (.quiet rfl rfl rfl rfl rfl (htake _ he _))⟩
      | cut _ _ _ _ _ _ _ he => exact ⟨u, .single (.added rfl rfl (htake _ he k))⟩
      | added _ _ he => exact ⟨u, .single (.added rfl rfl (htake _ he k))⟩
      -- a release that is cut has given the worktree up
      | @release _ id handle es hid hl hm hd he hg =>
          let v : World :=
            { u with mem := { w.mem with worktrees := w.mem.worktrees.erase id } }
          have hv : Chore R w (es.take (k + 1)) v :=
            .release hid hl rfl rfl (fun e hin => he e (List.mem_of_mem_take hin)) (hg.take _)
          exact ⟨v, .single hv⟩

end MemMux
