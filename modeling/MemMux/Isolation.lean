/-
MemMux/Isolation.lean

Where providers run.

Every task has a directory of its own for a worktree (`ownWorktree`).  When a launch without a
worktree takes a free directory, the small steps of the handlers keep everybody in place: what is
known of the specifications (`Known`), who holds which worktree and works where (`Placed`), and what
the log says about launches and checkpoints (`Logged`).
-/
import MemMux.Crash

namespace MemMux

open Ledger

variable {codec : CheckpointCodec} {h : Host} {R : Rules}

/-! ### What is isolated

Two paths may name one directory: `dirOf` gives the directory of each. -/

variable {δ : Type} {dirOf : Path → δ}

/-- The directory of a task's own worktree. -/
def ownWorktree (root : Path) (spec : TaskSpec) : Path :=
  worktreePath root spec.repository (TaskSlug.generate spec.title spec.id).slug

/-- A task with this specification was stored. -/
def Stored (w : World) (spec : TaskSpec) : Prop :=
  ∃ t, .commit (.upsertTask t) ∈ w.durable.log ∧ t.spec = spec

/-- **Launches are isolated**: a task that was stored with a git repository was launched in its own
worktree only.  The worktree existed, it is in no repository's place, and all earlier checkpoints of
the task were captured from it. -/
def LaunchesIsolated (dirOf : Path → δ) (w : World) : Prop :=
  ∀ before id cwd started after, w.durable.log = before ++ .spawn id cwd started :: after →
    ∀ t, .commit (.upsertTask t) ∈ before → t.spec.id = id →
      t.spec.repositoryPath ∈ w.disk.git.repos →
        cwd = some (ownWorktree w.mem.root t.spec) ∧
          ownWorktree w.mem.root t.spec
            ∈ (Journal.replay w.durable.start before).git.worktrees ∧
          (∀ repo ∈ w.disk.git.repos, dirOf repo ≠ dirOf (ownWorktree w.mem.root t.spec)) ∧
          ∀ dir, .capture id dir ∈ before → dir = ownWorktree w.mem.root t.spec

/-- **No two live tasks share a working directory.** -/
def DirsDistinct (dirOf : Path → δ) (w : World) : Prop :=
  ∀ i j rt rt', w.mem.runtimes.lookup i = some rt → w.mem.runtimes.lookup j = some rt' →
    rt.cwd.map dirOf = rt'.cwd.map dirOf → i = j

/-! ### The rules -/

/-- Nobody but `id` works in `dir`, and it is neither a repository nor a worktree the daemon holds. -/
structure FreeDir (dirOf : Path → δ) (s : Sites) (id : String) (dir : Path) : Prop where
  repo : ∀ repo ∈ s.repos, dirOf repo ≠ dirOf dir
  live : ∀ j rt, s.runtimes.lookup j = some rt → rt.cwd.map dirOf = some (dirOf dir) → j = id
  held : ∀ j handle, s.worktrees.lookup j = some handle → dirOf handle.path ≠ dirOf dir

/-- Launches without a worktree take free directories, and `new` is the one task that may be
created. -/
def isolation (dirOf : Path → δ) (new : Option TaskSpec) : Rules :=
  ⟨FreeDir dirOf, fun spec => new = some spec, fun _ => True, fun _ => True⟩

/-- A free directory is no repository. -/
theorem FreeDir.not_repo {s : Sites} {id : String} {dir : Path} (hf : FreeDir dirOf s id dir) :
    dir ∉ s.repos := fun hin => hf.repo dir hin rfl

/-! ### Logs that grow -/

theorem log_writeAll {w w' : World} {es : List Effect} (hd : w'.durable = w.durable.writeAll es) :
    w'.durable.log = w.durable.log ++ es := by
  rw [hd, Journal.writeAll_log]

theorem Stored.mono {w w' : World} {es : List Effect} {spec : TaskSpec} (hs : Stored w spec)
    (hd : w'.durable = w.durable.writeAll es) : Stored w' spec := by
  obtain ⟨t, ht, hspec⟩ := hs
  refine ⟨t, ?_, hspec⟩
  rw [log_writeAll hd]
  exact List.mem_append_left _ ht

/-! ### Specifications -/

/-- **What is known of the tasks' specifications**: ids and directories belong to one stored task each,
also when `new` is counted in, and tasks in memory and on disk are stored. -/
structure Known (dirOf : Path → δ) (new : Option TaskSpec) (s : Phase × World) : Prop where
  ids : ∀ a b, Stored s.2 a → Stored s.2 b → a.id = b.id → a = b
  dirs : ∀ a b, Stored s.2 a → Stored s.2 b →
    dirOf (ownWorktree s.2.mem.root a) = dirOf (ownWorktree s.2.mem.root b) → a = b
  fresh : ∀ n ∈ new, ∀ a, Stored s.2 a →
    a.id = n.id ∨ dirOf (ownWorktree s.2.mem.root a) = dirOf (ownWorktree s.2.mem.root n) → a = n
  tasks : ∀ id t, s.2.mem.tasks.lookup id = some t → Stored s.2 t.spec ∧ t.spec.id = id
  rows : ∀ id row, s.2.disk.tables.tasks.rows.lookup id = some row → Stored s.2 row.spec
  creates : ∀ spec ∈ s.1.creates, Stored s.2 spec

/-- A row comes from the task it was last written from. -/
theorem row_apply {e : Effect} {d : Disk} {id : String} {row : TaskRow}
    (hrow : (Replay.apply d e : Disk).tables.tasks.rows.lookup id = some row) :
    (∃ t, e = .commit (.upsertTask t) ∧ t.spec = row.spec) ∨
      d.tables.tasks.rows.lookup id = some row := by
  cases e with
  | commit q =>
      cases q with
      | upsertTask t =>
          have hup := (d.tables.lookup_upsertTask id t).symm.trans hrow
          split at hup
          · obtain rfl := Option.some.inj hup
            exact .inl ⟨t, rfl, (TaskRow.upsert_spec _ _).symm⟩
          · exact .inr hup
      | deleteTaskRow i =>
          have hdel := (d.tables.lookup_deleteTaskRow id i).symm.trans hrow
          split at hdel
          · cases hdel
          · exact .inr hdel
      | _ => exact .inr hrow
  | _ => exact .inr hrow

theorem row_replay {es : List Effect} {d : Disk} {id : String} {row : TaskRow}
    (hrow : (Journal.replay d es).tables.tasks.rows.lookup id = some row) :
    (∃ t, .commit (.upsertTask t) ∈ es ∧ t.spec = row.spec) ∨
      d.tables.tasks.rows.lookup id = some row := by
  induction es generalizing d with
  | nil => exact .inr hrow
  | cons e es ih =>
      rcases ih hrow with ⟨t, ht, hspec⟩ | hold
      · exact .inl ⟨t, List.mem_cons_of_mem _ ht, hspec⟩
      · rcases row_apply hold with ⟨t, rfl, hspec⟩ | hold
        · exact .inl ⟨t, List.mem_cons_self, hspec⟩
        · exact .inr hold

/-- A step stores the task that may be created, or one that is registered. -/
theorem Act.stores {s s' : Phase × World} {es : List Effect} {new : Option TaskSpec}
    (ha : Act codec h (isolation dirOf new) s es s') {t : Task} (ht : .commit (.upsertTask t) ∈ es) :
    (∃ id, s.2.mem.tasks.lookup id = some t) ∨ new = some t.spec := by
  cases ha with
  | idle hc => exact nomatch hc.idle _ ht
  | register hn hm hd => cases ht
  | forget hid hl hs hm hroot hrt hwt hd => cases ht
  | artifact hl hs he hm hd =>
      rcases he with rfl | ⟨cp, -, rfl⟩ <;> cases List.mem_singleton.mp ht
  | @save p w w' id t' hp hl hm hd =>
      obtain rfl : t = t' := by simpa using ht
      exact .inl ⟨id, hl⟩
  | @store w w' spec now hn hf hm hd =>
      obtain rfl : t = queuedTask spec now := by simpa using ht
      exact .inr hn
  | _ => cases List.mem_singleton.mp ht

/-- What a step finds registered it found registered before, or has just created. -/
theorem Act.registers {s s' : Phase × World} {es : List Effect} (ha : Act codec h R s es s')
    {id : String} {t' : Task} (ht' : s'.2.mem.tasks.lookup id = some t') :
    (∃ t, s.2.mem.tasks.lookup id = some t ∧ t.spec = t'.spec) ∨
      t'.spec ∈ s.1.creates ∧ t'.spec.id = id := by
  cases ha with
  | idle hc =>
      rw [hc.tasks] at ht'
      exact .inl ⟨t', ht', rfl⟩
  | refused hq hc hp hsp =>
      have hspec := hsp id
      rw [ht'] at hspec
      obtain ⟨t, ht, heq⟩ := Option.map_eq_some_iff.mp hspec.symm
      exact .inl ⟨t, ht, heq⟩
  | move hp ht htr hck hm hd =>
      rw [hm] at ht'
      dsimp only at ht'
      rw [KeyMap.lookup_insert_ite] at ht'
      split at ht'
      · next hj =>
        obtain rfl := Option.some.inj ht'
        obtain ⟨-, -, rfl⟩ := Task.transition_ok htr
        rw [hj]
        exact .inl ⟨_, ht, rfl⟩
      · exact .inl ⟨t', ht', rfl⟩
  -- the one act that registers a specification, with the id it is created under
  | register hn hm hd =>
      rw [hm] at ht'
      dsimp only at ht'
      rw [KeyMap.lookup_insert_ite] at ht'
      split at ht'
      · next hj =>
        obtain rfl := Option.some.inj ht'
        exact .inr ⟨rfl, hj.symm⟩
      · exact .inl ⟨t', ht', rfl⟩
  | forget hid ht hs hm hroot hrt hwt hd =>
      rw [hm, KeyMap.lookup_erase_ite] at ht'
      split at ht'
      · cases ht'
      · exact .inl ⟨t', ht', rfl⟩
  -- these leave the registered tasks alone
  | save _ _ hm _ | store _ _ hm _ | submit hm _ | eraseHistory hm _ | eraseRef hm _
  | eraseRow hm _ | artifact _ _ _ hm _ | reference _ _ _ hm _ | dropRef _ _ hm _ =>
      rw [hm] at ht'
      exact .inl ⟨t', ht', rfl⟩

/-- A task is created only after it was stored. -/
theorem Act.creating {s s' : Phase × World} {es : List Effect} (ha : Act codec h R s es s')
    {spec : TaskSpec} (hs : spec ∈ s'.1.creates) :
    spec ∈ s.1.creates ∨ ∃ t, .commit (.upsertTask t) ∈ es ∧ t.spec = spec := by
  cases ha with
  | idle hc => exact .inl hs
  | refused hq hc hp => exact .inl (hp spec hs)
  | submit hm hd => exact .inl hs
  | @store w w' spec' now hn hf hm hd =>
      obtain rfl := Option.some.inj hs
      exact .inr ⟨_, List.mem_singleton.mpr rfl, rfl⟩
  | _ => cases hs

/-- What is stored after a step was stored before, or may be created. -/
theorem Act.stored {s s' : Phase × World} {es : List Effect} {new : Option TaskSpec}
    (ha : Act codec h (isolation dirOf new) s es s') (hk : Known dirOf new s) {spec : TaskSpec}
    (hs : Stored s'.2 spec) : Stored s.2 spec ∨ new = some spec := by
  obtain ⟨t, ht, rfl⟩ := hs
  rw [log_writeAll ha.durable] at ht
  rcases List.mem_append.mp ht with hold | hnew
  · exact .inl ⟨t, hold, rfl⟩
  · rcases ha.stores hnew with ⟨id, hl⟩ | hn
    · exact .inl (hk.tasks id t hl).1
    · exact .inr hn

/-- **Every small step keeps the specifications apart.** -/
theorem Act.known {s s' : Phase × World} {es : List Effect} {new : Option TaskSpec}
    (ha : Act codec h (isolation dirOf new) s es s') (hk : Known dirOf new s) : Known dirOf new s' := by
  have hmono : ∀ spec, Stored s.2 spec → Stored s'.2 spec := fun _ hs => hs.mono ha.durable
  -- a specification that is stored was stored before, or is the one being created
  refine ⟨fun a b h₁ h₂ heq => ?_, fun a b h₁ h₂ heq => ?_, fun n hn a h₁ heq => ?_,
    fun id t ht => ?_, fun id row hrow => ?_, fun spec hs => ?_⟩
  · rcases ha.stored hk h₁ with ha' | ha' <;> rcases ha.stored hk h₂ with hb' | hb'
    · exact hk.ids a b ha' hb' heq
    · exact hk.fresh b hb' a ha' (.inl heq)
    · exact (hk.fresh a ha' b hb' (.inl heq.symm)).symm
    · exact Option.some.inj (ha'.symm.trans hb')
  · rw [ha.root] at heq
    rcases ha.stored hk h₁ with ha' | ha' <;> rcases ha.stored hk h₂ with hb' | hb'
    · exact hk.dirs a b ha' hb' heq
    · exact hk.fresh b hb' a ha' (.inr heq)
    · exact (hk.fresh a ha' b hb' (.inr heq.symm)).symm
    · exact Option.some.inj (ha'.symm.trans hb')
  · rw [ha.root] at heq
    rcases ha.stored hk h₁ with ha' | ha'
    · exact hk.fresh n hn a ha' heq
    · exact Option.some.inj (ha'.symm.trans hn)
  · rcases ha.registers ht with ⟨u, hu, hspec⟩ | ⟨hc, hid⟩
    · rw [← hspec]
      exact ⟨hmono _ (hk.tasks id u hu).1, (hk.tasks id u hu).2⟩
    · exact ⟨hmono _ (hk.creates _ hc), hid⟩
  · rw [disk_writeAll ha.durable] at hrow
    rcases row_replay hrow with ⟨t, ht, hspec⟩ | hold
    · refine ⟨t, ?_, hspec⟩
      rw [log_writeAll ha.durable]
      exact List.mem_append_right _ ht
    · exact hmono _ (hk.rows id row hold)
  · rcases ha.creating hs with hc | ⟨t, ht, hspec⟩
    · exact hmono _ (hk.creates spec hc)
    · refine ⟨t, ?_, hspec⟩
      rw [log_writeAll ha.durable]
      exact List.mem_append_right _ ht

/-! ### Places -/

/-- The worktree a task holds is its own, and its repository is one. -/
structure OwnHandle (dirOf : Path → δ) (w : World) (id : String) (handle : WorktreeHandle) (spec : TaskSpec) :
    Prop where
  stored : Stored w spec
  id_eq : spec.id = id
  path : handle.path = ownWorktree w.mem.root spec
  repo : spec.repositoryPath ∈ w.disk.git.repos
  there : handle.path ∈ w.disk.git.worktrees
  apart : ∀ repo ∈ w.disk.git.repos, dirOf repo ≠ dirOf handle.path

/-- A live task works in the worktree it holds, or in its directory if that is no repository. -/
def LivesIn (w : World) (id : String) (rt : RuntimeInstance) (spec : TaskSpec) : Prop :=
  Stored w spec ∧ spec.id = id ∧
    match w.mem.worktrees.lookup id with
    | some handle => rt.cwd = some handle.path
    | none => rt.cwd = some spec.repositoryPath ∧ spec.repositoryPath ∉ w.disk.git.repos

/-- **Where everybody is**: handles and providers are in their places, which are distinct. -/
structure Placed (dirOf : Path → δ) (w : World) : Prop where
  handles : ∀ id handle, w.mem.worktrees.lookup id = some handle →
    ∃ spec, OwnHandle dirOf w id handle spec
  live : ∀ id rt, w.mem.runtimes.lookup id = some rt → ∃ spec, LivesIn w id rt spec
  distinct : DirsDistinct dirOf w
  apart : ∀ i rt j handle, w.mem.runtimes.lookup i = some rt →
    w.mem.worktrees.lookup j = some handle → rt.cwd.map dirOf = some (dirOf handle.path) → i = j

theorem OwnHandle.mono {w w' : World} {es : List Effect} {id : String} {handle : WorktreeHandle}
    {spec : TaskSpec} (ho : OwnHandle dirOf w id handle spec) (hd : w'.durable = w.durable.writeAll es)
    (hroot : w'.mem.root = w.mem.root) (hin : handle.path ∈ w'.disk.git.worktrees) :
    OwnHandle dirOf w' id handle spec := by
  refine ⟨ho.stored.mono hd, ho.id_eq, ?_, ?_, hin, ?_⟩
  · rw [hroot]
    exact ho.path
  · rw [repos_writeAll hd]
    exact ho.repo
  · rw [repos_writeAll hd]
    exact ho.apart

theorem LivesIn.mono {w w' : World} {es : List Effect} {id : String} {rt : RuntimeInstance}
    {spec : TaskSpec} (hl : LivesIn w id rt spec) (hd : w'.durable = w.durable.writeAll es)
    (hwt : w'.mem.worktrees.lookup id = w.mem.worktrees.lookup id) : LivesIn w' id rt spec := by
  obtain ⟨hs, hid, hcwd⟩ := hl
  refine ⟨hs.mono hd, hid, ?_⟩
  rw [hwt, repos_writeAll hd]
  exact hcwd

/-- A step that moves nobody, and removes no worktree. -/
theorem Placed.of_same {w w' : World} {es : List Effect} (hp : Placed dirOf w)
    (hd : w'.durable = w.durable.writeAll es) (hes : ∀ p, .worktreeRemove p ∉ es)
    (hroot : w'.mem.root = w.mem.root) (hrt : w'.mem.runtimes = w.mem.runtimes)
    (hwt : w'.mem.worktrees = w.mem.worktrees) : Placed dirOf w' := by
  refine ⟨fun id handle hl => ?_, fun id rt hl => ?_, ?_, ?_⟩
  · rw [hwt] at hl
    obtain ⟨spec, ho⟩ := hp.handles id handle hl
    refine ⟨spec, ho.mono hd hroot ?_⟩
    rw [disk_writeAll hd]
    exact mem_worktrees_replay (hes _) ho.there
  · rw [hrt] at hl
    obtain ⟨spec, hin⟩ := hp.live id rt hl
    exact ⟨spec, hin.mono hd (by rw [hwt])⟩
  · unfold DirsDistinct
    rw [hrt]
    exact hp.distinct
  · rw [hrt, hwt]
    exact hp.apart

/-- A provider is dropped. -/
theorem Placed.drop {w w' : World} {id : String} (hp : Placed dirOf w)
    (hm : w'.mem = { w.mem with runtimes := w.mem.runtimes.erase id })
    (hd : w'.durable = w.durable) : Placed dirOf w' := by
  have hd' : w'.durable = w.durable.writeAll [] := hd.trans (Journal.writeAll_nil _).symm
  have hwt : w'.mem.worktrees = w.mem.worktrees := by rw [hm]
  have hold : ∀ i rt, w'.mem.runtimes.lookup i = some rt → w.mem.runtimes.lookup i = some rt := by
    intro i rt hl
    rw [hm] at hl
    dsimp only at hl
    rw [KeyMap.lookup_erase_ite] at hl
    split at hl
    · cases hl
    · exact hl
  refine ⟨fun i handle hl => ?_, fun i rt hl => ?_, fun i j rt rt' hi hj => ?_,
    fun i rt j handle hi hj => ?_⟩
  · rw [hwt] at hl
    obtain ⟨spec, ho⟩ := hp.handles i handle hl
    refine ⟨spec, ho.mono hd' (by rw [hm]) ?_⟩
    rw [disk_writeAll hd']
    exact ho.there
  · obtain ⟨spec, hin⟩ := hp.live i rt (hold i rt hl)
    exact ⟨spec, hin.mono hd' (by rw [hwt])⟩
  · exact hp.distinct i j rt rt' (hold i rt hi) (hold j rt' hj)
  · rw [hwt] at hj
    exact hp.apart i rt j handle (hold i rt hi) hj

/-- No two tasks hold the same worktree. -/
theorem Placed.handles_inj {new : Option TaskSpec} {p : Phase} {w : World} (hp : Placed dirOf w)
    (hk : Known dirOf new (p, w)) {i j : String} {a b : WorktreeHandle}
    (hi : w.mem.worktrees.lookup i = some a) (hj : w.mem.worktrees.lookup j = some b)
    (hpath : dirOf a.path = dirOf b.path) : i = j := by
  obtain ⟨s, hs⟩ := hp.handles i a hi
  obtain ⟨t, ht⟩ := hp.handles j b hj
  rw [hs.path, ht.path] at hpath
  have heq : s = t := hk.dirs s t hs.stored ht.stored hpath
  rw [← hs.id_eq, heq, ht.id_eq]

/-- A provider is installed in the directory of its task. -/
theorem Placed.install {new : Option TaskSpec} {p : Phase} {w w' : World} {id : String} {t : Task}
    {rt : RuntimeInstance} (hp : Placed dirOf w) (hk : Known dirOf new (p, w))
    (ht : w.mem.tasks.lookup id = some t)
    (hf : (isolation dirOf new).permits w.sites id t.spec.repositoryPath)
    (hcwd : rt.cwd = some (captureDir id t w.mem)) (hroot : w'.mem.root = w.mem.root)
    (hrt : w'.mem.runtimes = w.mem.runtimes.insert id rt)
    (hwt : w'.mem.worktrees = w.mem.worktrees) (hd : w'.durable = w.durable) : Placed dirOf w' := by
  have hd' : w'.durable = w.durable.writeAll [] := hd.trans (Journal.writeAll_nil _).symm
  obtain ⟨hstored, hid⟩ := hk.tasks id t ht
  have hfree : w.mem.worktrees.lookup id = none → FreeDir dirOf w.sites id t.spec.repositoryPath := hf.free
  -- where the task works now, nobody else does
  have halone : ∀ j rt', w.mem.runtimes.lookup j = some rt' →
      rt'.cwd.map dirOf = rt.cwd.map dirOf → j = id := by
    intro j rt' hj heq
    rw [hcwd] at heq
    unfold captureDir at heq
    cases hl : w.mem.worktrees.lookup id with
    | some handle =>
        rw [hl] at heq
        exact hp.apart j rt' id handle hj hl heq
    | none =>
        rw [hl] at heq
        exact (hfree hl).live j rt' hj heq
  refine ⟨fun i handle hl => ?_, fun i rt' hl => ?_, fun i j a b hi hj heq => ?_,
    fun i a j handle hi hj heq => ?_⟩
  · rw [hwt] at hl
    obtain ⟨spec, ho⟩ := hp.handles i handle hl
    refine ⟨spec, ho.mono hd' hroot ?_⟩
    rw [disk_writeAll hd']
    exact ho.there
  · rw [hrt, KeyMap.lookup_insert_ite] at hl
    split at hl
    · next hi =>
      obtain rfl := Option.some.inj hl
      subst hi
      refine ⟨t.spec, hstored.mono hd', hid, ?_⟩
      rw [hwt, repos_writeAll hd', hcwd]
      unfold captureDir
      cases hl : w.mem.worktrees.lookup i with
      | some handle => rfl
      | none => exact ⟨rfl, (hfree hl).not_repo⟩
    · obtain ⟨spec, hin⟩ := hp.live i rt' hl
      exact ⟨spec, hin.mono hd' (by rw [hwt])⟩
  · rw [hrt, KeyMap.lookup_insert_ite] at hi hj
    split at hi <;> split at hj
    · next h₁ h₂ => exact h₁.trans h₂.symm
    · next h₁ h₂ =>
      obtain rfl := Option.some.inj hi
      exact absurd (halone j b hj heq.symm) h₂
    · next h₁ h₂ =>
      obtain rfl := Option.some.inj hj
      exact absurd (halone i a hi heq) h₁
    · exact hp.distinct i j a b hi hj heq
  · rw [hwt] at hj
    rw [hrt, KeyMap.lookup_insert_ite] at hi
    split at hi
    · next h₁ =>
      obtain rfl := Option.some.inj hi
      subst h₁
      rw [hcwd] at heq
      have hdir := Option.some.inj heq
      unfold captureDir at hdir
      cases hl : w.mem.worktrees.lookup i with
      | some own =>
          rw [hl] at hdir
          exact hp.handles_inj hk hl hj hdir
      | none =>
          rw [hl] at hdir
          exact absurd hdir.symm ((hfree hl).held j handle hj)
    · exact hp.apart i a j handle hi hj heq

/-- A worktree is cut for a task that holds none. -/
theorem Placed.cut {new : Option TaskSpec} {p : Phase} {w w' : World} {id base : String} {t : Task}
    {es : List Effect} (hp : Placed dirOf w) (hk : Known dirOf new (p, w))
    (hl : w.mem.worktrees.lookup id = none) (ht : w.mem.tasks.lookup id = some t)
    (hrepo : t.spec.repositoryPath ∈ w.disk.git.repos)
    (hadd : w.disk.git.addable t.spec.repositoryPath (handleFor w.mem.root id t base).branch
      (handleFor w.mem.root id t base).path)
    (hf : FreeDir dirOf w.sites id (handleFor w.mem.root id t base).path)
    (hm : w'.mem = { w.mem with
      worktrees := w.mem.worktrees.insert id (handleFor w.mem.root id t base) })
    (hd : w'.durable = w.durable.writeAll (.worktreeAdd t.spec.repositoryPath
      (handleFor w.mem.root id t base).branch (handleFor w.mem.root id t base).path :: es))
    (he : ∀ e ∈ es, e.quiet) : Placed dirOf w' := by
  obtain ⟨hstored, hid⟩ := hk.tasks id t ht
  have hroot : w'.mem.root = w.mem.root := by rw [hm]
  have hrt : w'.mem.runtimes = w.mem.runtimes := by rw [hm]
  have hwt : ∀ j, j ≠ id → w'.mem.worktrees.lookup j = w.mem.worktrees.lookup j := by
    intro j hj
    rw [hm]
    exact AList.lookup_insert_ne hj
  have hown : (handleFor w.mem.root id t base).path = ownWorktree w.mem.root t.spec := by
    rw [← hid]
    rfl
  have hnone : ∀ q, .worktreeRemove q ∉ es := fun q hq => nomatch he _ hq
  have hkeep : ∀ q ∈ w.disk.git.worktrees, q ∈ w'.disk.git.worktrees := by
    intro q hq
    rw [disk_writeAll hd]
    refine mem_worktrees_replay ?_ hq
    exact List.not_mem_cons_of_ne_of_not_mem (by simp) (hnone q)
  have hthere : (handleFor w.mem.root id t base).path ∈ w'.disk.git.worktrees := by
    rw [disk_writeAll hd]
    exact mem_worktrees_replay (hnone _) List.mem_cons_self
  refine ⟨fun i handle hi => ?_, fun i rt hi => ?_, ?_, fun i rt j handle hi hj heq => ?_⟩
  · by_cases h₁ : i = id
    · subst h₁
      rw [hm] at hi
      obtain rfl := Option.some.inj ((AList.lookup_insert _).symm.trans hi)
      refine ⟨t.spec, hstored.mono hd, hid, ?_, ?_, hthere, ?_⟩
      · rw [hroot]
        exact hown
      · rw [repos_writeAll hd]
        exact hrepo
      · rw [repos_writeAll hd]
        exact hf.repo
    · rw [hwt i h₁] at hi
      obtain ⟨spec, ho⟩ := hp.handles i handle hi
      exact ⟨spec, ho.mono hd hroot (hkeep _ ho.there)⟩
  · rw [hrt] at hi
    obtain ⟨spec, hin⟩ := hp.live i rt hi
    by_cases h₁ : i = id
    · -- a live task without a worktree has no repository to cut one from
      subst h₁
      obtain ⟨hs, hsid, hcwd⟩ := hin
      rw [hl] at hcwd
      obtain rfl := hk.ids spec t.spec hs hstored (hsid.trans hid.symm)
      exact absurd hrepo hcwd.2
    · exact ⟨spec, hin.mono hd (hwt i h₁)⟩
  · unfold DirsDistinct
    rw [hrt]
    exact hp.distinct
  · rw [hrt] at hi
    by_cases h₁ : j = id
    · subst h₁
      rw [hm] at hj
      obtain rfl := Option.some.inj ((AList.lookup_insert _).symm.trans hj)
      exact hf.live i rt hi heq
    · rw [hwt j h₁] at hj
      exact hp.apart i rt j handle hi hj heq

/-- The worktree of a task that does not run is given up. -/
theorem Placed.release {new : Option TaskSpec} {p : Phase} {w w' : World} {id : String}
    {handle : WorktreeHandle} {es : List Effect} (hp : Placed dirOf w) (hk : Known dirOf new (p, w))
    (hid : id ∉ w.mem.runtimes) (hl : w.mem.worktrees.lookup id = some handle)
    (hm : w'.mem = { w.mem with worktrees := w.mem.worktrees.erase id })
    (hd : w'.durable = w.durable.writeAll es)
    (he : ∀ e ∈ es, e.quiet ∨ e = .worktreeRemove handle.path) : Placed dirOf w' := by
  have hroot : w'.mem.root = w.mem.root := by rw [hm]
  have hrt : w'.mem.runtimes = w.mem.runtimes := by rw [hm]
  have hold : ∀ i own, w'.mem.worktrees.lookup i = some own →
      i ≠ id ∧ w.mem.worktrees.lookup i = some own := by
    intro i own hi
    rw [hm] at hi
    dsimp only at hi
    rw [KeyMap.lookup_erase_ite] at hi
    split at hi
    · cases hi
    · next hne => exact ⟨hne, hi⟩
  refine ⟨fun i own hi => ?_, fun i rt hi => ?_, ?_, fun i rt j own hi hj heq => ?_⟩
  · -- the worktrees of the others are other directories: they stay registered
    obtain ⟨hne, hi⟩ := hold i own hi
    obtain ⟨spec, ho⟩ := hp.handles i own hi
    refine ⟨spec, ho.mono hd hroot ?_⟩
    rw [disk_writeAll hd]
    refine mem_worktrees_replay (fun hin => ?_) ho.there
    rcases he _ hin with hq | heq
    · cases hq
    · exact hne (hp.handles_inj hk hi hl (congrArg dirOf (Effect.worktreeRemove.inj heq)))
  · rw [hrt] at hi
    obtain ⟨spec, hin⟩ := hp.live i rt hi
    refine ⟨spec, hin.mono hd ?_⟩
    rw [hm]
    dsimp only
    rw [KeyMap.lookup_erase_ite, if_neg]
    rintro rfl
    exact hid (KeyMap.mem_iff_lookup.mpr ⟨rt, hi⟩)
  · unfold DirsDistinct
    rw [hrt]
    exact hp.distinct
  · rw [hrt] at hi
    exact hp.apart i rt j own hi (hold j own hj).2 heq

/-- **No chore leaves anybody out of place.** -/
theorem Chore.placed {new : Option TaskSpec} {p : Phase} {w w' : World} {es : List Effect}
    (hc : Chore (isolation dirOf new) w es w') (hk : Known dirOf new (p, w)) (hp : Placed dirOf w) : Placed dirOf w' := by
  cases hc with
  | quiet _ hroot hrt hwt hd he => exact hp.of_same hd (fun q hq => nomatch he _ hq) hroot hrt hwt
  | drop hm hd => exact hp.drop hm hd
  | stop _ hm hd => exact hp.of_same hd (by simp) (by rw [hm]) (by rw [hm]) (by rw [hm])
  | install ht hf hcwd hts hroot hrt hwt hd => exact hp.install hk ht hf hcwd hroot hrt hwt hd
  | spawn ht hf hm hd => exact hp.of_same hd (by simp) (by rw [hm]) (by rw [hm]) (by rw [hm])
  | capture hid ht hm hd => exact hp.of_same hd (by simp) (by rw [hm]) (by rw [hm]) (by rw [hm])
  | cut hl ht hrepo hadd hf hm hd he => exact hp.cut hk hl ht hrepo hadd hf hm hd he
  | added hm hd he =>
      refine hp.of_same hd (fun q hq => ?_) (by rw [hm]) (by rw [hm]) (by rw [hm])
      rcases List.mem_cons.mp hq with heq | hin
      · cases heq
      · exact nomatch he _ hin
  | release hid hl hm hd he hg => exact hp.release hk hid hl hm hd he

/-! ### The log -/

/-- Launches are isolated, and checkpoints of tasks in git repositories are captured from their own
worktrees. -/
structure Logged (dirOf : Path → δ) (w : World) : Prop where
  launches : LaunchesIsolated dirOf w
  captures : ∀ id dir, .capture id dir ∈ w.durable.log →
    ∃ spec, Stored w spec ∧ spec.id = id ∧
      (spec.repositoryPath ∈ w.disk.git.repos → dir = ownWorktree w.mem.root spec)

/-- A launch is found in the log as it was, or among the new effects. -/
theorem launches_writeAll {w w' : World} {es : List Effect} (hw : LaunchesIsolated dirOf w)
    (hd : w'.durable = w.durable.writeAll es) (hroot : w'.mem.root = w.mem.root)
    (hnew : ∀ mid id cwd started after, es = mid ++ .spawn id cwd started :: after →
      ∀ t, .commit (.upsertTask t) ∈ w.durable.log ++ mid → t.spec.id = id →
        t.spec.repositoryPath ∈ w.disk.git.repos →
          cwd = some (ownWorktree w.mem.root t.spec) ∧
            ownWorktree w.mem.root t.spec
              ∈ (Journal.replay w.durable.start (w.durable.log ++ mid)).git.worktrees ∧
            (∀ repo ∈ w.disk.git.repos, dirOf repo ≠ dirOf (ownWorktree w.mem.root t.spec)) ∧
            ∀ dir, .capture id dir ∈ w.durable.log ++ mid → dir = ownWorktree w.mem.root t.spec) :
    LaunchesIsolated dirOf w' := by
  intro before id cwd started after hlog t ht hid hrepo
  have hstart : w'.durable.start = w.durable.start := by rw [hd, Journal.writeAll_start]
  rw [log_writeAll hd] at hlog
  rw [repos_writeAll hd] at hrepo
  rw [hroot, hstart, repos_writeAll hd]
  rcases List.append_eq_append_iff.mp hlog with ⟨mid, rfl, hes⟩ | ⟨mid, hold, hrest⟩
  · exact hnew mid id cwd started after hes t ht hid hrepo
  · rcases mid with _ | ⟨e, mid⟩
    · -- the launch is the first new effect
      rw [List.append_nil] at hold
      subst hold
      have hfirst := hnew [] id cwd started after hrest.symm t
      rw [List.append_nil] at hfirst
      exact hfirst ht hid hrepo
    · obtain ⟨rfl, -⟩ := List.cons.inj hrest
      exact hw before id cwd started mid hold t ht hid hrepo

/-- A step that launches and captures nothing. -/
theorem Logged.of_same {w w' : World} {es : List Effect} (hw : Logged dirOf w)
    (hd : w'.durable = w.durable.writeAll es) (hroot : w'.mem.root = w.mem.root)
    (hspawn : ∀ id cwd started, .spawn id cwd started ∉ es)
    (hcapture : ∀ id dir, .capture id dir ∉ es) : Logged dirOf w' := by
  refine ⟨launches_writeAll hw.launches hd hroot ?_, fun id dir hin => ?_⟩
  · rintro mid id cwd started after rfl
    exact absurd (List.mem_append_right _ List.mem_cons_self) (hspawn id cwd started)
  · rw [log_writeAll hd] at hin
    rcases List.mem_append.mp hin with hold | hnew
    · obtain ⟨spec, hs, hid, hdir⟩ := hw.captures id dir hold
      refine ⟨spec, hs.mono hd, hid, ?_⟩
      rw [repos_writeAll hd, hroot]
      exact hdir
    · exact absurd hnew (hcapture id dir)

/-- The directory of a task in a git repository that may be launched, or runs, is its own worktree. -/
theorem captureDir_own {new : Option TaskSpec} {p : Phase} {w : World} {id : String} {t : Task}
    (hk : Known dirOf new (p, w)) (hp : Placed dirOf w) (ht : w.mem.tasks.lookup id = some t)
    (hheld : w.mem.worktrees.lookup id = none → t.spec.repositoryPath ∉ w.disk.git.repos)
    (hrepo : t.spec.repositoryPath ∈ w.disk.git.repos) :
    captureDir id t w.mem = ownWorktree w.mem.root t.spec ∧
      ownWorktree w.mem.root t.spec ∈ w.disk.git.worktrees ∧
      ∀ repo ∈ w.disk.git.repos, dirOf repo ≠ dirOf (ownWorktree w.mem.root t.spec) := by
  obtain ⟨hstored, hid⟩ := hk.tasks id t ht
  unfold captureDir
  cases hl : w.mem.worktrees.lookup id with
  | none => exact absurd hrepo (hheld hl)
  | some handle =>
      obtain ⟨spec, ho⟩ := hp.handles id handle hl
      obtain rfl := hk.ids spec t.spec ho.stored hstored (ho.id_eq.trans hid.symm)
      rw [← ho.path]
      exact ⟨rfl, ho.there, ho.apart⟩

/-- A launch that the rules permit is isolated. -/
theorem Logged.spawn {new : Option TaskSpec} {p : Phase} {w w' : World} {id : String} {t : Task}
    {started : Bool} (hw : Logged dirOf w) (hk : Known dirOf new (p, w)) (hp : Placed dirOf w)
    (ht : w.mem.tasks.lookup id = some t)
    (hf : (isolation dirOf new).permits w.sites id t.spec.repositoryPath) (hm : w'.mem = w.mem)
    (hd : w'.durable = w.durable.write (.spawn id (some (captureDir id t w.mem)) started)) :
    Logged dirOf w' := by
  have hd' : w'.durable
      = w.durable.writeAll [.spawn id (some (captureDir id t w.mem)) started] := hd
  have hroot : w'.mem.root = w.mem.root := by rw [hm]
  obtain ⟨hstored, hid⟩ := hk.tasks id t ht
  have hfree : w.mem.worktrees.lookup id = none → FreeDir dirOf w.sites id t.spec.repositoryPath := hf.free
  refine ⟨launches_writeAll hw.launches hd' hroot ?_, fun i dir hin => ?_⟩
  · intro mid i cwd started' after hes u hu huid hrepo
    -- the launch is the only effect, and it is the last
    rcases mid with _ | ⟨e, mid⟩
    · obtain ⟨hhead, -⟩ := List.cons.inj hes
      obtain ⟨rfl, rfl, rfl⟩ := Effect.spawn.inj hhead
      rw [List.append_nil] at hu ⊢
      obtain heq : u.spec = t.spec :=
        hk.ids u.spec t.spec ⟨u, hu, rfl⟩ hstored (huid.trans hid.symm)
      rw [heq] at hrepo ⊢
      obtain ⟨hdir, hthere, hapart⟩ := captureDir_own hk hp ht (fun hl => (hfree hl).not_repo) hrepo
      refine ⟨congrArg some hdir, hthere, hapart, fun dir hin => ?_⟩
      obtain ⟨spec, hs, hsid, hcap⟩ := hw.captures id dir hin
      obtain rfl := hk.ids spec t.spec hs hstored (hsid.trans hid.symm)
      exact hcap hrepo
    · obtain ⟨-, htl⟩ := List.cons.inj hes
      simp at htl
  · rw [log_writeAll hd'] at hin
    rcases List.mem_append.mp hin with hold | hnew
    · obtain ⟨spec, hs, hsid, hdir⟩ := hw.captures i dir hold
      refine ⟨spec, hs.mono hd', hsid, ?_⟩
      rw [repos_writeAll hd', hroot]
      exact hdir
    · cases List.mem_singleton.mp hnew

/-- A checkpoint of a running task is captured from its own worktree, if it is in a repository. -/
theorem Logged.capture {new : Option TaskSpec} {p : Phase} {w w' : World} {id : String} {t : Task}
    (hw : Logged dirOf w) (hk : Known dirOf new (p, w)) (hp : Placed dirOf w) (hin : id ∈ w.mem.runtimes)
    (ht : w.mem.tasks.lookup id = some t) (hm : w'.mem = w.mem)
    (hd : w'.durable = w.durable.write (.capture id (captureDir id t w.mem))) : Logged dirOf w' := by
  have hd' : w'.durable = w.durable.writeAll [.capture id (captureDir id t w.mem)] := hd
  have hroot : w'.mem.root = w.mem.root := by rw [hm]
  obtain ⟨hstored, hid⟩ := hk.tasks id t ht
  obtain ⟨rt, hrt⟩ := KeyMap.mem_iff_lookup.mp hin
  obtain ⟨spec, hs, hsid, hcwd⟩ := hp.live id rt hrt
  obtain rfl := hk.ids spec t.spec hs hstored (hsid.trans hid.symm)
  have hheld : w.mem.worktrees.lookup id = none → t.spec.repositoryPath ∉ w.disk.git.repos := by
    intro hl
    rw [hl] at hcwd
    exact hcwd.2
  refine ⟨launches_writeAll hw.launches hd' hroot ?_, fun i dir hlog => ?_⟩
  · intro mid i cwd started after hes
    rcases mid with _ | ⟨e, mid⟩
    · cases (List.cons.inj hes).1
    · obtain ⟨-, htl⟩ := List.cons.inj hes
      simp at htl
  · rw [log_writeAll hd'] at hlog
    rw [repos_writeAll hd', hroot]
    rcases List.mem_append.mp hlog with hold | hnew
    · obtain ⟨spec, hs, hsid, hdir⟩ := hw.captures i dir hold
      exact ⟨spec, hs.mono hd', hsid, hdir⟩
    · obtain ⟨rfl, rfl⟩ := Effect.capture.inj (List.mem_singleton.mp hnew)
      exact ⟨t.spec, hs.mono hd', hsid, fun hrepo => (captureDir_own hk hp ht hheld hrepo).1⟩

theorem Chore.logged {new : Option TaskSpec} {p : Phase} {w w' : World} {es : List Effect}
    (hc : Chore (isolation dirOf new) w es w') (hk : Known dirOf new (p, w)) (hp : Placed dirOf w)
    (hw : Logged dirOf w) : Logged dirOf w' := by
  have hquiet : ∀ fs : List Effect, (∀ e ∈ fs, e.quiet) →
      (∀ id cwd started, .spawn id cwd started ∉ fs) ∧ ∀ id dir, .capture id dir ∉ fs :=
    fun fs hfs => ⟨fun _ _ _ hin => (nomatch hfs _ hin), fun _ _ hin => nomatch hfs _ hin⟩
  have hroot := hc.root
  have hdur := hc.durable
  cases hc with
  | spawn ht hf hm hd => exact hw.spawn hk hp ht hf hm hd
  | capture hid ht hm hd => exact hw.capture hk hp hid ht hm hd
  | quiet _ _ _ _ _ he => exact hw.of_same hdur hroot (hquiet _ he).1 (hquiet _ he).2
  | drop hm hd => exact hw.of_same hdur hroot (by simp) (by simp)
  | stop _ _ _ => exact hw.of_same hdur hroot (by simp) (by simp)
  | install _ _ _ _ _ _ _ hd => exact hw.of_same hdur hroot (by simp) (by simp)
  | cut _ _ _ _ _ _ _ he =>
      exact hw.of_same hdur hroot (by simpa using (hquiet _ he).1) (by simpa using (hquiet _ he).2)
  | added _ _ he =>
      exact hw.of_same hdur hroot (by simpa using (hquiet _ he).1) (by simpa using (hquiet _ he).2)
  | release _ _ _ _ he _ =>
      refine hw.of_same hdur hroot (fun id cwd started hin => ?_) (fun id dir hin => ?_)
      · rcases he _ hin with hq | heq
        · cases hq
        · cases heq
      · rcases he _ hin with hq | heq
        · cases hq
        · cases heq

/-! ### Small steps -/

/-- **The invariant**: specifications are apart, everybody is in place, and launches were isolated. -/
structure Isolated (dirOf : Path → δ) (new : Option TaskSpec) (s : Phase × World) : Prop where
  known : Known dirOf new s
  placed : Placed dirOf s.2
  logged : Logged dirOf s.2

/-- A step on a record moves nobody. -/
theorem Isolated.of_record {new : Option TaskSpec} {s : Phase × World} {w' : World}
    {es : List Effect} (hs : Isolated dirOf new s) (hd : w'.durable = s.2.durable.writeAll es)
    (hroot : w'.mem.root = s.2.mem.root) (hrt : w'.mem.runtimes = s.2.mem.runtimes)
    (hwt : w'.mem.worktrees = s.2.mem.worktrees) (hremove : ∀ p, .worktreeRemove p ∉ es)
    (hspawn : ∀ id cwd started, .spawn id cwd started ∉ es)
    (hcapture : ∀ id dir, .capture id dir ∉ es) : Placed dirOf w' ∧ Logged dirOf w' :=
  ⟨hs.placed.of_same hd hremove hroot hrt hwt, hs.logged.of_same hd hroot hspawn hcapture⟩

/-- **Every small step under the rules keeps the invariant.** -/
theorem Act.isolated {s s' : Phase × World} {es : List Effect} {new : Option TaskSpec}
    (ha : Act codec h (isolation dirOf new) s es s') (hs : Isolated dirOf new s) : Isolated dirOf new s' := by
  have hk := ha.known hs.known
  have hd := ha.durable
  have hroot := ha.root
  suffices hboth : Placed dirOf s'.2 ∧ Logged dirOf s'.2 from ⟨hk, hboth.1, hboth.2⟩
  cases ha with
  | idle hc =>
      exact ⟨hc.placed hs.known hs.placed, hc.logged hs.known hs.placed hs.logged⟩
  | refused _ _ _ _ _ hrt hwt _ =>
      exact hs.of_record hd hroot hrt hwt (by simp) (by simp) (by simp)
  | forget _ _ _ _ _ hrt hwt _ =>
      exact hs.of_record hd hroot hrt hwt (by simp) (by simp) (by simp)
  | artifact _ _ he hm _ =>
      refine hs.of_record hd hroot (by rw [hm]) (by rw [hm]) ?_ ?_ ?_ <;>
        rcases he with rfl | ⟨cp, -, rfl⟩ <;> simp
  | move _ _ _ _ hm _ | register _ hm _ | save _ _ hm _ | store _ _ hm _ | submit hm _
  | eraseHistory hm _ | eraseRef hm _ | eraseRow hm _ | reference _ _ _ hm _ | dropRef _ _ hm _ =>
      exact hs.of_record hd hroot (by rw [hm]) (by rw [hm]) (by simp) (by simp) (by simp)

theorem isolated_chain {s s' : Phase × World} {es : List Effect} {new : Option TaskSpec}
    (hc : Chain (Act codec h (isolation dirOf new)) s es s') (hs : Isolated dirOf new s) :
    Isolated dirOf new s' := by
  induction hc with
  | nil => exact hs
  | snoc _ hlast ih => exact hlast.isolated ih

end MemMux
