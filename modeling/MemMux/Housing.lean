/-
MemMux/Housing.lean

Runs in which providers stay isolated.

A launch is housed when the task holds its worktree or can cut it now; a task whose repository is
not one may also run in it, as long as nobody else does.  In a run all launches of which are housed,
every launch of a task in a git repository was made in its own worktree, and no two live tasks share a
directory (`housed_isolated`).

The daemon forgets in a reboot which worktrees it holds, and the branch of a worktree that exists
cannot be added again.  The next launch of the task falls back to the repository
(`reboot_launches_in_repository`).
-/
import MemMux.Isolation

namespace MemMux

open Ledger

variable {codec : CheckpointCodec} {h : Host} {δ : Type} {dirOf : Path → δ}

/-! ### Housed launches -/

instance [DecidableEq δ] (s : Sites) (id : String) (dir : Path) :
    Decidable (FreeDir dirOf s id dir) :=
  decidable_of_iff ((∀ repo ∈ s.repos, dirOf repo ≠ dirOf dir) ∧
      (∀ e ∈ s.runtimes.entries, e.2.cwd.map dirOf = some (dirOf dir) → e.1 = id) ∧
      ∀ e ∈ s.worktrees.entries, dirOf e.2.path ≠ dirOf dir)
    ⟨fun ⟨hrepo, hlive, hheld⟩ =>
        ⟨hrepo, fun j rt hj => hlive ⟨j, rt⟩ (AList.mem_lookup_iff.mp hj),
          fun j handle hj => hheld ⟨j, handle⟩ (AList.mem_lookup_iff.mp hj)⟩,
      fun hf => ⟨hf.repo, fun e he => hf.live e.1 e.2 (AList.mem_lookup_iff.mpr he),
        fun e he => hf.held e.1 e.2 (AList.mem_lookup_iff.mpr he)⟩⟩

/-- The worktree a launch would cut. -/
def Launch.handle (l : Launch) (base : String) : WorktreeHandle :=
  handleFor l.world.mem.root l.id l.task base

/-- The worktree of a launch can be cut: the repository is one, its base branch resolves, the lock is
free, the directory can be made, and neither branch nor path is taken. -/
def Launch.Cuttable (h : Host) (l : Launch) : Prop :=
  let w := l.world
  let repo := l.task.spec.repositoryPath
  repo ∈ w.disk.git.repos ∧
    (h.git w.calls repo ["rev-parse", "--verify", l.task.spec.baseBranch ++ "^{commit}"]).isSome ∧
    h.lock (w.calls + 1) = true ∧ h.makeDir (w.calls + 1) = true ∧
    w.disk.git.addable repo (l.handle "").branch (l.handle "").path = true

/-- **A launch is housed**: the task holds a worktree, it can cut its own now and nobody else is there,
or its repository is none and nobody else works in it. -/
def Launch.Housed (dirOf : Path → δ) (h : Host) (l : Launch) : Prop :=
  l.id ∈ l.world.mem.worktrees ∨
    (l.cuts = true ∧ l.Cuttable h ∧ FreeDir dirOf l.world.sites l.id (l.handle "").path) ∨
    FreeDir dirOf l.world.sites l.id l.task.spec.repositoryPath

instance [DecidableEq δ] (h : Host) (l : Launch) : Decidable (l.Housed dirOf h) :=
  inferInstanceAs (Decidable (_ ∨ (_ ∧ (_ ∧ _ ∧ _ ∧ _ ∧ _) ∧ _) ∨ _))

/-- A worktree that can be cut is cut. -/
theorem createWorktree_cuttable {l : Launch} (hc : l.Cuttable h) :
    ∃ base, (createWorktree h l.id l.task l.world).2 = .ok (l.handle base) := by
  obtain ⟨hrepo, hbase, hlock, hdir, hadd⟩ := hc
  obtain ⟨base, hbase⟩ := Option.isSome_iff_exists.mp hbase
  refine ⟨base, ?_⟩
  have hadd' : l.world.ask.disk.git.addable l.task.spec.repositoryPath
      (handleFor l.world.mem.root l.id l.task base).branch
      (handleFor l.world.mem.root l.id l.task base).path = true := hadd
  have hlock' : (!h.lock l.world.ask.calls) = false := by
    rw [show l.world.ask.calls = l.world.calls + 1 from rfl, hlock]
    rfl
  have hdir' : (!h.makeDir l.world.ask.calls) = false := by
    rw [show l.world.ask.calls = l.world.calls + 1 from rfl, hdir]
    rfl
  unfold createWorktree
  dsimp only
  rw [if_neg (not_not.mpr hrepo), hbase]
  dsimp only
  rw [hlock', hdir', if_neg (by simp), if_neg (by simp), if_pos hadd']
  rfl

/-- **A housed launch is permitted.** -/
theorem Launch.Housed.permitted {l : Launch} (hl : l.Housed dirOf h) (new : Option TaskSpec) :
    l.permitted (isolation dirOf new) h := by
  refine ⟨trivial, fun hnone => ?_⟩
  have hout : l.id ∉ l.world.mem.worktrees := KeyMap.not_mem_iff_lookup.mpr hnone
  have hlook : l.world.mem.worktrees.lookup l.id = none := hnone
  rcases hl with hin | ⟨hcuts, hcut, hf⟩ | hf
  · exact absurd hin hout
  · -- a worktree is cut for it
    obtain ⟨base, hok⟩ := createWorktree_cuttable hcut
    have hdir : l.dir h = (l.handle base).path := by
      unfold Launch.dir ensureWorktree
      rw [if_pos hcuts, hlook]
      rcases hc : createWorktree h l.id l.task l.world with ⟨w, e | handle⟩
      · rw [hc] at hok
        cases hok
      · rw [hc] at hok
        dsimp only
        exact congrArg WorktreeHandle.path (Except.ok.inj hok)
    rw [hdir]
    exact hf
  · have hdir : l.dir h = l.task.spec.repositoryPath := by
      unfold Launch.dir ensureWorktree
      split
      · rw [hlook]
        have hrepo : l.task.spec.repositoryPath ∉ l.world.disk.git.repos := hf.not_repo
        unfold createWorktree
        rw [if_pos hrepo]
      · rfl
    rw [hdir]
    exact hf

/-! ### Between operations -/

/-- The specification an effect stores. -/
def Effect.stores : Effect → Option TaskSpec
  | .commit (.upsertTask t) => some t.spec
  | _ => none

/-- No task was stored under this id, or with a worktree in this place. -/
def Unused (dirOf : Path → δ) (w : World) (spec : TaskSpec) : Prop :=
  ∀ e ∈ w.durable.log, ∀ a ∈ e.stores,
    a.id ≠ spec.id ∧ dirOf (ownWorktree w.mem.root a) ≠ dirOf (ownWorktree w.mem.root spec)

instance [DecidableEq δ] (w : World) (spec : TaskSpec) : Decidable (Unused dirOf w spec) :=
  inferInstanceAs (Decidable (∀ e ∈ w.durable.log, ∀ a ∈ e.stores, _ ≠ _ ∧ _ ≠ _))

theorem Unused.of_stored {w : World} {spec a : TaskSpec} (hu : Unused dirOf w spec)
    (hs : Stored w a) : a.id ≠ spec.id ∧
      dirOf (ownWorktree w.mem.root a) ≠ dirOf (ownWorktree w.mem.root spec) := by
  obtain ⟨t, ht, rfl⟩ := hs
  exact hu _ ht _ rfl

/-- New tasks have ids and worktrees of their own, and all launches are housed. -/
def Sheltered (codec : CheckpointCodec) (dirOf : Path → δ) (w : World) : Event → Prop
  | .op h i | .crash h i _ _ =>
      (∀ spec ∈ newSpec h w i, Unused dirOf w spec) ∧ ∀ l ∈ launchesOf codec h i w, l.Housed dirOf h
  | .reboot _ => True

instance [DecidableEq δ] (codec : CheckpointCodec) (w : World) :
    ∀ e, Decidable (Sheltered codec dirOf w e)
  | .op h i | .crash h i _ _ =>
      inferInstanceAs (Decidable
        ((∀ spec ∈ newSpec h w i, Unused dirOf w spec) ∧ ∀ l ∈ launchesOf codec h i w, l.Housed dirOf h))
  | .reboot _ => inferInstanceAs (Decidable True)

/-- Counting in a task that is unused. -/
theorem Isolated.count {w : World} {new : Option TaskSpec} (hs : Isolated dirOf none (.rest, w))
    (hn : ∀ spec ∈ new, Unused dirOf w spec) : Isolated dirOf new (.rest, w) := by
  obtain ⟨hk, hp, hl⟩ := hs
  refine ⟨⟨hk.ids, hk.dirs, fun n hnew a ha heq => ?_, hk.tasks, hk.rows, hk.creates⟩, hp, hl⟩
  obtain ⟨hid, hdir⟩ := (hn n hnew).of_stored ha
  rcases heq with heq | heq
  · exact absurd heq hid
  · exact absurd heq hdir

theorem Isolated.uncount {s : Phase × World} {new : Option TaskSpec} (hs : Isolated dirOf new s) :
    Isolated dirOf none s :=
  ⟨⟨hs.known.ids, hs.known.dirs, fun _ hn => (Option.not_mem_none _ hn).elim, hs.known.tasks,
    hs.known.rows, hs.known.creates⟩,
    hs.placed, hs.logged⟩

/-- An operation under these conditions keeps the rules of isolation. -/
theorem complies_isolation {w : World} {i : Input} (hs : Isolated dirOf none (.rest, w))
    (hn : ∀ spec ∈ newSpec h w i, Unused dirOf w spec)
    (hl : ∀ l ∈ launchesOf codec h i w, l.Housed dirOf h) :
    Complies codec h (isolation dirOf (newSpec h w i)) w i := by
  refine ⟨fun spec hspec hin => ?_, fun spec hspec => hspec, fun l hin => (hl l hin).permitted _,
    fun _ => trivial⟩
  obtain ⟨t, ht⟩ := KeyMap.mem_iff_lookup.mp hin
  obtain ⟨hstored, hid⟩ := hs.known.tasks _ t ht
  exact ((hn spec hspec).of_stored hstored).1 hid

/-- **A daemon that boots finds the invariant as it was left**: it holds nothing and runs nothing. -/
theorem Isolated.boot {s : Phase × World} (hs : Isolated dirOf none s) (h : Host)
    (envelope : ResourceEnvelope) {root : Path} (hroot : root = s.2.mem.root)
    {disk : Journal Disk Effect} (hdisk : disk = s.2.durable) :
    Isolated dirOf none (.rest, MemMux.boot h envelope root disk) := by
  subst hroot hdisk
  obtain ⟨e, he, hd⟩ := boot_disk h envelope s.2.mem.root s.2.durable
  have hsame := boot_sameRecord h envelope s.2.mem.root s.2.durable
  have hlook := boot_lookup h envelope s.2.mem.root s.2.durable
  have hheld : (MemMux.boot h envelope s.2.mem.root s.2.durable).mem.worktrees = ∅ := rfl
  have hlive : (MemMux.boot h envelope s.2.mem.root s.2.durable).mem.runtimes = ∅ := rfl
  have hroot : (MemMux.boot h envelope s.2.mem.root s.2.durable).mem.root = s.2.mem.root := rfl
  -- only what a boot does to the record and the disk matters
  generalize MemMux.boot h envelope s.2.mem.root s.2.durable = w at hd hsame hlook hheld hlive hroot
  have hd' : w.durable = s.2.durable.writeAll [e] := hd
  have hmono : ∀ a, Stored s.2 a → Stored w a := fun _ ha => ha.mono hd'
  -- a boot writes no task
  have hold : ∀ a, Stored w a → Stored s.2 a := by
    rintro a ⟨t, ht, rfl⟩
    rw [log_writeAll hd'] at ht
    rcases List.mem_append.mp ht with hin | hnew
    · exact ⟨t, hin, rfl⟩
    · rw [← List.mem_singleton.mp hnew] at he
      cases he
  have hrow : ∀ id row, w.disk.tables.tasks.rows.lookup id = some row →
      Stored s.2 row.spec := fun id row hl => hs.known.rows id row ((hsame id).1.symm.trans hl)
  refine ⟨⟨fun a b ha hb => hs.known.ids a b (hold a ha) (hold b hb), fun a b ha hb heq => ?_,
    fun _ hn => (Option.not_mem_none _ hn).elim, fun id t ht => ?_,
    fun id row hl => hmono _ (hrow id row hl), Phase.creates_rest⟩,
    ⟨fun id handle hl => ?_, fun id rt hl => ?_, fun i j rt rt' hi => ?_, fun i rt j handle hi => ?_⟩,
    hs.logged.of_same hd' hroot ?_ ?_⟩
  · rw [hroot] at heq
    exact hs.known.dirs a b (hold a ha) (hold b hb) heq
  · rw [hlook id] at ht
    have hid := Tables.spec_id_of_loadTask _ _ ht
    obtain ⟨row, hl, rfl⟩ := (Tables.loadTask_eq_some_iff _ _).mp ht
    exact ⟨hmono _ (hs.known.rows id row hl), hid⟩
  · rw [hheld] at hl
    cases hl
  · rw [hlive] at hl
    cases hl
  · rw [hlive] at hi
    cases hi
  · rw [hlive] at hi
    cases hi
  · intro id cwd started hin
    rw [← List.mem_singleton.mp hin] at he
    cases he
  · intro id dir hin
    rw [← List.mem_singleton.mp hin] at he
    cases he

theorem fresh_isolated (h : Host) (envelope : ResourceEnvelope) (root : Path) (repos : List Path) :
    Isolated dirOf none (.rest, MemMux.boot h envelope root (freshDisk repos)) := by
  let w : World :=
    { mem := bootState envelope root (freshDisk repos).state.tables, durable := freshDisk repos
      procs := h.table, calls := 0 }
  have hstored : ∀ a, ¬ Stored w a := by
    rintro a ⟨t, ht, -⟩
    cases ht
  have hrows : ∀ id, w.disk.tables.tasks.rows.lookup id = none := fun _ => rfl
  have htasks : ∀ id, w.mem.tasks.lookup id = none := fun _ => rfl
  have hw : Isolated dirOf none (.rest, w) := by
    refine ⟨⟨fun a _ ha => absurd ha (hstored a), fun a _ ha => absurd ha (hstored a),
      fun _ hn => (Option.not_mem_none _ hn).elim, fun id t ht => ?_, fun id row hrow => ?_,
      Phase.creates_rest⟩,
      ⟨fun id handle hl => ?_, fun id rt hl => ?_, fun i j rt rt' hi => ?_,
        fun i rt j handle hi => ?_⟩, ⟨?_, fun id dir hin => ?_⟩⟩
    · cases (htasks id).symm.trans ht
    · cases (hrows id).symm.trans hrow
    · cases hl
    · cases hl
    · cases hi
    · cases hi
    · intro before id cwd started after hlog
      simp [w, freshDisk] at hlog
    · cases hin
  exact hw.boot h envelope rfl rfl

/-! ### Runs -/

theorem isolated_next (w : World) (e : Event) (hw : Live w.ledger ∧ Isolated dirOf none (.rest, w))
    (hok : Sheltered codec dirOf w e) :
    Live (next codec w e).ledger ∧ Isolated dirOf none (.rest, next codec w e) := by
  obtain ⟨hl, hs⟩ := hw
  cases e with
  | op h i =>
      obtain ⟨hn, hh⟩ := hok
      have hm : AnyMoves w.ledger (perform codec h i w).ledger := perform_moves_any hl
      have hc := perform_chain hl (complies_isolation hs hn hh)
      exact ⟨hm.live hl, (isolated_chain hc (hs.count hn)).uncount⟩
  | reboot h => exact ⟨live_boot _ _ _ _, hs.boot h _ rfl rfl⟩
  | crash h i k h' =>
      obtain ⟨hn, hh⟩ := hok
      obtain ⟨q, u, hc, hcut⟩ := crash_chain hl (complies_isolation hs hn hh) k
      refine ⟨live_boot _ _ _ _, ?_⟩
      show Isolated dirOf none (.rest, MemMux.boot h' w.mem.envelope w.mem.root
        ((perform codec h i w).durable.cut (w.durable.log.length + k)))
      rw [hcut]
      exact (isolated_chain hc (hs.count hn)).uncount.boot h' _ (chain_root hc).symm rfl

/-- **Housed launches stay isolated.**  Whichever paths name one directory: in a run whose new tasks have
ids and worktrees of their own, and all of whose launches are housed, a task in a git repository was
launched in its own worktree only, from which its checkpoints were captured, and no two live tasks
share a working directory. -/
theorem housed_isolated (dirOf : Path → δ) (h : Host) (envelope : ResourceEnvelope) (root : Path)
    (repos : List Path) (es : List Event)
    (hok : Run.Allowed (next codec) (Sheltered codec dirOf)
      (boot h envelope root (freshDisk repos)) es) :
    let w := runs codec (boot h envelope root (freshDisk repos)) es
    LaunchesIsolated dirOf w ∧ DirsDistinct dirOf w := by
  obtain ⟨-, hs⟩ := Run.invariant (@isolated_next codec δ dirOf)
    ⟨live_boot h envelope root (freshDisk repos), fresh_isolated h envelope root repos⟩ hok
  exact ⟨hs.logged.launches, hs.placed.distinct⟩

theorem housed_isolated_recycled :
    let w := runs serdeJson (boot steadyHost smallHost "/memmux" (freshDisk ["/repo"]))
      createAndRecycle
    LaunchesIsolated Path.components w ∧ DirsDistinct Path.components w :=
  housed_isolated Path.components steadyHost smallHost "/memmux" ["/repo"] createAndRecycle
    (by decide +kernel)

/-- The task runs, the daemon is rebooted, and the task is restarted. -/
def rebootAndRestart : List Event :=
  createAndRestart ++
    [.reboot steadyHost, .op steadyHost (.request (.restartTask fixLogin))]

/-- The new daemon does not know of the worktree, cannot add it again, and launches the task in the
repository itself. -/
theorem reboot_launches_in_repository :
    ¬ LaunchesIsolated Path.components (runs serdeJson (boot steadyHost smallHost "/memmux" (freshDisk ["/repo"]))
      rebootAndRestart) := by
  intro hiso
  -- the launch after the reboot, and what was stored before it
  have hlog : (runs serdeJson (boot steadyHost smallHost "/memmux" (freshDisk ["/repo"]))
      rebootAndRestart).durable.log[25]? = some (.spawn fixLogin (some "/repo") true) := by
    decide +kernel
  have hstored : ∃ e ∈ (runs serdeJson (boot steadyHost smallHost "/memmux" (freshDisk ["/repo"]))
      rebootAndRestart).durable.log.take 25, ∃ a ∈ e.stores,
        a.id = fixLogin ∧ a.repositoryPath = "/repo" := by
    decide +kernel
  have hrepo : "/repo" ∈ (runs serdeJson (boot steadyHost smallHost "/memmux"
      (freshDisk ["/repo"])) rebootAndRestart).disk.git.repos := by
    decide +kernel
  generalize runs serdeJson (boot steadyHost smallHost "/memmux" (freshDisk ["/repo"]))
    rebootAndRestart = w at hiso hlog hstored hrepo
  have hsplit : w.durable.log
      = w.durable.log.take 25 ++ .spawn fixLogin (some "/repo") true :: w.durable.log.drop 26 := by
    obtain ⟨hlt, hget⟩ := List.getElem?_eq_some_iff.mp hlog
    rw [← hget, ← List.drop_eq_getElem_cons hlt, List.take_append_drop]
  obtain ⟨e, he, a, ha, hid, hpath⟩ := hstored
  obtain ⟨t, rfl, rfl⟩ : ∃ t, e = .commit (.upsertTask t) ∧ t.spec = a := by
    unfold Effect.stores at ha
    split at ha
    · exact ⟨_, rfl, Option.some.inj ha⟩
    · cases ha
  obtain ⟨hcwd, -, hapart, -⟩ := hiso _ _ _ _ _ hsplit t he hid (by rwa [hpath])
  rw [← Option.some.inj hcwd] at hapart
  exact hapart _ hrepo rfl

end MemMux
