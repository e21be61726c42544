/-
MemMux/Reaping.lean

Whom the daemon signals (`sample_tick`, `reap_task_processes` and `act_reclaim_escaped` in
`memmuxd/src/daemon.rs`, `terminate_pids` in `memmux-metrics/src/terminate.rs`).

The daemon remembers pids: those it saw under the root of a task, those it reported as escaped, and
those a sweep is at.  In between processes fork, exit and are waited for, and a pid is free again.
Here the steps of the daemon interleave with those of the processes, down to the single signals of a
sweep.

`only_managed_signalled`: as long as no pid the daemon remembers is given to a process outside
the subtrees of the tasks, every process that is signalled was in such a subtree.  The daemon
does not look: a pid it has seen is its own for as long as any process has it.

The sweep of this model is the daemon's: where nothing comes in between, it signals what
`terminatePids` does (`sent_sweep`).
-/
import MemMux.Managed
import MemMux.PidTable
import MemMux.PumpMoves
import MemMux.Reclaim
import MemMux.Run

namespace MemMux

variable {h : Host}

/-! ### What a tick remembers -/

/-- The daemon has recorded the pid: seen under a task, or reported as escaped. -/
def Recorded (m : DaemonState) (p : Pid) : Prop :=
  (∃ id ps, m.seenPids.lookup id = some ps ∧ p ∈ ps) ∨ p ∈ m.escapedReported

/-- `p` is the pid of the provider of a task. -/
def RootPid (m : DaemonState) (p : Pid) : Prop :=
  ∃ id rt n, m.runtimes.lookup id = some rt ∧ rt.pid = some n ∧ p = asI32 n

/-- `p` is the root of a task in the tree, or one of its descendants. -/
def UnderTask (tree : ProcessTree) (roots : List (String × Pid)) (p : Pid) : Prop :=
  ∃ r ∈ roots, p = r.2 ∨ p ∈ tree.descendants r.2

theorem mem_taskRoots {m : DaemonState} {ids : List String} {r : String × Pid}
    (hr : r ∈ taskRoots m ids) : RootPid m r.2 := by
  rw [taskRoots, List.mem_filterMap] at hr
  obtain ⟨id, -, hid⟩ := hr
  rw [Option.map_eq_some_iff] at hid
  have ⟨n, hn, heq⟩ := hid
  have ⟨rt, hrt, hpid⟩ := Option.bind_eq_some_iff.mp hn
  refine ⟨id, rt, n, hrt, hpid, ?_⟩
  rw [← heq]

/-- Sampling tasks records what is under their roots, and what was recorded. -/
theorem seen_sampleOne {tree : ProcessTree} {now : UInt64} {roots : List (String × Pid)} {w : World}
    {id : String} {ps : List Pid} {p : Pid}
    (hps : (roots.foldl (sampleOne h tree now) w).mem.seenPids.lookup id = some ps) (hp : p ∈ ps) :
    (∃ id' ps', w.mem.seenPids.lookup id' = some ps' ∧ p ∈ ps') ∨ UnderTask tree roots p := by
  induction roots generalizing w with
  | nil => exact .inl ⟨id, ps, hps, hp⟩
  | cons r roots ih =>
      rcases ih hps with ⟨id', ps', hlook, hp'⟩ | ⟨r', hr', hunder⟩
      · -- recorded for the task that is sampled first, or not touched by it
        have hins : (w.mem.seenPids.insert r.1
            ((((r.2 :: tree.descendants r.2) ++ (w.mem.seenPids.lookup r.1).getD []).dedup).filter
              fun q => (tree.get q).isSome)).lookup id' = some ps' := hlook
        rw [KeyMap.lookup_insert_ite] at hins
        split at hins
        · obtain rfl := Option.some.inj hins
          rcases List.mem_append.mp (List.mem_dedup.mp (List.mem_filter.mp hp').1) with hnew | hold
          · exact .inr ⟨r, List.mem_cons_self, List.mem_cons.mp hnew⟩
          · cases hseen : w.mem.seenPids.lookup r.1 with
            | none =>
                rw [hseen] at hold
                exact absurd hold List.not_mem_nil
            | some qs =>
                rw [hseen] at hold
                exact .inl ⟨r.1, qs, hseen, hold⟩
        · exact .inl ⟨id', ps', hins, hp'⟩
      · exact .inr ⟨r', List.mem_cons_of_mem _ hr', hunder⟩

/-- Reporting escaped processes records their pids, and touches nothing else. -/
theorem foldl_reportEscaped (fs : List FlaggedProcess) (w : World) :
    (fs.foldl (reportEscaped h) w).mem.seenPids = w.mem.seenPids ∧
      ∀ p ∈ (fs.foldl (reportEscaped h) w).mem.escapedReported,
        p ∈ w.mem.escapedReported ∨ p ∈ fs.map (·.pid) := by
  induction fs generalizing w with
  | nil => exact ⟨rfl, fun p hp => .inl hp⟩
  | cons f fs ih =>
      obtain ⟨hseen, hesc⟩ := ih (reportEscaped h w f)
      have hone : (reportEscaped h w f).mem.seenPids = w.mem.seenPids ∧
          ∀ p ∈ (reportEscaped h w f).mem.escapedReported,
            p ∈ w.mem.escapedReported ∨ p = f.pid := by
        unfold reportEscaped
        split
        · exact ⟨rfl, fun p hp => .inl hp⟩
        · exact ⟨rfl, fun p hp => (List.mem_cons.mp hp).symm⟩
      refine ⟨hseen.trans hone.1, fun p hp => ?_⟩
      rw [List.map_cons, List.mem_cons]
      rcases hesc p hp with hp | hp
      · exact (hone.2 p hp).imp_right .inl
      · exact .inr (.inr hp)

/-- Escaped pids are under a root, or were seen. -/
theorem mem_escaped {tree : ProcessTree} {roots : List (String × Pid)}
    {seen : KeyMap String (List Pid)} {p : Pid}
    (hp : p ∈ (managedReconcile tree roots seen).escaped.map (·.pid)) :
    UnderTask tree roots p ∨ ∃ id ps, seen.lookup id = some ps ∧ p ∈ ps := by
  have hpids : p ∈ managedPids tree roots seen := by
    rw [managedReconcile_eq, reconcileTree, List.map_map] at hp
    obtain ⟨q, hq, rfl⟩ := List.mem_map.mp hp
    exact (mem_managedMatching.mp hq).1
  rcases mem_managedPids.mp hpids with ⟨r, hr, -, hrp⟩ | ⟨-, e, he, hpe⟩
  · exact .inl ⟨r, hr, List.mem_cons.mp (ProcessTree.mem_subtree.mpr hrp)⟩
  · exact .inr ⟨e.1, e.2, AList.mem_lookup_iff.mpr he, hpe⟩

/-- The sampling loop records what is under the roots, and what was recorded. -/
theorem seen_sampleAll {tree : ProcessTree} {now : UInt64} {roots : List (String × Pid)} {w : World}
    {id : String} {ps : List Pid} {p : Pid}
    (hps : (sampleAll h tree roots now w).mem.seenPids.lookup id = some ps) (hp : p ∈ ps) :
    (∃ id' ps', w.mem.seenPids.lookup id' = some ps' ∧ p ∈ ps') ∨ UnderTask tree roots p := by
  rcases seen_sampleOne hps hp with ⟨id', ps', hlook, hp'⟩ | hunder
  · exact .inl ⟨id', ps', KeyMap.lookup_of_lookup_filter hlook, hp'⟩
  · exact .inr hunder

theorem escaped_sampleAll (tree : ProcessTree) (now : UInt64) (roots : List (String × Pid))
    (w : World) : (sampleAll h tree roots now w).mem.escapedReported = w.mem.escapedReported := by
  have hfold : ∀ (rs : List (String × Pid)) (u : World),
      (rs.foldl (sampleOne h tree now) u).mem.escapedReported = u.mem.escapedReported := by
    intro rs
    induction rs with
    | nil => exact fun _ => rfl
    | cons r rs ih => exact fun u => ih (sampleOne h tree now u r)
  exact hfold roots _

/-- A reconciliation records what was recorded, and what it finds escaped. -/
theorem recorded_reconcileManaged (report : ReconciliationReport) (w : World) :
    (reconcileManaged h report w).mem.seenPids = w.mem.seenPids ∧
      ∀ p ∈ (reconcileManaged h report w).mem.escapedReported,
        p ∈ w.mem.escapedReported ∨ p ∈ report.escaped.map (·.pid) := by
  have hfold := @foldl_reportEscaped h report.escaped
  unfold reconcileManaged
  dsimp only
  split
  · obtain ⟨hseen, hesc⟩ := hfold (event h none "process" "attribution_below_gate" "warn"
        { w with mem := { w.mem with attributedFraction := report.attributedFraction } })
    exact ⟨hseen, fun p hp => hesc p (List.mem_filter.mp hp).1⟩
  · obtain ⟨hseen, hesc⟩ := hfold
      { w with mem := { w.mem with attributedFraction := report.attributedFraction } }
    exact ⟨hseen, fun p hp => hesc p (List.mem_filter.mp hp).1⟩

theorem recorded_sampleRoots {now : UInt64} {roots : List (String × Pid)} {w : World} {p : Pid}
    (hp : Recorded (sampleRoots h roots now w).mem p) :
    Recorded w.mem p ∨ UnderTask (ProcessTree.fromSamples w.procs) roots p := by
  unfold sampleRoots at hp
  dsimp only at hp
  set tree := ProcessTree.fromSamples w.procs
  obtain ⟨hseen, hesc⟩ := @recorded_reconcileManaged h
    (managedReconcile tree roots (sampleAll h tree roots now w).mem.seenPids)
    (sampleAll h tree roots now w)
  have hsampled : ∀ {id ps}, (sampleAll h tree roots now w).mem.seenPids.lookup id = some ps →
      p ∈ ps → Recorded w.mem p ∨ UnderTask tree roots p := fun hps hin =>
    (seen_sampleAll hps hin).imp_left .inl
  rcases hp with ⟨id, ps, hlook, hin⟩ | hin
  · rw [hseen] at hlook
    exact hsampled hlook hin
  · rcases hesc p hin with hold | hnew
    · rw [escaped_sampleAll] at hold
      exact .inl (.inr hold)
    · rcases mem_escaped hnew with hunder | ⟨id, ps, hlook, hin'⟩
      · exact .inr hunder
      · exact hsampled hlook hin'

/-- **What a tick records** was recorded, or is under the root of a task as the snapshot shows it. -/
theorem recorded_sampleTick {now : UInt64} {w : World} {p : Pid}
    (hp : Recorded (sampleTick h now w).mem p) :
    Recorded w.mem p ∨ ∃ r, RootPid w.mem r ∧
      (p = r ∨ p ∈ (ProcessTree.fromSamples w.procs).descendants r) := by
  unfold sampleTick at hp
  dsimp only at hp
  split at hp
  · exact .inl hp
  · split at hp
    · rcases hp with ⟨id, ps, hlook, -⟩ | hp
      · cases hlook
      · exact absurd hp List.not_mem_nil
    · split at hp
      · exact .inl hp
      · refine (recorded_sampleRoots hp).imp_right ?_
        rintro ⟨r, hr, hpr⟩
        exact ⟨r.2, mem_taskRoots hr, hpr⟩

/-- A tick leaves the providers as they are. -/
theorem runtimes_sampleTick (now : UInt64) (w : World) :
    (sampleTick h now w).mem.runtimes = w.mem.runtimes :=
  congrArg Ledger.runtimes (World.ledger_of_books (sampleTick_books now w))

namespace Reaping

/-! ### The system -/

/-- How far a sweep of `terminate_pids` is. -/
inductive Stage
  /-- the pids that are still to get `SIGTERM` -/
  | term (queue : List Pid)
  /-- the pids that are still to get `SIGKILL` -/
  | kill (queue : List Pid)
  deriving DecidableEq, Repr

/-- A sweep: of the task that is reaped, or, without one, of the escaped processes. -/
structure Sweep where
  task : Option String
  targeted : List Pid
  stage : Stage
  deriving DecidableEq, Repr

/-- What the daemon is doing.  It does one thing at a time: requests and pumps wait for its lock. -/
inductive Job
  | idle
  /-- `pump` has waited for the providers of these tasks, and retires them in order -/
  | retiring (exited : List String)
  | sweeping (sweep : Sweep) (exited : List String)
  deriving DecidableEq, Repr

/-- The tasks whose provider was waited for, and which are not retired yet. -/
def Job.exited : Job → List String
  | .idle => []
  | .retiring exited => exited
  | .sweeping _ exited => exited

/-- The pids the sweep is at. -/
def Job.targeted : Job → List Pid
  | .sweeping sweep _ => sweep.targeted
  | _ => []

/-- The pids that get the next signals of the sweep. -/
def Job.queue : Job → List Pid
  | .sweeping ⟨_, _, .term queue⟩ _ => queue
  | .sweeping ⟨_, _, .kill queue⟩ _ => queue
  | _ => []

/-- The daemon among the processes of its machine. -/
structure Sys where
  /-- the pid of the daemon -/
  self : Pid
  table : PidTable Pid
  /-- the numbers of the providers it launched -/
  launched : List Nat
  world : World
  job : Job

/-- One step of a process or of the daemon.  `snap` is what a sampler sees of the table: what a tick
or a reap does with it depends on nothing else, so that whatever happens meanwhile may as well happen
afterwards. -/
inductive Event
  | fork (parent pid : Pid)
  | exit (pid : Pid)
  /-- the exit of a process is waited for -/
  | release (pid : Pid)
  /-- a provider is launched and installed -/
  | launch (id : String) (rt : RuntimeInstance)
  /-- a provider is dropped, as hibernating, recycling and terminating do -/
  | drop (id : String)
  | tick (h : Host) (now : UInt64) (snap : List ProcessSample)
  /-- `pump` finds the providers of these tasks exited -/
  | notice (ids : List String)
  /-- `pump` retires the next of them -/
  | retire (h : Host) (snap : List ProcessSample)
  | terminate (h : Host) (id : String) (snap : List ProcessSample)
  /-- `act_reclaim_escaped` -/
  | reclaim
  /-- the sweep sends its next signal -/
  | signal
  /-- the sweep takes a snapshot, if it can -/
  | look (sampled : Bool) (snap : List ProcessSample)

/-- The snapshot shows processes that are there, with their parents; `init` and the kernel aside. -/
def Sys.shows (s : Sys) (snap : List ProcessSample) : Bool :=
  snap.all fun x =>
    (decide (x.pid ≤ 1) && decide (x.ppid ≤ 1)) ||
      match s.table.procs x.pid with
      | some pr => decide (pr.parent = x.ppid)
      | none => false

/-- The pids of the providers that were not waited for. -/
def Sys.held (s : Sys) : List Pid :=
  (taskRoots s.world.mem (s.world.mem.runtimes.keys.filter (· ∉ s.job.exited))).map (·.2)

/-- The provider of the task has exited. -/
def Sys.providerExited (s : Sys) (id : String) : Bool :=
  match (s.world.mem.runtimes.lookup id).bind (·.pid) with
  | some n => !s.table.running (asI32 n)
  | none => true

/-- The daemon goes on with the providers it has to retire. -/
def Job.next (exited : List String) : Job := if exited = [] then .idle else .retiring exited

/-- The end of a sweep: what it was for is forgotten. -/
def Sys.finish (s : Sys) (task : Option String) (exited : List String) : Sys :=
  match task with
  | some id =>
      { s with
          world := { s.world with
            mem := { s.world.mem with
              seenPids := s.world.mem.seenPids.erase id
              samples := s.world.mem.samples.erase id } }
          job := .next exited }
  | none =>
      { s with
          world := { s.world with mem := { s.world.mem with escapedReported := [] } }
          job := .next exited }

/-- The pids `terminate_pids` targets. -/
def sweepTargets (pids : List Pid) : List Pid :=
  ((pids.filter (1 < ·)).dedup).insertionSort (· ≤ ·)

/-- `terminate_pids` begins; children get their signal before their parents. -/
def Sys.sweep (s : Sys) (task : Option String) (pids : List Pid) (exited : List String) : Sys :=
  if sweepTargets pids = [] then s.finish task exited
  else
    { s with
        job := .sweeping ⟨task, sweepTargets pids, .term (sweepTargets pids).reverse⟩ exited }

/-- The providers the daemon has. -/
def Sys.withRuntimes (s : Sys) (runtimes : KeyMap String RuntimeInstance) : Sys :=
  { s with world := { s.world with mem := { s.world.mem with runtimes := runtimes } } }

/-- `reap_task_processes` begins. -/
def Sys.reap (s : Sys) (h : Host) (id : String) (root : Option Nat) (snap : List ProcessSample)
    (exited : List String) : Sys :=
  s.sweep (some id) (reapTargets h id root { s.world with procs := snap }) exited

/-- A provider is launched: a child of the daemon is born, and installed. -/
def Sys.launch (s : Sys) (id : String) (rt : RuntimeInstance) : Sys :=
  match rt.pid with
  | none => s.withRuntimes (s.world.mem.runtimes.insert id rt)
  | some n =>
      if s.table.procs (asI32 n) = none ∧ 1 < asI32 n then
        { s.withRuntimes (s.world.mem.runtimes.insert id rt) with
            table := s.table.birth s.self (asI32 n)
            launched := s.table.born :: s.launched }
      else s

/-- What an event does; one that is not due does nothing. -/
def step (s : Sys) : Event → Sys
  | .fork parent pid =>
      if s.table.running parent = true ∧ s.table.procs pid = none ∧ 1 < pid then
        { s with table := s.table.birth parent pid }
      else s
  | .exit pid => if pid = s.self then s else { s with table := s.table.exit 1 pid }
  | .release pid =>
      if s.table.running pid = false ∧ pid ∉ s.held then
        { s with table := s.table.release pid }
      else s
  | .launch id rt => if s.job = .idle then s.launch id rt else s
  | .drop id =>
      if s.job = .idle then s.withRuntimes (s.world.mem.runtimes.erase id) else s
  | .tick h now snap =>
      if s.job = .idle ∧ s.shows snap = true then
        { s with world := sampleTick h now { s.world with procs := snap } }
      else s
  | .notice ids =>
      if s.job = .idle ∧ ∀ id ∈ ids, s.providerExited id = true then
        { s with job := .next ids }
      else s
  | .retire h snap =>
      match s.job with
      | .retiring (id :: exited) =>
          if s.shows snap = true then
            (s.withRuntimes (s.world.mem.runtimes.erase id)).reap h id
              ((s.world.mem.runtimes.lookup id).bind (·.pid)) snap exited
          else s
      | _ => s
  | .terminate h id snap =>
      if s.job = .idle ∧ s.shows snap = true then
        s.reap h id ((s.world.mem.runtimes.lookup id).bind (·.pid)) snap []
      else s
  | .reclaim => if s.job = .idle then s.sweep none s.world.mem.escapedReported [] else s
  | .signal =>
      match s.job with
      | .sweeping ⟨task, targeted, .term (_ :: queue)⟩ exited =>
          { s with job := .sweeping ⟨task, targeted, .term queue⟩ exited }
      | .sweeping ⟨task, targeted, .kill (_ :: queue)⟩ exited =>
          { s with job := .sweeping ⟨task, targeted, .kill queue⟩ exited }
      | _ => s
  | .look sampled snap =>
      match s.job with
      | .sweeping ⟨task, targeted, .term []⟩ exited =>
          if s.shows snap = true then
            let alive := ProcessTree.fromSamples snap
            let survivors := targeted.filter fun p => (alive.get p).isSome
            if !sampled ∨ survivors = [] then s.finish task exited
            else { s with job := .sweeping ⟨task, targeted, .kill survivors⟩ exited }
          else s
      | .sweeping ⟨task, _, .kill []⟩ exited => s.finish task exited
      | _ => s

/-! ### Whom the daemon may signal -/

/-- The process under `p` is in the subtree of a provider. -/
def Sys.managed (s : Sys) (p : Pid) : Prop := PidTable.Under (· ∈ s.launched) s.table p

/-- A machine on which a daemon starts: a table as an operating system keeps it, with the daemon
in it. -/
structure Outset where
  self : Pid
  table : PidTable Pid
  valid : table.Valid (· ≤ 1)
  running : table.running self = true

/-- The daemon has booted on it. -/
def start (o : Outset) (h : Host) (envelope : ResourceEnvelope) (root : Path)
    (disk : Journal Disk MemMux.Effect) : Sys :=
  ⟨o.self, o.table, [], boot h envelope root disk, .idle⟩

/-- The process with the number `i` was at some time of the run in the subtree of a provider. -/
def WasManaged (s : Sys) (es : List Event) (i : Nat) : Prop :=
  ∃ q, q <+: es ∧ ∃ p pr, (Run.run step s q).table.procs p = some pr ∧ pr.ident = i ∧
    (Run.run step s q).managed p

/-- **Only processes of managed tasks are signalled**: whatever process has the pid when a signal is
sent, it was in the subtree of a provider by then.  A signal to a pid that no process has reaches
nobody. -/
def OnlyManaged (s : Sys) (es : List Event) : Prop :=
  ∀ q, q ++ [.signal] <+: es → ∀ p pr, (Run.run step s q).job.queue.head? = some p →
    (Run.run step s q).table.procs p = some pr → WasManaged s q pr.ident

/-- The daemon remembers the pid. -/
def Sys.remembers (s : Sys) (p : Pid) : Prop := Recorded s.world.mem p ∨ p ∈ s.job.targeted

/-- `p` is the pid of a provider that was waited for and is not retired yet. -/
def Sys.awaited (s : Sys) (p : Pid) : Prop :=
  ∃ id ∈ s.job.exited, ∃ rt n, s.world.mem.runtimes.lookup id = some rt ∧ rt.pid = some n ∧
    asI32 n = p

/-- **No pid the daemon remembers goes to a process of others**: who is born under one is born into
the subtree of a provider, and nobody under that of a provider that waits to be retired. -/
def NotReused (s : Sys) : Event → Prop
  | .fork parent pid =>
      s.table.running parent = true → s.table.procs pid = none → 1 < pid →
        (s.remembers pid → s.managed parent) ∧ ¬ s.awaited pid
  | _ => True

/-! ### The invariant -/

/-- The process under `p` is a provider. -/
def Sys.provider (s : Sys) (p : Pid) : Prop :=
  1 < p ∧ ∃ pr, s.table.procs p = some pr ∧ pr.ident ∈ s.launched

/-- Whoever has the pid is one of `own`. -/
def Sys.ours (own : Nat → Prop) (s : Sys) (p : Pid) : Prop :=
  ∀ pr, s.table.procs p = some pr → own pr.ident

/-- **What the daemon remembers is its own.**  `own` are the processes that were managed so far. -/
structure Inv (own : Nat → Prop) (s : Sys) : Prop where
  valid : s.table.Valid (· ≤ 1)
  running : s.table.running s.self = true
  /-- managed processes are counted -/
  counted : ∀ p, s.managed p → s.ours own p
  /-- a provider keeps its pid until it was waited for -/
  held : ∀ id rt n, s.world.mem.runtimes.lookup id = some rt → rt.pid = some n →
    id ∉ s.job.exited → s.provider (asI32 n)
  /-- and nobody gets the pid before it is retired -/
  ended : ∀ id rt n, s.world.mem.runtimes.lookup id = some rt → rt.pid = some n →
    id ∈ s.job.exited → 1 < asI32 n ∧ s.table.running (asI32 n) = false ∧ s.ours own (asI32 n)
  remembered : ∀ p, s.remembers p → s.ours own p
  queued : ∀ p ∈ s.job.queue, p ∈ s.job.targeted

section Invariant

variable {own own' : Nat → Prop} {s s' : Sys} {snap : List ProcessSample}

theorem Sys.ours.mono {p : Pid} (ho : s.ours own p) (hsub : ∀ i, own i → own' i) :
    s.ours own' p := fun pr hp => hsub _ (ho pr hp)

theorem Inv.mono (hi : Inv own s) (hsub : ∀ i, own i → own' i) : Inv own' s where
  valid := hi.valid
  running := hi.running
  counted p hp := (hi.counted p hp).mono hsub
  held := hi.held
  ended id rt n hlook hpid hin := by
    obtain ⟨h1, hrun, hours⟩ := hi.ended id rt n hlook hpid hin
    exact ⟨h1, hrun, hours.mono hsub⟩
  remembered p hp := (hi.remembered p hp).mono hsub
  queued := hi.queued

/-- A provider is managed. -/
theorem Sys.provider.managed {p : Pid} (hp : s.provider p) : s.managed p := by
  obtain ⟨-, pr, hpr, hin⟩ := hp
  exact .root hpr hin

/-! ### Snapshots -/

/-- A sampled child is a child in the table. -/
theorem child_of_shows (hshow : s.shows snap = true) {p q : Pid} (hp : 1 < p)
    (hc : (ProcessTree.fromSamples snap).IsChild p q) :
    ∃ pr, s.table.procs q = some pr ∧ pr.parent = p := by
  obtain ⟨x, hx, rfl, rfl⟩ := hc
  have hone := List.all_eq_true.mp hshow x hx
  rw [Bool.or_eq_true, Bool.and_eq_true, decide_eq_true_iff, decide_eq_true_iff] at hone
  rcases hone with ⟨-, hle⟩ | hin
  · exact absurd hle (not_le.mpr hp)
  · cases hpr : s.table.procs x.pid with
    | none =>
        rw [hpr] at hin
        cases hin
    | some pr =>
        rw [hpr] at hin
        exact ⟨pr, rfl, of_decide_eq_true hin⟩

/-- A managed process is no reserved pid. -/
theorem Inv.one_lt (hi : Inv own s) {p : Pid} (hp : s.managed p) : 1 < p := by
  obtain ⟨pr, hpr⟩ := PidTable.Under.procs hp
  by_contra hle
  rw [hi.valid.free p (not_lt.mp hle)] at hpr
  cases hpr

/-- **What a snapshot shows under a managed process is managed.** -/
theorem Inv.managed_descendants (hi : Inv own s) (hshow : s.shows snap = true) {r p : Pid}
    (hr : s.managed r) (hp : p ∈ (ProcessTree.fromSamples snap).descendants r) : s.managed p := by
  obtain ⟨-, hrp⟩ := ProcessTree.mem_descendants.mp hp
  clear hp
  have hstep : ∀ {x y}, s.managed x → (ProcessTree.fromSamples snap).IsChild x y →
      s.managed y := by
    intro x y hx hxy
    obtain ⟨pr, hpr, rfl⟩ := child_of_shows hshow (hi.one_lt hx) hxy
    exact .child hpr hx
  induction hrp with
  | single h => exact hstep hr h
  | tail _ h ih => exact hstep ih h

/-- A snapshot shows nothing under a process that does not run. -/
theorem Inv.no_descendants (hi : Inv own s) (hshow : s.shows snap = true) {r p : Pid}
    (h1 : 1 < r) (hrun : s.table.running r = false) :
    p ∉ (ProcessTree.fromSamples snap).descendants r := by
  intro hp
  obtain ⟨-, hrp⟩ := ProcessTree.mem_descendants.mp hp
  obtain ⟨c, hc, -⟩ := Relation.TransGen.head'_iff.mp hrp
  obtain ⟨pr, hpr, hparent⟩ := child_of_shows hshow h1 hc
  exact hi.valid.parent_ne (not_le.mpr h1) hrun hpr hparent

/-- A provider and what is sampled under it are the daemon's own. -/
theorem Inv.ours_under (hi : Inv own s) (hshow : s.shows snap = true) {r p : Pid}
    (hr : s.provider r) (hp : p = r ∨ p ∈ (ProcessTree.fromSamples snap).descendants r) :
    s.ours own p := by
  rcases hp with rfl | hp
  · exact hi.counted p hr.managed
  · exact hi.counted p (hi.managed_descendants hshow hr.managed hp)

/-! ### Steps of processes -/

/-- Nobody but a newborn comes to a pid. -/
theorem inv_fork {parent pid : Pid} (hi : Inv own s) (hparent : s.table.running parent = true)
    (hfree : s.table.procs pid = none) (h1 : 1 < pid)
    (hok : (s.remembers pid → s.managed parent) ∧ ¬ s.awaited pid)
    (hnow : ∀ p, Sys.managed { s with table := s.table.birth parent pid } p →
      Sys.ours own { s with table := s.table.birth parent pid } p) :
    Inv own { s with table := s.table.birth parent pid } := by
  have hours : ∀ {p}, p ≠ pid → s.ours own p →
      Sys.ours own { s with table := s.table.birth parent pid } p := by
    intro p hne ho pr hp
    have hp' : (s.table.birth parent pid).procs p = some pr := hp
    rw [PidTable.procs_birth, if_neg hne] at hp'
    exact ho pr hp'
  refine ⟨hi.valid.birth (not_le.mpr h1) hfree hparent, ?_, hnow, ?_, ?_, ?_, hi.queued⟩
  · exact PidTable.running_birth_of_running hfree hi.running
  · intro id rt n hlook hpid hin
    obtain ⟨hn, pr, hpr, hl⟩ := hi.held id rt n hlook hpid hin
    exact ⟨hn, pr, PidTable.procs_birth_of_some hfree hpr, hl⟩
  · intro id rt n hlook hpid hin
    obtain ⟨hn, hrun, ho⟩ := hi.ended id rt n hlook hpid hin
    have hne : asI32 n ≠ pid := fun heq => hok.2 ⟨id, hin, rt, n, hlook, hpid, heq⟩
    exact ⟨hn, (PidTable.running_birth hne).trans hrun, hours hne ho⟩
  · intro p hp
    by_cases hpid : p = pid
    · -- the newborn is in the subtree its parent is in
      subst hpid
      exact hnow p (PidTable.under_birth hfree (hok.1 hp))
    · exact hours hpid (hi.remembered p hp)

theorem inv_exit {pid : Pid} (hi : Inv own s) (hself : pid ≠ s.self)
    (hnow : ∀ p, Sys.managed { s with table := s.table.exit 1 pid } p →
      Sys.ours own { s with table := s.table.exit 1 pid } p) :
    Inv own { s with table := s.table.exit 1 pid } := by
  have hours : ∀ {p}, s.ours own p →
      Sys.ours own { s with table := s.table.exit 1 pid } p := by
    intro p ho pr hp
    obtain ⟨old, hold, rfl⟩ := PidTable.procs_exit.mp hp
    exact ho old hold
  refine ⟨hi.valid.exit le_rfl pid, ?_, hnow, ?_, ?_, ?_, hi.queued⟩
  · show (s.table.exit 1 pid).running s.self = true
    rw [PidTable.running_exit, hi.running]
    exact decide_eq_true hself.symm
  · intro id rt n hlook hpid hin
    obtain ⟨hn, pr, hpr, hl⟩ := hi.held id rt n hlook hpid hin
    exact ⟨hn, _, PidTable.procs_exit.mpr ⟨pr, hpr, rfl⟩, hl⟩
  · intro id rt n hlook hpid hin
    obtain ⟨hn, hrun, ho⟩ := hi.ended id rt n hlook hpid hin
    refine ⟨hn, ?_, hours ho⟩
    show (s.table.exit 1 pid).running (asI32 n) = false
    rw [PidTable.running_exit, hrun]
    rfl
  · exact fun p hp => hours (hi.remembered p hp)

/-- The pid of a provider that was not waited for is held. -/
theorem mem_held {id : String} {rt : RuntimeInstance} {n : Nat}
    (hlook : s.world.mem.runtimes.lookup id = some rt) (hpid : rt.pid = some n)
    (hin : id ∉ s.job.exited) : asI32 n ∈ s.held := by
  have hkey : id ∈ s.world.mem.runtimes.keys :=
    AList.mem_keys.mpr (KeyMap.mem_iff_lookup.mpr ⟨rt, hlook⟩)
  rw [Sys.held, List.mem_map]
  refine ⟨(id, asI32 n), ?_, ?_⟩
  · rw [taskRoots, List.mem_filterMap]
    refine ⟨id, List.mem_filter.mpr ⟨hkey, decide_eq_true hin⟩, ?_⟩
    rw [hlook, Option.bind_some, hpid, Option.map_some]
  · simp only

theorem inv_release {pid : Pid} (hi : Inv own s) (hrun : s.table.running pid = false)
    (hheld : pid ∉ s.held)
    (hnow : ∀ p, Sys.managed { s with table := s.table.release pid } p →
      Sys.ours own { s with table := s.table.release pid } p) :
    Inv own { s with table := s.table.release pid } := by
  have hours : ∀ {p}, s.ours own p →
      Sys.ours own { s with table := s.table.release pid } p :=
    fun ho pr hp => ho pr (PidTable.procs_of_release hp)
  refine ⟨hi.valid.release hrun, ?_, hnow, ?_, ?_, ?_, hi.queued⟩
  · show (s.table.release pid).running s.self = true
    rw [PidTable.running_release, hi.running]
    refine decide_eq_true ?_
    rintro rfl
    rw [hi.running] at hrun
    cases hrun
  · intro id rt n hlook hpid hin
    obtain ⟨hn, pr, hpr, hl⟩ := hi.held id rt n hlook hpid hin
    refine ⟨hn, pr, ?_, hl⟩
    show (s.table.release pid).procs (asI32 n) = some pr
    rw [PidTable.procs_release, if_neg]
    · exact hpr
    · -- nobody but the daemon waits for its provider, and it has not
      exact fun heq => hheld (heq ▸ mem_held hlook hpid hin)
  · intro id rt n hlook hpid hin
    obtain ⟨hn, hend, ho⟩ := hi.ended id rt n hlook hpid hin
    refine ⟨hn, ?_, hours ho⟩
    show (s.table.release pid).running (asI32 n) = false
    rw [PidTable.running_release, hend]
    rfl
  · exact fun p hp => hours (hi.remembered p hp)

/-! ### Steps of the daemon -/

/-- A job that leaves the exited providers as they are, and is at pids of the daemon's own. -/
theorem Inv.withJob {job : Job} (hi : Inv own s) (hexited : job.exited = s.job.exited)
    (htargeted : ∀ p ∈ job.targeted, s.ours own p) (hqueue : ∀ p ∈ job.queue, p ∈ job.targeted) :
    Inv own { s with job := job } := by
  refine ⟨hi.valid, hi.running, hi.counted, fun id rt n hlook hpid hin => ?_,
    fun id rt n hlook hpid hin => ?_, fun p hp => ?_, hqueue⟩
  · exact hi.held id rt n hlook hpid (hexited ▸ hin)
  · exact hi.ended id rt n hlook hpid (hexited ▸ hin)
  · rcases hp with hp | hp
    · exact hi.remembered p (.inl hp)
    · exact htargeted p hp

@[simp] theorem Job.exited_next (exited : List String) : (Job.next exited).exited = exited := by
  unfold Job.next
  split
  · next h => rw [h]; rfl
  · rfl

@[simp] theorem Job.targeted_next (exited : List String) : (Job.next exited).targeted = [] := by
  unfold Job.next
  split <;> rfl

@[simp] theorem Job.queue_next (exited : List String) : (Job.next exited).queue = [] := by
  unfold Job.next
  split <;> rfl

/-- The daemon goes on with the next thing to do. -/
theorem Inv.next (hi : Inv own s) : Inv own { s with job := .next s.job.exited } := by
  refine hi.withJob (Job.exited_next _) ?_ ?_
  · rw [Job.targeted_next]
    exact fun _ hp => absurd hp List.not_mem_nil
  · rw [Job.queue_next]
    exact fun _ hp => absurd hp List.not_mem_nil

/-- Worlds with the same providers differ for the invariant in the recorded pids alone. -/
theorem Inv.withWorld {w : World} (hi : Inv own s)
    (hruntimes : w.mem.runtimes = s.world.mem.runtimes)
    (hrecorded : ∀ p, Recorded w.mem p → s.ours own p) : Inv own { s with world := w } := by
  refine ⟨hi.valid, hi.running, hi.counted, fun id rt n hlook hpid hin => ?_,
    fun id rt n hlook hpid hin => ?_, fun p hp => ?_, hi.queued⟩
  · exact hi.held id rt n (hruntimes ▸ hlook) hpid hin
  · exact hi.ended id rt n (hruntimes ▸ hlook) hpid hin
  · rcases hp with hp | hp
    · exact hrecorded p hp
    · exact hi.remembered p (.inr hp)

theorem inv_finish (hi : Inv own s) (task : Option String) :
    Inv own (s.finish task s.job.exited) := by
  cases task with
  | some id =>
      have hw : Inv own { s with world := (s.finish (some id) s.job.exited).world } := by
        refine hi.withWorld rfl fun p hp => hi.remembered p (.inl ?_)
        rcases hp with ⟨id', ps, hlook, hin⟩ | hp
        · have hlook' : (s.world.mem.seenPids.erase id).lookup id' = some ps := hlook
          rw [KeyMap.lookup_erase_ite] at hlook'
          split at hlook'
          · cases hlook'
          · exact .inl ⟨id', ps, hlook', hin⟩
        · exact .inr hp
      exact hw.next
  | none =>
      have hw : Inv own { s with world := (s.finish none s.job.exited).world } := by
        refine hi.withWorld rfl fun p hp => hi.remembered p (.inl ?_)
        exact hp.imp_right fun hin => absurd hin List.not_mem_nil
      exact hw.next

theorem mem_sweepTargets {pids : List Pid} {p : Pid} (hp : p ∈ sweepTargets pids) : p ∈ pids := by
  rw [sweepTargets, List.mem_insertionSort, List.mem_dedup] at hp
  exact (List.mem_filter.mp hp).1

theorem inv_sweep {pids : List Pid} (hi : Inv own s) (hpids : ∀ p ∈ pids, s.ours own p)
    (task : Option String) : Inv own (s.sweep task pids s.job.exited) := by
  unfold Sys.sweep
  split
  · exact inv_finish hi task
  · exact hi.withJob rfl (fun p hp => hpids p (mem_sweepTargets hp)) fun p hp =>
      List.mem_reverse.mp hp

/-- A reap targets what is sampled under the root, and what was recorded. -/
theorem of_mem_reapTargets {id : String} {root : Option Nat} {w : World} {p : Pid}
    (hp : p ∈ reapTargets h id root w) :
    (∃ n, root = some n ∧
      (p = asI32 n ∨ p ∈ (ProcessTree.fromSamples w.procs).descendants (asI32 n))) ∨
      Recorded w.mem p := by
  unfold reapTargets at hp
  dsimp only at hp
  rcases List.mem_append.mp (List.mem_filter.mp hp).1 with hlive | hseen
  · cases root with
    | none => exact absurd hlive List.not_mem_nil
    | some n =>
        dsimp only at hlive
        split at hlive
        · exact .inl ⟨n, rfl, List.mem_cons.mp hlive⟩
        · exact absurd hlive List.not_mem_nil
  · cases hlook : w.mem.seenPids.lookup id with
    | none =>
        rw [hlook] at hseen
        exact absurd hseen List.not_mem_nil
    | some ps =>
        rw [hlook] at hseen
        exact .inr (.inl ⟨id, ps, hlook, hseen⟩)

/-- A task is reaped whose root, and all that is sampled under it, are the daemon's own. -/
theorem inv_reap {id : String} {root : Option Nat} (hi : Inv own s)
    (hroot : ∀ n p, root = some n →
      (p = asI32 n ∨ p ∈ (ProcessTree.fromSamples snap).descendants (asI32 n)) → s.ours own p) :
    Inv own (s.reap h id root snap s.job.exited) := by
  refine inv_sweep hi (fun p hp => ?_) (some id)
  rcases of_mem_reapTargets hp with ⟨n, hn, hunder⟩ | hrec
  · exact hroot n p hn hunder
  · exact hi.remembered p (.inl hrec)

/-- A provider that is born takes a free pid. -/
theorem inv_birth {id : String} {rt : RuntimeInstance} {n : Nat} {pid : Pid} (hi : Inv own s)
    (hidle : s.job = .idle) (hn : rt.pid = some n) (heq : asI32 n = pid)
    (hfree : s.table.procs pid = none) (h1 : 1 < pid)
    (hnow : ∀ p,
      Sys.managed { s.withRuntimes (s.world.mem.runtimes.insert id rt) with
        table := s.table.birth s.self pid
        launched := s.table.born :: s.launched } p →
      Sys.ours own { s.withRuntimes (s.world.mem.runtimes.insert id rt) with
        table := s.table.birth s.self pid
        launched := s.table.born :: s.launched } p) :
    Inv own { s.withRuntimes (s.world.mem.runtimes.insert id rt) with
      table := s.table.birth s.self pid
      launched := s.table.born :: s.launched } := by
  -- the number of the newborn is one no process had before
  have hborn : (s.table.birth s.self pid).procs pid = some ⟨s.self, s.table.born, false⟩ := by
    rw [PidTable.procs_birth, if_pos rfl]
  refine ⟨hi.valid.birth (not_le.mpr h1) hfree hi.running, ?_, hnow, ?_, ?_, ?_, hi.queued⟩
  · exact PidTable.running_birth_of_running hfree hi.running
  · intro id' rt' n' hlook hpid hin
    have hlook' : (s.world.mem.runtimes.insert id rt).lookup id' = some rt' := hlook
    rw [KeyMap.lookup_insert_ite] at hlook'
    split at hlook'
    · -- the provider that is installed
      rw [← Option.some.inj hlook', hn] at hpid
      rw [← Option.some.inj hpid, heq]
      exact ⟨h1, _, hborn, List.mem_cons_self⟩
    · have ⟨hn', pr, hpr, hl⟩ := hi.held id' rt' n' hlook' hpid hin
      exact ⟨hn', pr, PidTable.procs_birth_of_some hfree hpr, List.mem_cons_of_mem _ hl⟩
  · intro id' rt' n' hlook hpid hin
    have hin' : id' ∈ s.job.exited := hin
    rw [hidle] at hin'
    exact absurd hin' List.not_mem_nil
  · intro p hp
    by_cases hpid : p = pid
    · rw [hpid]
      exact hnow pid (.root hborn List.mem_cons_self)
    · intro pr hpr
      have hpr' : (s.table.birth s.self pid).procs p = some pr := hpr
      rw [PidTable.procs_birth, if_neg hpid] at hpr'
      exact hi.remembered p hp pr hpr'

/-- Providers that are dropped, or have no pid. -/
theorem Inv.withRuntimes {runtimes : KeyMap String RuntimeInstance} {job : Job} (hi : Inv own s)
    (hsub : ∀ id rt n, runtimes.lookup id = some rt → rt.pid = some n →
      s.world.mem.runtimes.lookup id = some rt ∧ (id ∈ job.exited ↔ id ∈ s.job.exited))
    (htargeted : job.targeted = []) (hqueue : job.queue = []) :
    Inv own { s.withRuntimes runtimes with job := job } := by
  refine ⟨hi.valid, hi.running, hi.counted, fun id rt n hlook hpid hin => ?_,
    fun id rt n hlook hpid hin => ?_, fun p hp => ?_, fun p hp => ?_⟩
  · obtain ⟨hold, hiff⟩ := hsub id rt n hlook hpid
    exact hi.held id rt n hold hpid (mt hiff.mpr hin)
  · obtain ⟨hold, hiff⟩ := hsub id rt n hlook hpid
    exact hi.ended id rt n hold hpid (hiff.mp hin)
  · rcases hp with hp | hp
    · exact hi.remembered p (.inl hp)
    · have hp' : p ∈ job.targeted := hp
      rw [htargeted] at hp'
      exact absurd hp' List.not_mem_nil
  · have hp' : p ∈ job.queue := hp
    rw [hqueue] at hp'
    exact absurd hp' List.not_mem_nil

/-- The same between two jobs. -/
theorem Inv.idle_withRuntimes {runtimes : KeyMap String RuntimeInstance} (hi : Inv own s)
    (hidle : s.job = .idle)
    (hsub : ∀ id rt n, runtimes.lookup id = some rt → rt.pid = some n →
      s.world.mem.runtimes.lookup id = some rt) : Inv own (s.withRuntimes runtimes) := by
  have hjob : Inv own { s.withRuntimes runtimes with job := s.job } := by
    refine hi.withRuntimes (fun id rt n hlook hn => ⟨hsub id rt n hlook hn, Iff.rfl⟩) ?_ ?_
    · rw [hidle]
      rfl
    · rw [hidle]
      rfl
  exact hjob

theorem inv_launch {id : String} {rt : RuntimeInstance} (hi : Inv own s) (hidle : s.job = .idle)
    (hnow : ∀ p, (s.launch id rt).managed p → (s.launch id rt).ours own p) :
    Inv own (s.launch id rt) := by
  cases hpid : rt.pid with
  | none =>
      have heq : s.launch id rt = s.withRuntimes (s.world.mem.runtimes.insert id rt) := by
        unfold Sys.launch
        rw [hpid]
      rw [heq]
      refine hi.idle_withRuntimes hidle fun id' rt' n hlook hn => ?_
      rw [KeyMap.lookup_insert_ite] at hlook
      split at hlook
      · rw [← Option.some.inj hlook, hpid] at hn
        cases hn
      · exact hlook
  | some n =>
      unfold Sys.launch at hnow ⊢
      rw [hpid] at hnow ⊢
      dsimp only at hnow ⊢
      split at hnow
      · next hfree =>
        rw [if_pos hfree]
        exact inv_birth hi hidle hpid rfl hfree.1 hfree.2 hnow
      · next hfree =>
        rw [if_neg hfree]
        exact hi

/-- While no sweep is on, the pid of every task root is that of a provider. -/
theorem Inv.provider_of_rootPid (hi : Inv own s) (hidle : s.job = .idle) {r : Pid}
    (hr : RootPid s.world.mem r) : s.provider r := by
  have ⟨id, rt, n, hlook, hpid, heq⟩ := hr
  rw [heq]
  refine hi.held id rt n hlook hpid ?_
  rw [hidle]
  exact List.not_mem_nil

theorem inv_tick {now : UInt64} (hi : Inv own s) (hidle : s.job = .idle)
    (hshow : s.shows snap = true) :
    Inv own { s with world := sampleTick h now { s.world with procs := snap } } := by
  refine hi.withWorld (runtimes_sampleTick now _) fun p hp => ?_
  rcases recorded_sampleTick hp with hold | ⟨r, hr, hunder⟩
  · exact hi.remembered p (.inl hold)
  · exact hi.ours_under hshow (hi.provider_of_rootPid hidle hr) hunder

/-- The providers that have exited are waited for. -/
theorem inv_notice {ids : List String} (hi : Inv own s) (hidle : s.job = .idle)
    (hex : ∀ id ∈ ids, s.providerExited id = true) : Inv own { s with job := .next ids } := by
  have hnone : ∀ id, id ∉ s.job.exited := by
    rw [hidle]
    exact fun _ => List.not_mem_nil
  refine ⟨hi.valid, hi.running, hi.counted, fun id rt n hlook hpid _ => ?_,
    fun id rt n hlook hpid hin => ?_, fun p hp => ?_, fun p hp => ?_⟩
  · exact hi.held id rt n hlook hpid (hnone id)
  · have hin' : id ∈ (Job.next ids).exited := hin
    rw [Job.exited_next] at hin'
    -- still held when it is noticed: the pid is that of a provider which has exited
    have hp := hi.held id rt n hlook hpid (hnone id)
    have hrun := hex id hin'
    unfold Sys.providerExited at hrun
    rw [hlook, Option.bind_some, hpid] at hrun
    dsimp only at hrun
    rw [Bool.not_eq_true'] at hrun
    exact ⟨hp.1, hrun, hi.counted _ hp.managed⟩
  · rcases hp with hp | hp
    · exact hi.remembered p (.inl hp)
    · have hp' : p ∈ (Job.next ids).targeted := hp
      rw [Job.targeted_next] at hp'
      exact absurd hp' List.not_mem_nil
  · have hp' : p ∈ (Job.next ids).queue := hp
    rw [Job.queue_next] at hp'
    exact absurd hp' List.not_mem_nil

/-- The root of a task that is retired has exited: nothing is sampled under it. -/
theorem inv_retire {id : String} {exited : List String} (hi : Inv own s)
    (hjob : s.job = .retiring (id :: exited)) (hshow : s.shows snap = true) :
    Inv own ((s.withRuntimes (s.world.mem.runtimes.erase id)).reap h id
      ((s.world.mem.runtimes.lookup id).bind (·.pid)) snap exited) := by
  have hdropped : Inv own { s.withRuntimes (s.world.mem.runtimes.erase id) with
      job := .retiring exited } := by
    refine hi.withRuntimes (fun id' rt n hlook _ => ?_) rfl rfl
    rw [KeyMap.lookup_erase_ite] at hlook
    split at hlook
    · cases hlook
    · next hne =>
      refine ⟨hlook, ?_⟩
      rw [hjob]
      exact (List.mem_cons.trans (or_iff_right hne)).symm
  refine inv_reap hdropped fun n p hn hunder => ?_
  have ⟨rt, hlook, hpid⟩ := Option.bind_eq_some_iff.mp hn
  have ⟨h1, hrun, hours⟩ := hi.ended id rt n hlook hpid (hjob ▸ List.mem_cons_self)
  rcases hunder with heq | hdesc
  · rw [heq]
    exact hours
  · exact absurd hdesc (hi.no_descendants hshow h1 hrun)

theorem inv_terminate {id : String} (hi : Inv own s) (hidle : s.job = .idle)
    (hshow : s.shows snap = true) :
    Inv own (s.reap h id ((s.world.mem.runtimes.lookup id).bind (·.pid)) snap []) := by
  have hnil : s.job.exited = [] := by
    rw [hidle]
    rfl
  rw [← hnil]
  refine inv_reap hi fun n p hn hunder => ?_
  have ⟨rt, hlook, hpid⟩ := Option.bind_eq_some_iff.mp hn
  exact hi.ours_under hshow (hi.provider_of_rootPid hidle ⟨id, rt, n, hlook, hpid, rfl⟩) hunder

theorem inv_reclaim (hi : Inv own s) (hidle : s.job = .idle) :
    Inv own (s.sweep none s.world.mem.escapedReported []) := by
  have hnil : s.job.exited = [] := by
    rw [hidle]
    rfl
  rw [← hnil]
  exact inv_sweep hi (fun p hp => hi.remembered p (.inl (.inr hp))) none

theorem inv_drop (hi : Inv own s) (hidle : s.job = .idle) (id : String) :
    Inv own (s.withRuntimes (s.world.mem.runtimes.erase id)) := by
  refine hi.idle_withRuntimes hidle fun id' rt n hlook _ => ?_
  rw [KeyMap.lookup_erase_ite] at hlook
  split at hlook
  · cases hlook
  · exact hlook

/-- A signal takes a pid from the queue. -/
theorem inv_signal (hi : Inv own s) : Inv own (step s .signal) := by
  have htargeted : ∀ p ∈ s.job.targeted, s.ours own p := fun p hp => hi.remembered p (.inr hp)
  have hqueue := hi.queued
  unfold step
  dsimp only
  split
  · next task targeted q queue exited hjob =>
    rw [hjob] at htargeted hqueue
    refine hi.withJob (by rw [hjob]; rfl) htargeted fun p hp => ?_
    exact hqueue p (List.mem_cons_of_mem _ hp)
  · next task targeted q queue exited hjob =>
    rw [hjob] at htargeted hqueue
    refine hi.withJob (by rw [hjob]; rfl) htargeted fun p hp => ?_
    exact hqueue p (List.mem_cons_of_mem _ hp)
  · exact hi

/-- A look at the table keeps the targets that are still there. -/
theorem inv_look {sampled : Bool} (hi : Inv own s) : Inv own (step s (.look sampled snap)) := by
  have htargeted : ∀ p ∈ s.job.targeted, s.ours own p := fun p hp => hi.remembered p (.inr hp)
  have hfinish := inv_finish hi
  unfold step
  dsimp only
  split
  · next task targeted exited hjob =>
    rw [hjob] at htargeted hfinish
    split
    · split
      · exact hfinish task
      · refine hi.withJob (by rw [hjob]; rfl) htargeted fun p hp => ?_
        exact (List.mem_filter.mp hp).1
    · exact hi
  · next task targeted exited hjob =>
    rw [hjob] at hfinish
    exact hfinish task
  · exact hi

/-- An event that is not due does nothing. -/
theorem inv_due {c : Prop} [Decidable c] {t : Sys} (hi : Inv own s)
    (hdue : c → (∀ p, t.managed p → t.ours own p) → Inv own t)
    (hnow : ∀ p, (if c then t else s).managed p → (if c then t else s).ours own p) :
    Inv own (if c then t else s) := by
  by_cases h : c
  · rw [if_pos h] at hnow ⊢
    exact hdue h hnow
  · rw [if_neg h]
    exact hi

/-- **Every step keeps the invariant** that gives no remembered pid to others. -/
theorem inv_step {e : Event} (hi : Inv own s) (hok : NotReused s e)
    (hnow : ∀ p, (step s e).managed p → (step s e).ours own p) : Inv own (step s e) := by
  cases e with
  | fork parent pid =>
      refine inv_due hi (fun hdue => ?_) hnow
      obtain ⟨hparent, hfree, h1⟩ := hdue
      exact inv_fork hi hparent hfree h1 (hok hparent hfree h1)
  | exit pid =>
      unfold step at hnow ⊢
      dsimp only at hnow ⊢
      split at hnow
      · next hself =>
        rw [if_pos hself]
        exact hi
      · next hself =>
        rw [if_neg hself]
        exact inv_exit hi hself hnow
  | release pid => exact inv_due hi (fun hdue => inv_release hi hdue.1 hdue.2) hnow
  | launch id rt => exact inv_due hi (inv_launch hi) hnow
  | drop id => exact inv_due hi (fun hidle _ => inv_drop hi hidle id) hnow
  | tick h now snap => exact inv_due hi (fun hdue _ => inv_tick hi hdue.1 hdue.2) hnow
  | notice ids => exact inv_due hi (fun hdue _ => inv_notice hi hdue.1 hdue.2) hnow
  | retire h snap =>
      unfold step at hnow ⊢
      dsimp only at hnow ⊢
      split at hnow
      · next id exited hjob => exact inv_due hi (fun hshow _ => inv_retire hi hjob hshow) hnow
      · exact hi
  | terminate h id snap =>
      exact inv_due hi (fun hdue _ => inv_terminate hi hdue.1 hdue.2) hnow
  | reclaim => exact inv_due hi (fun hidle _ => inv_reclaim hi hidle) hnow
  | signal => exact inv_signal hi
  | look sampled snap => exact inv_look hi

end Invariant

/-! ### A sweep alone -/

/-- The pids a run signals, in order. -/
def sent (s : Sys) : List Event → List Pid
  | [] => []
  | e :: es => (if e matches .signal then s.job.queue.head?.toList else []) ++ sent (step s e) es

theorem sent_append (s : Sys) (es fs : List Event) :
    sent s (es ++ fs) = sent s es ++ sent (Run.run step s es) fs := by
  induction es generalizing s with
  | nil => rfl
  | cons e es ih =>
      show _ ++ sent (step s e) (es ++ fs) = _ ++ sent (step s e) es ++ _
      rw [ih, List.append_assoc]
      rfl

/-- A round of signals sends the queue. -/
theorem sent_queue {s : Sys} {task : Option String} {targeted queue : List Pid}
    {exited : List String} {stage : List Pid → Stage} (hstage : stage = .term ∨ stage = .kill)
    (hjob : s.job = .sweeping ⟨task, targeted, stage queue⟩ exited) :
    sent s (List.replicate queue.length .signal) = queue ∧
      Run.run step s (List.replicate queue.length .signal)
        = { s with job := .sweeping ⟨task, targeted, stage []⟩ exited } := by
  induction queue generalizing s with
  | nil =>
      refine ⟨rfl, ?_⟩
      rw [← hjob]
      rfl
  | cons p queue ih =>
      have hstep : step s .signal
          = { s with job := .sweeping ⟨task, targeted, stage queue⟩ exited } := by
        unfold step
        rw [hjob]
        rcases hstage with rfl | rfl <;> rfl
      have hhead : s.job.queue.head? = some p := by
        rw [hjob]
        rcases hstage with rfl | rfl <;> rfl
      obtain ⟨hsent, hrun⟩ := @ih (step s .signal) (by rw [hstep])
      refine ⟨?_, ?_⟩
      · show s.job.queue.head?.toList ++ sent (step s .signal) _ = _
        rw [hhead, hsent]
        rfl
      · rw [List.length_cons, List.replicate_succ, Run.run_cons, hrun, hstep]

/-- What `terminate_pids` signals: its targets from the last, then those it still sees. -/
theorem signals_terminatePids (pids : List Pid) (w w₁ : World)
    (hw₁ : w₁ = signalAll h false (sweepTargets pids).reverse w) :
    (terminatePids h pids w).1.signals = w.signals ++ ((sweepTargets pids).reverse ++
      if h.sampler w₁.calls then
        (sweepTargets pids).filter fun p => ((ProcessTree.fromSamples w₁.procs).get p).isSome
      else []) := by
  have hfold : ((pids.filter (1 < ·)).dedup).insertionSort (· ≤ ·) = sweepTargets pids := rfl
  have hsig : w₁.signals = w.signals ++ (sweepTargets pids).reverse := by
    rw [hw₁]
    exact (signalAll_spec (fun _ hp => hp) w).1
  unfold terminatePids
  dsimp only
  rw [hfold, ← hw₁]
  split
  · next hnil => simp [hnil]
  · split
    · next hsampler =>
      rw [Bool.not_eq_true'] at hsampler
      rw [hsampler, if_neg Bool.false_ne_true, List.append_nil]
      exact hsig
    · next hsampler =>
      have hsees : h.sampler w₁.calls = true := by simpa using hsampler
      rw [hsees, if_pos rfl]
      split
      · next hnil =>
        rw [hnil, List.append_nil]
        exact hsig
      · generalize (sweepTargets pids).filter _ = survivors
        -- a second round to those that are still seen
        have hkill : (signalAll h true survivors w₁.ask).signals
            = w.signals ++ ((sweepTargets pids).reverse ++ survivors) := by
          rw [(signalAll_spec (fun _ hp => hp) w₁.ask).1, ← List.append_assoc, ← hsig]
          rfl
        split <;> exact hkill

/-- After the first round the targets that are still there get `SIGKILL`. -/
theorem step_look {s : Sys} {task : Option String} {targeted survivors : List Pid}
    {exited : List String} {snap : List ProcessSample} (hshow : s.shows snap = true)
    (hsurvivors : (targeted.filter fun p => ((ProcessTree.fromSamples snap).get p).isSome)
      = survivors) (hne : survivors ≠ []) :
    step { s with job := .sweeping ⟨task, targeted, .term []⟩ exited } (.look true snap)
      = { s with job := .sweeping ⟨task, targeted, .kill survivors⟩ exited } := by
  rw [← hsurvivors] at hne ⊢
  unfold step
  refine (if_pos hshow).trans (if_neg ?_)
  simpa using hne

/-- **A sweep that nothing interrupts signals what `terminate_pids` does**, in that order. -/
theorem sent_sweep (s : Sys) (task : Option String) (pids : List Pid) (exited : List String)
    (w w₁ : World) (hw₁ : w₁ = signalAll h false (sweepTargets pids).reverse w)
    (hshow : s.shows w₁.procs = true) :
    ∃ n, (terminatePids h pids w).1.signals = w.signals ++
      sent (s.sweep task pids exited)
        (List.replicate (sweepTargets pids).length .signal ++
          .look (h.sampler w₁.calls) w₁.procs :: List.replicate n .signal) := by
  rw [signals_terminatePids pids w w₁ hw₁]
  by_cases hnil : sweepTargets pids = []
  · refine ⟨0, ?_⟩
    rw [hnil]
    simp [sent]
  · have hsweep : s.sweep task pids exited = { s with
        job := .sweeping ⟨task, sweepTargets pids, .term (sweepTargets pids).reverse⟩ exited } :=
      if_neg hnil
    rw [hsweep]
    obtain ⟨hsent, hrun⟩ := @sent_queue { s with
        job := .sweeping ⟨task, sweepTargets pids, .term (sweepTargets pids).reverse⟩ exited } task
      (sweepTargets pids) (sweepTargets pids).reverse exited .term (.inl rfl) rfl
    rw [List.length_reverse] at hsent hrun
    generalize hsurvivors : (sweepTargets pids).filter
      (fun p => ((ProcessTree.fromSamples w₁.procs).get p).isSome) = survivors
    -- the look ends the sweep, unless it is a snapshot that shows some of them
    by_cases hkill : h.sampler w₁.calls = true ∧ survivors ≠ []
    · obtain ⟨hsees, hne⟩ := hkill
      refine ⟨survivors.length, ?_⟩
      have hlook : step { s with job := .sweeping ⟨task, sweepTargets pids, .term []⟩ exited }
            (.look true w₁.procs)
          = { s with job := .sweeping ⟨task, sweepTargets pids, .kill survivors⟩ exited } :=
        step_look hshow hsurvivors hne
      obtain ⟨hsent', -⟩ := @sent_queue { s with
        job := .sweeping ⟨task, sweepTargets pids, .kill survivors⟩ exited } task
        (sweepTargets pids) survivors exited .kill (.inr rfl) rfl
      rw [sent_append, hsent, hrun, hsees, if_pos rfl]
      show _ = _ ++ (_ ++ sent (step _ _) _)
      rw [hlook, hsent']
    · refine ⟨0, ?_⟩
      rw [sent_append, hsent]
      congr 2
      show (if h.sampler w₁.calls = true then survivors else []) = []
      split
      · next hsees => exact not_not.mp fun hne => hkill ⟨hsees, hne⟩
      · rfl

/-! ### Runs -/

/-- Who is managed now was managed. -/
theorem wasManaged_of_managed {s : Sys} {es : List Event} {p : Pid}
    (hp : (Run.run step s es).managed p) : (Run.run step s es).ours (WasManaged s es) p :=
  fun pr hpr => ⟨es, List.prefix_rfl, p, pr, hpr, rfl, hp⟩

theorem WasManaged.append {s : Sys} {es fs : List Event} {i : Nat} (hw : WasManaged s es i) :
    WasManaged s (es ++ fs) i := by
  obtain ⟨q, hq, hrest⟩ := hw
  exact ⟨q, hq.trans (List.prefix_append es fs), hrest⟩

/-- A daemon that has booted remembers nothing. -/
theorem inv_start (o : Outset) (h : Host) (envelope : ResourceEnvelope) (root : Path)
    (disk : Journal Disk MemMux.Effect) {own : Nat → Prop} :
    Inv own (start o h envelope root disk) := by
  have hnone : ∀ p, ¬ Sys.managed (start o h envelope root disk) p := by
    intro p hp
    have hroots : ∀ i, i ∈ (start o h envelope root disk).launched → False :=
      fun _ => List.not_mem_nil
    induction hp with
    | root _ hr => exact hroots _ hr
    | child _ _ ih => exact ih
  refine ⟨o.valid, o.running, fun p hp => absurd hp (hnone p), fun id rt n hlook => ?_,
    fun id rt n hlook => ?_, fun p hp => ?_, fun p hp => absurd hp List.not_mem_nil⟩
  · cases hlook
  · cases hlook
  · rcases hp with (⟨id, ps, hlook, -⟩ | hp) | hp
    · cases hlook
    · exact absurd hp List.not_mem_nil
    · exact absurd hp List.not_mem_nil

theorem inv_run (o : Outset) (h : Host) (envelope : ResourceEnvelope) (root : Path)
    (disk : Journal Disk MemMux.Effect) {es : List Event}
    (ha : Run.Allowed step NotReused (start o h envelope root disk) es) :
    Inv (WasManaged (start o h envelope root disk) es)
      (Run.run step (start o h envelope root disk) es) := by
  induction es using List.reverseRecOn with
  | nil => exact inv_start o h envelope root disk
  | append_singleton es e ih =>
      obtain ⟨hes, hok, -⟩ := Run.allowed_append.mp ha
      have hi := (ih hes).mono fun _ hw => @WasManaged.append _ es [e] _ hw
      have hnow := fun p => @wasManaged_of_managed (start o h envelope root disk) (es ++ [e]) p
      rw [Run.run_append] at hnow ⊢
      exact inv_step hi hok hnow

/-- **As long as no pid the daemon remembers is given to others, only processes of managed tasks are
signalled**, whatever forks, exits and is waited for between the steps of the daemon. -/
theorem only_managed_signalled (o : Outset) (h : Host) (envelope : ResourceEnvelope) (root : Path)
    (disk : Journal Disk MemMux.Effect) (es : List Event)
    (ha : Run.Allowed step NotReused (start o h envelope root disk) es) :
    OnlyManaged (start o h envelope root disk) es := by
  rintro q ⟨rest, rfl⟩ p pr hhead hpr
  have hq := (Run.allowed_append.mp (Run.allowed_append.mp ha).1).1
  have hi := inv_run o h envelope root disk hq
  exact hi.remembered p (.inr (hi.queued p (List.mem_of_mem_head? hhead))) pr hpr

/-! ### A pid of a child, given to another -/

/-- A daemon, and a shell beside it. -/
def shellTable : PidTable Pid where
  procs p := if p = 10 then some ⟨1, 0, false⟩ else if p = 50 then some ⟨1, 1, false⟩ else none
  born := 2

/-- Who is in the table. -/
theorem procs_shellTable {p : Pid} {pr : Process Pid} (hp : shellTable.procs p = some pr) :
    (p = 10 ∧ pr = ⟨1, 0, false⟩) ∨ (p = 50 ∧ pr = ⟨1, 1, false⟩) := by
  have hp' : (if p = 10 then some (⟨1, 0, false⟩ : Process Pid)
    else if p = 50 then some ⟨1, 1, false⟩ else none) = some pr := hp
  split at hp'
  · next h => exact .inl ⟨h, (Option.some.inj hp').symm⟩
  · split at hp'
    · next h => exact .inr ⟨h, (Option.some.inj hp').symm⟩
    · cases hp'

def besideShell : Outset where
  self := 10
  table := shellTable
  valid := by
    refine ⟨fun p hp => ?_, fun p pr hp => ?_, fun p q pr pr' hp hq heq => ?_, fun p pr hp => ?_⟩
    · show (if p = 10 then _ else if p = 50 then _ else none) = none
      rw [if_neg, if_neg]
      · rintro rfl
        exact absurd hp (by decide)
      · rintro rfl
        exact absurd hp (by decide)
    · rcases procs_shellTable hp with ⟨-, rfl⟩ | ⟨-, rfl⟩ <;> decide
    · rcases procs_shellTable hp with ⟨rfl, rfl⟩ | ⟨rfl, rfl⟩ <;>
        rcases procs_shellTable hq with ⟨rfl, rfl⟩ | ⟨rfl, rfl⟩ <;> first | rfl | cases heq
    · rcases procs_shellTable hp with ⟨-, rfl⟩ | ⟨-, rfl⟩ <;> exact .inl le_rfl
  running := rfl

/-- The provider, its child, and who has the child's pid later. -/
def provider : ProcessSample := ⟨100, 10, "claude", 1000, none, none⟩
def child : ProcessSample := ⟨101, 100, "node", 1000, none, none⟩
def outsider : ProcessSample := ⟨101, 50, "vim", 1000, none, none⟩

/-- A provider is launched, its child is seen, and the child exits. -/
def childSeen : List Event :=
  [.launch "fix" ⟨.claudeCode, some 100, none⟩, .fork 100 101,
    .tick steadyHost 2000 [provider, child], .exit 101, .release 101]

/-- Another process gets the pid, and the task is terminated. -/
def childReplaced : List Event :=
  childSeen ++ [.fork 50 101, .terminate steadyHost "fix" [provider, outsider]]

def shellStart : Sys := start besideShell steadyHost smallHost "/memmux" (freshDisk ["/repo"])

theorem allowed_childSeen : Run.Allowed step NotReused shellStart childSeen := by
  refine ⟨trivial, fun _ _ _ => ⟨fun _ => ?_, ?_⟩, trivial, trivial, trivial, trivial⟩
  · have hroot : (Run.run step shellStart (childSeen.take 1)).table.procs 100
        = some ⟨10, 2, false⟩ := by
      decide +kernel
    exact .root hroot List.mem_cons_self
  · rintro ⟨id, hid, -⟩
    exact absurd hid List.not_mem_nil

theorem childSeen_signals_its_own : OnlyManaged shellStart
    (childSeen ++ [.terminate steadyHost "fix" [provider], .signal, .look true [], .reclaim]) := by
  refine only_managed_signalled besideShell steadyHost smallHost "/memmux" (freshDisk ["/repo"]) _ ?_
  exact Run.allowed_append.mpr ⟨allowed_childSeen, trivial, trivial, trivial, trivial, trivial⟩

/-- A process that can be born is born. -/
theorem step_fork {s : Sys} {parent pid : Pid}
    (hdue : s.table.running parent = true ∧ s.table.procs pid = none ∧ 1 < pid) :
    step s (.fork parent pid) = { s with table := s.table.birth parent pid } := by
  unfold step
  dsimp only
  rw [if_pos hdue]

/-- A sweep that begins, or has nothing to do, changes no process. -/
theorem table_sweep (s : Sys) (task : Option String) (pids : List Pid) (exited : List String) :
    (s.sweep task pids exited).table = s.table ∧
      (s.sweep task pids exited).launched = s.launched := by
  unfold Sys.sweep
  split
  · cases task with
    | none => exact ⟨rfl, rfl⟩
    | some id => exact ⟨rfl, rfl⟩
  · exact ⟨rfl, rfl⟩

theorem table_terminate (s : Sys) (h : Host) (id : String) (snap : List ProcessSample) :
    (step s (.terminate h id snap)).table = s.table ∧
      (step s (.terminate h id snap)).launched = s.launched := by
  unfold step
  dsimp only
  split
  · exact table_sweep _ _ _ _
  · exact ⟨rfl, rfl⟩

theorem valid_childSeen {es : List Event} (hes : es <+: childSeen) :
    (Run.run step shellStart es).table.Valid (· ≤ 1) := by
  obtain ⟨rest, hrest⟩ := hes
  have ha := allowed_childSeen
  rw [← hrest] at ha
  exact (inv_run besideShell steadyHost smallHost "/memmux" (freshDisk ["/repo"])
    (Run.allowed_append.mp ha).1).valid

theorem shell_running : (Run.run step shellStart childSeen).table.running 50 = true := by
  decide +kernel

theorem child_gone : (Run.run step shellStart childSeen).table.procs 101 = none := by
  decide +kernel

/-- Nobody above the process that got the pid, the fifth on the machine, is a provider. -/
theorem outsider_alone {t : PidTable Pid}
    (ht : t = (Run.run step shellStart childSeen).table.birth 50 101) {p : Pid} {pr : Process Pid}
    (hp : t.procs p = some pr) (hident : pr.ident = 4) :
    ¬ t.Under (· ∈ (Run.run step shellStart childSeen).launched) p := by
  have hvalid : t.Valid (· ≤ 1) := by
    rw [ht]
    exact (valid_childSeen List.prefix_rfl).birth (by decide) child_gone shell_running
  have hout : t.procs 101 = some ⟨50, 4, false⟩ := by
    rw [ht]
    decide +kernel
  have hshell : t.procs 50 = some ⟨1, 1, false⟩ := by
    rw [ht]
    decide +kernel
  have hlaunched : (Run.run step shellStart childSeen).launched = [2] := by
    decide +kernel
  rw [hlaunched]
  intro hunder
  obtain rfl := hvalid.distinct p 101 pr _ hp hout hident
  -- up the tree: the newborn, the shell, `init`
  cases hunder with
  | root hpr hr =>
      obtain rfl := Option.some.inj (hpr.symm.trans hout)
      exact absurd hr (by decide)
  | child hpr hup =>
      obtain rfl := Option.some.inj (hpr.symm.trans hout)
      cases hup with
      | root hpr' hr =>
          obtain rfl := Option.some.inj (hpr'.symm.trans hshell)
          exact absurd hr (by decide)
      | child hpr' hup' =>
          obtain rfl := Option.some.inj (hpr'.symm.trans hshell)
          obtain ⟨pr, hinit⟩ := hup'.procs
          rw [hvalid.free 1 le_rfl] at hinit
          cases hinit

/-- The process that got the pid was never managed. -/
theorem outsider_not_managed {q : List Event} (hq : q <+: childReplaced) {p : Pid}
    {pr : Process Pid} (hp : (Run.run step shellStart q).table.procs p = some pr)
    (hident : pr.ident = 4) : ¬ (Run.run step shellStart q).managed p := by
  have hfork : Run.run step shellStart (childSeen ++ [.fork 50 101])
      = { Run.run step shellStart childSeen with
          table := (Run.run step shellStart childSeen).table.birth 50 101 } := by
    rw [Run.run_append]
    exact step_fork ⟨shell_running, child_gone, by decide⟩
  have hcases : q <+: childSeen ++ [.fork 50 101]
      ++ [.terminate steadyHost "fix" [provider, outsider]] := by
    rw [List.append_assoc]
    exact hq
  rcases List.prefix_concat_iff.mp hcases with rfl | hq'
  · rw [Run.run_append, Run.run_cons, Run.run_nil] at hp ⊢
    unfold Sys.managed
    obtain ⟨htable, hlaunched⟩ := table_terminate
      (Run.run step shellStart (childSeen ++ [.fork 50 101])) steadyHost "fix" [provider, outsider]
    rw [htable, hfork] at hp
    rw [htable, hlaunched, hfork]
    exact outsider_alone rfl hp hident
  · rcases List.prefix_concat_iff.mp hq' with rfl | hq''
    · rw [hfork] at hp ⊢
      exact outsider_alone rfl hp hident
    · -- it is not born yet
      have hborn : ∀ es ∈ childSeen.inits, (Run.run step shellStart es).table.born ≤ 4 := by
        decide +kernel
      have hlt := (valid_childSeen hq'').numbered p pr hp
      rw [hident] at hlt
      exact absurd (hborn q ((List.mem_inits _ _).mpr hq'')) (not_le.mpr hlt)

/-- **The pid of a child that exited is given to a process of another shell, and the task is
terminated**: that process is signalled. -/
theorem reused_pid_signalled : ¬ OnlyManaged shellStart (childReplaced ++ [.signal]) := by
  intro h
  have hhead : (Run.run step shellStart childReplaced).job.queue.head? = some 101 := by
    decide +kernel
  have hpr : (Run.run step shellStart childReplaced).table.procs 101 = some ⟨50, 4, false⟩ := by
    decide +kernel
  obtain ⟨q, hq, p, pr, hp, hident, hmanaged⟩ := h childReplaced List.prefix_rfl 101 _ hhead hpr
  exact outsider_not_managed hq hp hident hmanaged

end Reaping

end MemMux
