/-
MemMux/Record.lean

The record of a task: its entry in the daemon's task map, its row, its transitions and its
checkpoint reference.

Handlers change records in groups of statements, each of which commits on its own: a new task is a
row and then a transition, a move is transitions and then the row, a forgotten task is three
deletions.  A `Phase` says which group is under way.  `Act` lists the small steps all handlers are
made of, with the phase each starts and ends in, and `Matches` says for every phase how far the
disk and the memory agree.  No handler has two groups under way at a time, which is why one phase
is enough.
-/
import MemMux.ChoreMoves

namespace MemMux

variable {codec : CheckpointCodec} {h : Host} {R : Rules}

/-! ### Small steps -/

/-- A refused statement on a record. -/
def Effect.lost : Effect → Bool
  | .refuse q => q.onRecord
  | _ => false

/-- How far the record under way has been written. -/
inductive Phase
  /-- no record is under way -/
  | rest
  /-- the row of a new task is written -/
  | creating (spec : TaskSpec) (now : UInt64)
  /-- a new task is on disk, and not registered in memory yet -/
  | registering (spec : TaskSpec) (now : UInt64)
  /-- transitions of `id` are recorded, its row is not updated yet -/
  | moving (id : String)
  /-- `id` is out of memory, its record is still there -/
  | forgetting (id : String)
  /-- the transitions of `id` are deleted, its row is not yet -/
  | erasing (id : String)

/-- The record of `id` may be written: nothing is under way, or a move of `id`. -/
def Phase.opens (id : String) : Phase → Prop
  | .rest => True
  | .moving i => i = id
  | _ => False

/-- The task being created. -/
def Phase.creates : Phase → Option TaskSpec
  | .creating spec _ | .registering spec _ => some spec
  | _ => none

/-- At rest, no task is being created. -/
theorem Phase.creates_rest {P : TaskSpec → Prop} : ∀ spec ∈ Phase.rest.creates, P spec :=
  fun _ hs => (Option.not_mem_none _ hs).elim

/-- The checkpoint of `id` loads. -/
def Loads (codec : CheckpointCodec) (id : String) (d : Disk) : Prop :=
  ∃ cp, loadCheckpoint codec id d = .ok cp

/-- `cp` records what git shows of the directory that was captured last. -/
def Snapshot (h : Host) (w : World) (cp : Checkpoint) : Prop :=
  ∃ id dir, w.durable.log.getLast? = some (.capture id dir) ∧
    (∃ u, cp.gitHead = gitHead h dir u) ∧ ∃ u, cp.gitPatchHash = gitPatchHash h dir u

/-- A state in which `forget` lets a task go. -/
def Forgettable (s : TaskState) : Prop := s = .failed ∨ s = .terminated

/-- **The small steps of the handlers**, with the effects each has. -/
inductive Act (codec : CheckpointCodec) (h : Host) (R : Rules) :
    Phase × World → List Effect → Phase × World → Prop
  /-- whatever concerns no record -/
  | idle {p w w' es} (hc : Chore R w es w') : Act codec h R (p, w) es (p, w')
  /-- a statement on a record is refused, and the handler goes on -/
  | refused {p p' w w' q} (hq : q.onRecord) (hc : ∃ n, h.commit n = false)
      (hp : ∀ spec ∈ p'.creates, spec ∈ p.creates)
      (hsp : ∀ j, (w'.mem.tasks.lookup j).map (·.spec) = (w.mem.tasks.lookup j).map (·.spec))
      (hroot : w'.mem.root = w.mem.root) (hrt : w'.mem.runtimes = w.mem.runtimes)
      (hwt : w'.mem.worktrees = w.mem.worktrees) (hd : w'.durable = w.durable.write (.refuse q)) :
      Act codec h R (p, w) [.refuse q] (p', w')
  /-- a transition is made and recorded -/
  | move {p w w' id t t' tr next reason now} (hp : p.opens id)
      (ht : w.mem.tasks.lookup id = some t) (htr : t.transition next reason now = .ok (t', tr))
      (hck : next = .hibernated → Loads codec id w.disk)
      (hm : w'.mem = { w.mem with tasks := w.mem.tasks.insert id t' })
      (hd : w'.durable = w.durable.write (.commit (.recordTransition id tr))) :
      Act codec h R (p, w) [.commit (.recordTransition id tr)] (.moving id, w')
  /-- a row is brought up to date -/
  | save {p w w' id t} (hp : p.opens id) (ht : w.mem.tasks.lookup id = some t)
      (hm : w'.mem = w.mem) (hd : w'.durable = w.durable.write (.commit (.upsertTask t))) :
      Act codec h R (p, w) [.commit (.upsertTask t)] (.rest, w')
  /-- the row of a new task is stored -/
  | store {w w' spec now} (hn : R.new spec) (hf : spec.id ∉ w.mem.tasks) (hm : w'.mem = w.mem)
      (hd : w'.durable = w.durable.write (.commit (.upsertTask (queuedTask spec now)))) :
      Act codec h R (.rest, w) [.commit (.upsertTask (queuedTask spec now))]
        (.creating spec now, w')
  /-- its first transition is recorded -/
  | submit {w w' spec now} (hm : w'.mem = w.mem)
      (hd : w'.durable
        = w.durable.write (.commit (.recordTransition spec.id (submitted now)))) :
      Act codec h R (.creating spec now, w) [.commit (.recordTransition spec.id (submitted now))]
        (.registering spec now, w')
  /-- it is registered -/
  | register {w w' spec now} (hn : R.new spec)
      (hm : w'.mem = { w.mem with tasks := w.mem.tasks.insert spec.id (queuedTask spec now) })
      (hd : w'.durable = w.durable) : Act codec h R (.registering spec now, w) [] (.rest, w')
  /-- a task that does not run is dropped from memory -/
  | forget {w w' id t} (hid : id ∉ w.mem.runtimes) (ht : w.mem.tasks.lookup id = some t)
      (hs : Forgettable t.state) (hm : w'.mem.tasks = w.mem.tasks.erase id)
      (hroot : w'.mem.root = w.mem.root) (hrt : w'.mem.runtimes = w.mem.runtimes)
      (hwt : w'.mem.worktrees = w.mem.worktrees) (hd : w'.durable = w.durable) :
      Act codec h R (.rest, w) [] (.forgetting id, w')
  /-- its transitions are deleted -/
  | eraseHistory {w w' id} (hm : w'.mem = w.mem)
      (hd : w'.durable = w.durable.write (.commit (.deleteTransitions id))) :
      Act codec h R (.forgetting id, w) [.commit (.deleteTransitions id)] (.erasing id, w')
  /-- its checkpoint reference is deleted -/
  | eraseRef {w w' id} (hm : w'.mem = w.mem)
      (hd : w'.durable = w.durable.write (.commit (.deleteCheckpoints id))) :
      Act codec h R (.erasing id, w) [.commit (.deleteCheckpoints id)] (.erasing id, w')
  /-- its row is deleted -/
  | eraseRow {w w' id} (hm : w'.mem = w.mem)
      (hd : w'.durable = w.durable.write (.commit (.deleteTaskRow id))) :
      Act codec h R (.erasing id, w) [.commit (.deleteTaskRow id)] (.rest, w')
  /-- the artifact of a task that is not frozen is written right after its capture, or torn -/
  | artifact {w w' id t e} (ht : w.mem.tasks.lookup id = some t) (hs : t.state ≠ .hibernated)
      (he : e = .tornArtifact (checkpointPath w.mem.root id) ∨
        ∃ cp, Snapshot h w cp ∧
          e = .writeArtifact (checkpointPath w.mem.root id) (codec.encode cp))
      (hm : w'.mem = w.mem) (hd : w'.durable = w.durable.write e) :
      Act codec h R (.rest, w) [e] (.rest, w')
  /-- its reference is stored -/
  | reference {w w' t r} (ht : w.mem.tasks.lookup r.taskId = some t) (hs : t.state ≠ .hibernated)
      (hp : r.artifactPath = checkpointPath w.mem.root r.taskId) (hm : w'.mem = w.mem)
      (hd : w'.durable = w.durable.write (.commit (.saveCheckpointRef r))) :
      Act codec h R (.rest, w) [.commit (.saveCheckpointRef r)] (.rest, w')
  /-- the reference of a task that is not frozen is dropped -/
  | dropRef {w w' id t} (ht : w.mem.tasks.lookup id = some t) (hs : t.state ≠ .hibernated)
      (hm : w'.mem = w.mem)
      (hd : w'.durable = w.durable.write (.commit (.deleteCheckpoints id))) :
      Act codec h R (.rest, w) [.commit (.deleteCheckpoints id)] (.rest, w')

/-! ### What memory and disk have in common -/

/-- The disk has the record of `id` as memory has it. -/
def Synced (w : World) (id : String) : Prop :=
  w.disk.tables.loadTask id = w.mem.tasks.lookup id ∧
    (w.disk.tables.tasks.rows.lookup id = none → w.disk.tables.loadHistory id = [])

/-- The disk has the transitions of `id` as memory has them, and an older row. -/
def Behind (w : World) (id : String) : Prop :=
  ∃ t row, w.mem.tasks.lookup id = some t ∧ t.spec.id = id ∧
    w.disk.tables.tasks.rows.lookup id = some row ∧
    row.createdAtMs.toUInt64 = t.createdAtMs ∧ w.disk.tables.loadHistory id = t.history

/-- The record of `id` while it is the one under way. -/
def UnderWay (w : World) : Phase → Prop
  | .rest => True
  | .creating spec now =>
      spec.id ∉ w.mem.tasks ∧
        w.disk.tables.tasks.rows.lookup spec.id
          = some (TaskRow.upsert none (queuedTask spec now)) ∧
        w.disk.tables.loadHistory spec.id = []
  | .registering spec now =>
      spec.id ∉ w.mem.tasks ∧
        w.disk.tables.tasks.rows.lookup spec.id
          = some (TaskRow.upsert none (queuedTask spec now)) ∧
        w.disk.tables.loadHistory spec.id = [submitted now]
  | .moving id => Behind w id
  | .forgetting id =>
      id ∉ w.mem.tasks ∧ ∃ t, w.disk.tables.loadTask id = some t ∧ Forgettable t.state
  | .erasing id =>
      id ∉ w.mem.tasks ∧ w.disk.tables.loadHistory id = [] ∧
        ∃ row, w.disk.tables.tasks.rows.lookup id = some row ∧ Forgettable row.state

/-- The task whose record is under way. -/
def Phase.subject : Phase → Option String
  | .rest => none
  | .creating spec _ | .registering spec _ => some spec.id
  | .moving id | .forgetting id | .erasing id => some id

/-- **Memory and disk match up to the phase**: every other record is synced. -/
def Matches (s : Phase × World) : Prop :=
  (∀ id, s.1.subject ≠ some id → Synced s.2 id) ∧ UnderWay s.2 s.1

/-! ### Effects on a record -/

/-- The task whose row or transitions a statement changes. -/
def Stmt.record : Stmt → Option String
  | .upsertTask t => some t.spec.id
  | .recordTransition id _ | .deleteTransitions id | .deleteTaskRow id => some id
  | _ => none

/-- The task whose row or transitions an effect changes. -/
def Effect.record : Effect → Option String
  | .commit q => q.record
  | _ => none

/-- Row and transitions of `id` are the same on both disks. -/
def SameRecord (id : String) (d d' : Disk) : Prop :=
  d'.tables.tasks.rows.lookup id = d.tables.tasks.rows.lookup id ∧
    d'.tables.loadHistory id = d.tables.loadHistory id

theorem SameRecord.loadTask {id : String} {d d' : Disk} (hs : SameRecord id d d') :
    d'.tables.loadTask id = d.tables.loadTask id := by
  unfold Tables.loadTask
  rw [hs.1, hs.2]

theorem sameRecord_apply {e : Effect} {id : String} (he : e.record ≠ some id) (d : Disk) :
    SameRecord id d (Replay.apply d e) := by
  cases e with
  | commit q =>
      cases q with
      | upsertTask t =>
          have hne : id ≠ t.spec.id := fun h => he (congrArg some h.symm)
          exact ⟨(d.tables.lookup_upsertTask id t).trans (if_neg hne), rfl⟩
      | recordTransition i tr =>
          have hne : id ≠ i := fun h => he (congrArg some h.symm)
          exact ⟨rfl, (d.tables.loadHistory_recordTransition id i tr).trans (if_neg hne)⟩
      | deleteTransitions i =>
          have hne : id ≠ i := fun h => he (congrArg some h.symm)
          exact ⟨rfl, (d.tables.loadHistory_deleteTransitions id i).trans (if_neg hne)⟩
      | deleteTaskRow i =>
          have hne : id ≠ i := fun h => he (congrArg some h.symm)
          exact ⟨(d.tables.lookup_deleteTaskRow id i).trans (if_neg hne), rfl⟩
      | _ => exact ⟨rfl, rfl⟩
  | _ => exact ⟨rfl, rfl⟩

/-- Idle effects change no record. -/
theorem record_of_idle {e : Effect} (he : e.idle) : e.record = none := by
  cases e with
  | commit q => cases q <;> first | rfl | cases he
  | _ => rfl

theorem sameRecord_replay {es : List Effect} {id : String} (hes : ∀ e ∈ es, e.record ≠ some id)
    (d : Disk) : SameRecord id d (Journal.replay d es) := by
  induction es generalizing d with
  | nil => exact ⟨rfl, rfl⟩
  | cons e es ih =>
      have h₁ := sameRecord_apply (hes e List.mem_cons_self) d
      have h₂ := ih (fun e' he' => hes e' (List.mem_cons_of_mem _ he')) (Replay.apply d e)
      exact ⟨h₂.1.trans h₁.1, h₂.2.trans h₁.2⟩

/-- A record that neither the disk nor the memory changed is as synced as it was. -/
theorem Synced.of_same {w w' : World} {id : String} (hs : Synced w id)
    (hd : SameRecord id w.disk w'.disk)
    (hm : w'.mem.tasks.lookup id = w.mem.tasks.lookup id) : Synced w' id := by
  refine ⟨?_, fun hrow => ?_⟩
  · rw [hd.loadTask, hm]
    exact hs.1
  · rw [hd.1] at hrow
    rw [hd.2]
    exact hs.2 hrow

theorem disk_write {w w' : World} {e : Effect} (hd : w'.durable = w.durable.write e) :
    w'.disk = Replay.apply w.disk e := by
  show w'.durable.state = _
  rw [hd]
  exact Journal.state_write _ _

theorem disk_writeAll {w w' : World} {es : List Effect} (hd : w'.durable = w.durable.writeAll es) :
    w'.disk = Journal.replay w.disk es := by
  show w'.durable.state = _
  rw [hd]
  exact Journal.state_writeAll _ _

/-- No chore touches a record. -/
theorem Chore.sameRecord {w w' : World} {es : List Effect} (hc : Chore R w es w') (id : String) :
    SameRecord id w.disk w'.disk := by
  rw [disk_writeAll hc.durable]
  refine sameRecord_replay (fun e hin => ?_) _
  rw [record_of_idle (hc.idle e hin)]
  exact nofun

/-- What is under way stays as it is when nothing touches any record. -/
theorem UnderWay.of_same {w w' : World} {p : Phase} (hu : UnderWay w p)
    (hd : ∀ id, SameRecord id w.disk w'.disk) (hm : w'.mem.tasks = w.mem.tasks) :
    UnderWay w' p := by
  cases p with
  | rest => exact trivial
  | creating spec now =>
      obtain ⟨h₁, h₂, h₃⟩ := hu
      exact ⟨by rwa [hm], (hd _).1.trans h₂, (hd _).2.trans h₃⟩
  | registering spec now =>
      obtain ⟨h₁, h₂, h₃⟩ := hu
      exact ⟨by rwa [hm], (hd _).1.trans h₂, (hd _).2.trans h₃⟩
  | moving id =>
      obtain ⟨t, row, h₁, h₂, h₃, h₄, h₅⟩ := hu
      exact ⟨t, row, by rwa [hm], h₂, (hd _).1.trans h₃, h₄, (hd _).2.trans h₅⟩
  | forgetting id =>
      obtain ⟨h₁, t, h₂, h₃⟩ := hu
      exact ⟨by rwa [hm], t, (hd _).loadTask.trans h₂, h₃⟩
  | erasing id =>
      obtain ⟨h₁, h₂, row, h₃, h₄⟩ := hu
      exact ⟨by rwa [hm], (hd _).2.trans h₂, row, (hd _).1.trans h₃, h₄⟩

/-- A step that touches no record keeps the match. -/
theorem Matches.of_same {p : Phase} {w w' : World} (hm : Matches (p, w))
    (hd : ∀ id, SameRecord id w.disk w'.disk) (ht : w'.mem.tasks = w.mem.tasks) :
    Matches (p, w') :=
  ⟨fun id hid => (hm.1 id hid).of_same (hd id) (by rw [ht]), hm.2.of_same hd ht⟩

/-- The effect of a step that writes no record, seen from the match. -/
theorem Matches.of_write {p : Phase} {w w' : World} {e : Effect} (hm : Matches (p, w))
    (he : e.record = none) (hd : w'.durable = w.durable.write e) (ht : w'.mem = w.mem) :
    Matches (p, w') := by
  refine hm.of_same (fun id => ?_) (by rw [ht])
  rw [disk_write hd]
  exact sameRecord_apply (by rw [he]; exact nofun) _

/-- A step on the record of `i` keeps the others synced. -/
theorem synced_write {w w' : World} {e : Effect} {i id : String} (hs : Synced w id)
    (he : e.record = some i) (hne : id ≠ i) (hd : w'.durable = w.durable.write e)
    (hm : KeyMap.Off i w.mem.tasks w'.mem.tasks) : Synced w' id := by
  refine hs.of_same ?_ (hm id hne)
  rw [disk_write hd]
  exact sameRecord_apply (by rw [he]; exact fun h => hne (Option.some.inj h).symm) _

/-! ### The match is kept -/

/-- A record of which nothing is under way, or a move, is behind at most. -/
theorem Matches.behind {p : Phase} {w : World} {id : String} {t : Task} (hm : Matches (p, w))
    (hp : p.opens id) (ht : w.mem.tasks.lookup id = some t) : Behind w id := by
  cases p with
  | rest =>
      have hs := (hm.1 id (by simp [Phase.subject])).1
      rw [ht] at hs
      obtain ⟨row, hrow, rfl⟩ := (Tables.loadTask_eq_some_iff _ _).mp hs
      exact ⟨_, row, ht, Tables.spec_id_of_loadTask _ _ hs, hrow, rfl, rfl⟩
  | moving i =>
      obtain rfl : i = id := hp
      exact hm.2
  | _ => exact hp.elim

/-- Other records are synced while nothing or a move of `id` is under way. -/
theorem Matches.others {p : Phase} {w : World} {id : String} (hm : Matches (p, w))
    (hp : p.opens id) {j : String} (hj : j ≠ id) : Synced w j := by
  refine hm.1 j ?_
  cases p with
  | rest => simp [Phase.subject]
  | moving i =>
      obtain rfl : i = id := hp
      simpa [Phase.subject] using hj.symm
  | _ => exact hp.elim

theorem Matches.move {p : Phase} {w w' : World} {id : String} {t t' : Task} {next : TaskState}
    {reason : String} {now : UInt64} {tr : StateTransition} (hm : Matches (p, w))
    (hp : p.opens id) (ht : w.mem.tasks.lookup id = some t)
    (htr : t.transition next reason now = .ok (t', tr))
    (hmem : w'.mem.tasks = w.mem.tasks.insert id t')
    (hd : w'.durable = w.durable.write (.commit (.recordTransition id tr))) :
    Matches (.moving id, w') := by
  have hoff : KeyMap.Off id w.mem.tasks w'.mem.tasks := by
    rw [hmem]
    exact KeyMap.off_insert _ _ _
  obtain ⟨u, row, hu, hid, hrow, hcreated, hhist⟩ := hm.behind hp ht
  obtain rfl : t = u := Option.some.inj (ht.symm.trans hu)
  obtain ⟨-, -, ht'⟩ := Task.transition_ok htr
  refine ⟨fun j hj => ?_, t', row, ?_, ?_, ?_, ?_, ?_⟩
  · have hne : j ≠ id := fun h => hj (congrArg some h.symm)
    exact synced_write (hm.others hp hne) rfl hne hd hoff
  · rw [hmem, AList.lookup_insert]
  · rw [ht']
    exact hid
  · rw [disk_write hd]
    exact hrow
  · rw [ht']
    exact hcreated
  · rw [disk_write hd, ht']
    refine (Tables.loadHistory_recordTransition _ id id tr).trans ?_
    rw [if_pos rfl, hhist]

theorem Matches.save {p : Phase} {w w' : World} {id : String} {t : Task} (hm : Matches (p, w))
    (hp : p.opens id) (ht : w.mem.tasks.lookup id = some t) (hmem : w'.mem = w.mem)
    (hd : w'.durable = w.durable.write (.commit (.upsertTask t))) : Matches (.rest, w') := by
  obtain ⟨u, row, hu, hid, hrow, hcreated, hhist⟩ := hm.behind hp ht
  obtain rfl : t = u := Option.some.inj (ht.symm.trans hu)
  have hoff : KeyMap.Off id w.mem.tasks w'.mem.tasks := by
    rw [hmem]
    exact .refl _ _
  refine ⟨fun j _ => ?_, trivial⟩
  by_cases hj : j = id
  · subst hj
    have hrow' : w'.disk.tables.tasks.rows.lookup j = some (TaskRow.upsert (some row) t) := by
      rw [disk_write hd]
      refine (Tables.lookup_upsertTask _ j t).trans ?_
      rw [if_pos hid.symm, hid, hrow]
    have hhist' : w'.disk.tables.loadHistory j = t.history := by
      rw [disk_write hd]
      exact hhist
    refine ⟨?_, fun hnone => by rw [hrow'] at hnone; cases hnone⟩
    -- the row keeps its creation time, which is the one in memory
    rw [hmem, ht, Tables.loadTask, hrow', hhist', Option.map_some, Tables.taskOfRow_upsert_some,
      hcreated]
  · have hrec : Effect.record (.commit (.upsertTask t)) = some id := congrArg some hid
    exact synced_write (hm.others hp hj) hrec hj hd hoff

theorem Matches.store {w w' : World} {spec : TaskSpec} {now : UInt64} (hm : Matches (.rest, w))
    (hf : spec.id ∉ w.mem.tasks) (hmem : w'.mem = w.mem)
    (hd : w'.durable = w.durable.write (.commit (.upsertTask (queuedTask spec now)))) :
    Matches (.creating spec now, w') := by
  have hoff : KeyMap.Off spec.id w.mem.tasks w'.mem.tasks := by
    rw [hmem]
    exact .refl _ _
  obtain ⟨hload, hhist⟩ := hm.1 spec.id (by simp [Phase.subject])
  have hnone : w.disk.tables.tasks.rows.lookup spec.id = none := by
    rw [KeyMap.not_mem_iff_lookup.mp hf] at hload
    exact Option.map_eq_none_iff.mp hload
  refine ⟨fun j hj => ?_, by rwa [hmem], ?_, ?_⟩
  · have hne : j ≠ spec.id := fun h => hj (congrArg some h.symm)
    exact synced_write (hm.1 j (by simp [Phase.subject])) rfl hne hd hoff
  · rw [disk_write hd]
    refine (Tables.lookup_upsertTask _ spec.id _).trans ?_
    show (if spec.id = spec.id then some (TaskRow.upsert (_ : Option TaskRow) _) else _) = _
    rw [if_pos rfl]
    exact congrArg (fun r => some (TaskRow.upsert r (queuedTask spec now))) hnone
  · rw [disk_write hd]
    exact hhist hnone

theorem Matches.submit {w w' : World} {spec : TaskSpec} {now : UInt64}
    (hm : Matches (.creating spec now, w)) (hmem : w'.mem = w.mem)
    (hd : w'.durable
      = w.durable.write (.commit (.recordTransition spec.id (submitted now)))) :
    Matches (.registering spec now, w') := by
  obtain ⟨hothers, hf, hrow, hhist⟩ := hm
  have hoff : KeyMap.Off spec.id w.mem.tasks w'.mem.tasks := by
    rw [hmem]
    exact .refl _ _
  refine ⟨fun j hj => ?_, by rwa [hmem], ?_, ?_⟩
  · have hne : j ≠ spec.id := fun h => hj (congrArg some h.symm)
    exact synced_write (hothers j hj) rfl hne hd hoff
  · rw [disk_write hd]
    exact hrow
  · rw [disk_write hd]
    refine (Tables.loadHistory_recordTransition _ _ _ _).trans ?_
    rw [if_pos rfl, hhist]
    rfl

theorem Matches.register {w w' : World} {spec : TaskSpec} {now : UInt64}
    (hm : Matches (.registering spec now, w))
    (hmem : w'.mem.tasks = w.mem.tasks.insert spec.id (queuedTask spec now))
    (hd : w'.durable = w.durable) : Matches (.rest, w') := by
  obtain ⟨hothers, -, hrow, hhist⟩ := hm
  have hdisk : w'.disk = w.disk := congrArg Journal.state hd
  refine ⟨fun j _ => ?_, trivial⟩
  by_cases hj : j = spec.id
  · subst hj
    refine ⟨?_, fun hnone => by rw [hdisk, hrow] at hnone; cases hnone⟩
    rw [hdisk, hmem, AList.lookup_insert, Tables.loadTask, hrow, hhist, Option.map_some,
      Tables.taskOfRow_upsert_none]
    rfl
  · refine (hothers j fun h => hj (Option.some.inj h).symm).of_same ?_ ?_
    · rw [hdisk]
      exact ⟨rfl, rfl⟩
    · rw [hmem]
      exact KeyMap.off_insert _ _ _ j hj

theorem Matches.forget {w w' : World} {id : String} {t : Task} (hm : Matches (.rest, w))
    (ht : w.mem.tasks.lookup id = some t) (hs : Forgettable t.state)
    (hmem : w'.mem.tasks = w.mem.tasks.erase id) (hd : w'.durable = w.durable) :
    Matches (.forgetting id, w') := by
  have hdisk : w'.disk = w.disk := congrArg Journal.state hd
  refine ⟨fun j hj => ?_, ?_, t, ?_, hs⟩
  · have hne : j ≠ id := fun h => hj (congrArg some h.symm)
    refine (hm.1 j (by simp [Phase.subject])).of_same ?_ ?_
    · rw [hdisk]
      exact ⟨rfl, rfl⟩
    · rw [hmem]
      exact KeyMap.off_erase _ _ j hne
  · rw [hmem, KeyMap.mem_erase_iff]
    exact fun h => h.1 rfl
  · rw [hdisk, (hm.1 id (by simp [Phase.subject])).1, ht]

theorem Matches.eraseHistory {w w' : World} {id : String} (hm : Matches (.forgetting id, w))
    (hmem : w'.mem = w.mem)
    (hd : w'.durable = w.durable.write (.commit (.deleteTransitions id))) :
    Matches (.erasing id, w') := by
  obtain ⟨hothers, hf, t, hload, hs⟩ := hm
  have hoff : KeyMap.Off id w.mem.tasks w'.mem.tasks := by
    rw [hmem]
    exact .refl _ _
  obtain ⟨row, hrow, rfl⟩ := (Tables.loadTask_eq_some_iff _ _).mp hload
  refine ⟨fun j hj => ?_, by rwa [hmem], ?_, row, ?_, hs⟩
  · have hne : j ≠ id := fun h => hj (congrArg some h.symm)
    exact synced_write (hothers j hj) rfl hne hd hoff
  · rw [disk_write hd]
    exact (Tables.loadHistory_deleteTransitions _ id id).trans (if_pos rfl)
  · rw [disk_write hd]
    exact hrow

theorem Matches.eraseRow {w w' : World} {id : String} (hm : Matches (.erasing id, w))
    (hmem : w'.mem = w.mem) (hd : w'.durable = w.durable.write (.commit (.deleteTaskRow id))) :
    Matches (.rest, w') := by
  obtain ⟨hothers, hf, hhist, -⟩ := hm
  have hoff : KeyMap.Off id w.mem.tasks w'.mem.tasks := by
    rw [hmem]
    exact .refl _ _
  refine ⟨fun j _ => ?_, trivial⟩
  by_cases hj : j = id
  · subst hj
    have hrow : w'.disk.tables.tasks.rows.lookup j = none := by
      rw [disk_write hd]
      exact (Tables.lookup_deleteTaskRow _ j j).trans (if_pos rfl)
    refine ⟨?_, fun _ => ?_⟩
    · rw [hmem, KeyMap.not_mem_iff_lookup.mp hf, Tables.loadTask, hrow]
      rfl
    · rw [disk_write hd]
      exact hhist
  · exact synced_write (hothers j fun h => hj (Option.some.inj h).symm) rfl hj hd hoff

/-- **Every small step keeps the match**, unless a statement on a record is refused. -/
theorem Act.matches {s s' : Phase × World} {es : List Effect} (ha : Act codec h R s es s')
    (hes : ∀ e ∈ es, e.lost = false) (hm : Matches s) : Matches s' := by
  cases ha with
  | idle hc => exact hm.of_same hc.sameRecord hc.tasks
  | refused hq =>
      have hlost := hes _ (List.mem_singleton.mpr rfl)
      rw [show Effect.lost (.refuse _) = Stmt.onRecord _ from rfl, hq] at hlost
      cases hlost
  | move hp ht htr hck hmem hd => exact hm.move hp ht htr (by rw [hmem]) hd
  | save hp ht hmem hd => exact hm.save hp ht hmem hd
  | store hn hf hmem hd => exact hm.store hf hmem hd
  | submit hmem hd => exact hm.submit hmem hd
  | register hn hmem hd => exact hm.register (by rw [hmem]) hd
  | forget hid ht hs hmem hroot hrt hwt hd => exact hm.forget ht hs hmem hd
  | eraseHistory hmem hd => exact hm.eraseHistory hmem hd
  | eraseRef hmem hd => exact hm.of_write rfl hd hmem
  | eraseRow hmem hd => exact hm.eraseRow hmem hd
  | artifact ht hs he hmem hd =>
      refine hm.of_write ?_ hd hmem
      rcases he with rfl | ⟨cp, -, rfl⟩ <;> rfl
  | reference ht hs hp hmem hd => exact hm.of_write rfl hd hmem
  | dropRef ht hs hmem hd => exact hm.of_write rfl hd hmem

end MemMux
