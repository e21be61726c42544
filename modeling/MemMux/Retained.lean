/-
MemMux/Retained.lean

A hibernated task keeps a checkpoint that loads.

The checkpoint of a task is an artifact and a reference to it, written and deleted at other times than
its row.  It is safe because of the order: the task is moved to `Hibernated` only once its
checkpoint loads, and artifact and reference are touched only while it is in another state.
`Resumable` says so for every small step, and so for every point at which a run may crash
(`hibernated_loads`).
-/
import MemMux.Crash

namespace MemMux

open Ledger

variable {codec : CheckpointCodec} {h : Host} {R : Rules}

/-- What it means that a checkpoint loads: the reference is there, and its artifact parses, verifies
and has the digest of the reference. -/
theorem loadCheckpoint_ok {id : String} {d : Disk} {cp : Checkpoint}
    (hl : loadCheckpoint codec id d = .ok cp) :
    ∃ r bytes, d.tables.loadCheckpointRef id = some r ∧
      d.files.lookup r.artifactPath = some bytes ∧ codec.decode bytes = some cp ∧
      cp.verify codec = true ∧ cp.integrity = r.integrity := by
  unfold loadCheckpoint at hl
  cases hr : d.tables.loadCheckpointRef id with
  | none =>
      rw [hr] at hl
      cases hl
  | some r =>
      rw [hr] at hl
      dsimp only at hl
      cases hb : (d.files.lookup r.artifactPath).bind codec.decode with
      | none =>
          rw [hb] at hl
          cases hl
      | some cp' =>
          rw [hb] at hl
          obtain ⟨bytes, hfile, hdec⟩ := Option.bind_eq_some_iff.mp hb
          dsimp only at hl
          split at hl
          · cases hl
          · -- neither check fails
            next hgood =>
            obtain rfl := Except.ok.inj hl
            simp only [Bool.or_eq_true, Bool.not_eq_true', bne_iff_ne, not_or, not_not,
              Bool.not_eq_false] at hgood
            exact ⟨r, bytes, rfl, hfile, hdec, hgood.1, hgood.2⟩

/-! ### The invariant -/

/-- **Every hibernated task has a checkpoint that loads**, on disk and in memory, and every reference
is to the artifact of its own task. -/
structure Resumable (codec : CheckpointCodec) (s : Phase × World) : Prop where
  rows : ∀ id row, s.2.disk.tables.tasks.rows.lookup id = some row → row.state = .hibernated →
    Loads codec id s.2.disk
  mem : ∀ id t, s.2.mem.tasks.lookup id = some t → t.state = .hibernated →
    Loads codec id s.2.disk
  refs : ∀ id r, s.2.disk.tables.loadCheckpointRef id = some r →
    r.artifactPath = checkpointPath s.2.mem.root id

theorem loadCheckpointRef_replay {id : String} {es : List Effect}
    (hes : ∀ e ∈ es, e.sparesCheckpoints) (d : Disk) :
    (Journal.replay d es).tables.loadCheckpointRef id = d.tables.loadCheckpointRef id := by
  induction es generalizing d with
  | nil => rfl
  | cons e es ih =>
      refine (ih (fun e' he' => hes e' (List.mem_cons_of_mem _ he')) _).trans ?_
      unfold Tables.loadCheckpointRef
      rw [(checkpoints_apply (hes e List.mem_cons_self) d).1]

/-- A step that touches no checkpoint keeps the invariant, if the rows and the tasks it leaves
hibernated had one that loads. -/
theorem Resumable.of_spared {p q : Phase} {w w' : World} {es : List Effect}
    (hr : Resumable codec (p, w)) (hd : w'.durable = w.durable.writeAll es)
    (hes : ∀ e ∈ es, e.sparesCheckpoints) (hroot : w'.mem.root = w.mem.root)
    (hrows : ∀ id row, w'.disk.tables.tasks.rows.lookup id = some row →
      row.state = .hibernated → Loads codec id w.disk)
    (hmem : ∀ id t, w'.mem.tasks.lookup id = some t → t.state = .hibernated →
      Loads codec id w.disk) : Resumable codec (q, w') := by
  have hload : ∀ id, Loads codec id w.disk → Loads codec id w'.disk := by
    rintro id ⟨cp, hcp⟩
    refine ⟨cp, ?_⟩
    rw [disk_writeAll hd, loads_replay hes]
    exact hcp
  refine ⟨fun id row hrow hs => hload id (hrows id row hrow hs),
    fun id t ht hs => hload id (hmem id t ht hs), fun id r hr' => ?_⟩
  show r.artifactPath = checkpointPath w'.mem.root id
  rw [hroot]
  refine hr.refs id r ?_
  show w.disk.tables.loadCheckpointRef id = some r
  rw [← hr', disk_writeAll hd]
  exact (loadCheckpointRef_replay hes _).symm

/-- The same for a single effect. -/
theorem Resumable.of_write {p q : Phase} {w w' : World} {e : Effect}
    (hr : Resumable codec (p, w)) (hd : w'.durable = w.durable.write e)
    (he : e.sparesCheckpoints) (hroot : w'.mem.root = w.mem.root)
    (hrows : ∀ id row, (Replay.apply w.disk e : Disk).tables.tasks.rows.lookup id = some row →
      row.state = .hibernated → Loads codec id w.disk)
    (hmem : ∀ id t, w'.mem.tasks.lookup id = some t → t.state = .hibernated →
      Loads codec id w.disk) : Resumable codec (q, w') := by
  have hd' : w'.durable = w.durable.writeAll [e] := hd
  refine hr.of_spared hd' (fun e' he' => ?_) hroot ?_ hmem
  · rw [List.mem_singleton.mp he']
    exact he
  · rw [disk_write hd]
    exact hrows

/-- Neither the row nor the task in memory is hibernated. -/
structure Awake (w : World) (id : String) : Prop where
  row : ∀ row, w.disk.tables.tasks.rows.lookup id = some row → row.state ≠ .hibernated
  task : ∀ t, w.mem.tasks.lookup id = some t → t.state ≠ .hibernated

/-- A step on the checkpoint of a task that is awake keeps the invariant, if it leaves the checkpoints
of the others alone. -/
theorem Resumable.of_awake {p q : Phase} {w w' : World} {e : Effect} {id₀ : String}
    (hr : Resumable codec (p, w)) (ha : Awake w id₀) (hd : w'.durable = w.durable.write e)
    (hm : w'.mem = w.mem) (he : e.record = none)
    (hother : ∀ id, id ≠ id₀ → loadCheckpoint codec id w'.disk = loadCheckpoint codec id w.disk)
    (hrefs : ∀ id r, w'.disk.tables.loadCheckpointRef id = some r →
      r.artifactPath = checkpointPath w.mem.root id) : Resumable codec (q, w') := by
  have hload : ∀ id, id ≠ id₀ → Loads codec id w.disk → Loads codec id w'.disk := by
    rintro id hne ⟨cp, hcp⟩
    exact ⟨cp, (hother id hne).trans hcp⟩
  have hsame : ∀ id, SameRecord id w.disk w'.disk := by
    intro id
    rw [disk_write hd]
    exact sameRecord_apply (by rw [he]; exact nofun) _
  refine ⟨fun id row hrow hs => ?_, fun id t ht hs => ?_, fun id r hr' => ?_⟩
  · have hrow' : w.disk.tables.tasks.rows.lookup id = some row := (hsame id).1.symm.trans hrow
    -- whose checkpoint is written is awake: nobody hibernated depends on it
    have hne : id ≠ id₀ := by
      rintro rfl
      exact ha.row row hrow' hs
    exact hload id hne (hr.rows id row hrow' hs)
  · have ht' : w.mem.tasks.lookup id = some t := by
      rw [← hm]
      exact ht
    have hne : id ≠ id₀ := by
      rintro rfl
      exact ha.task t ht' hs
    exact hload id hne (hr.mem id t ht' hs)
  · show r.artifactPath = checkpointPath w'.mem.root id
    rw [hm]
    exact hrefs id r hr'

/-! ### Steps -/

/-- At rest a row has the state memory has. -/
theorem Matches.row_state {w : World} {id : String} {t : Task} {row : TaskRow}
    (hm : Matches (.rest, w)) (ht : w.mem.tasks.lookup id = some t)
    (hrow : w.disk.tables.tasks.rows.lookup id = some row) : row.state = t.state := by
  have hload := (hm.1 id (by simp [Phase.subject])).1
  rw [ht] at hload
  obtain ⟨row', hrow', rfl⟩ := (Tables.loadTask_eq_some_iff _ _).mp hload
  obtain rfl : row = row' := Option.some.inj (hrow.symm.trans hrow')
  rfl

theorem Matches.awake {w : World} {id : String} {t : Task} (hm : Matches (.rest, w))
    (ht : w.mem.tasks.lookup id = some t) (hs : t.state ≠ .hibernated) : Awake w id := by
  refine ⟨fun row hrow => ?_, fun u hu => ?_⟩
  · rw [hm.row_state ht hrow]
    exact hs
  · obtain rfl := Option.some.inj (ht.symm.trans hu)
    exact hs

/-- What is being erased had failed or was terminated. -/
theorem Matches.awake_erasing {w : World} {id : String} (hm : Matches (.erasing id, w)) :
    Awake w id := by
  obtain ⟨-, hout, -, row₀, hrow₀, hst⟩ := hm
  refine ⟨fun row hrow hs => ?_, fun t ht => ?_⟩
  · obtain rfl := Option.some.inj (hrow₀.symm.trans hrow)
    rcases hst with hf | hf <;> rw [hf] at hs <;> cases hs
  · exact absurd (KeyMap.mem_iff_lookup.mpr ⟨t, ht⟩) hout

/-- An artifact is written where no other reference points. -/
theorem loadCheckpoint_artifact {id id₀ : String} {d : Disk} {root : Path} {bytes : List UInt8}
    (hrefs : ∀ id r, d.tables.loadCheckpointRef id = some r →
      r.artifactPath = checkpointPath root id) (hne : id ≠ id₀) :
    loadCheckpoint codec id { d with files := d.files.insert (checkpointPath root id₀) bytes }
      = loadCheckpoint codec id d := by
  unfold loadCheckpoint
  dsimp only
  cases hr : d.tables.loadCheckpointRef id with
  | none => rfl
  | some r =>
      have hpath : r.artifactPath ≠ checkpointPath root id₀ := by
        rw [hrefs id r hr]
        exact fun heq => hne (checkpointPath_injective root heq)
      dsimp only
      rw [AList.lookup_insert_ne hpath]

/-- A reference of another task is not looked at. -/
theorem loadCheckpoint_ref {id : String} {d d' : Disk}
    (href : d'.tables.loadCheckpointRef id = d.tables.loadCheckpointRef id)
    (hf : d'.files = d.files) : loadCheckpoint codec id d' = loadCheckpoint codec id d := by
  unfold loadCheckpoint
  rw [href, hf]

/-- Dropping the reference of a task that is awake. -/
theorem Resumable.drop {p q : Phase} {w w' : World} {id : String} (hr : Resumable codec (p, w))
    (ha : Awake w id) (hm : w'.mem = w.mem)
    (hd : w'.durable = w.durable.write (.commit (.deleteCheckpoints id))) :
    Resumable codec (q, w') := by
  refine hr.of_awake ha hd hm rfl (fun j hne => ?_) (fun j r hj => ?_)
  · rw [disk_write hd]
    refine loadCheckpoint_ref ?_ rfl
    exact (Tables.lookup_deleteCheckpoints _ j id).trans (if_neg hne)
  · rw [disk_write hd] at hj
    have hdel := (Tables.lookup_deleteCheckpoints w.disk.tables j id).symm.trans hj
    split at hdel
    · cases hdel
    · exact hr.refs j r hdel

/-- **Every small step keeps hibernated tasks resumable**, unless a statement on a record is
refused. -/
theorem Act.resumable {s s' : Phase × World} {es : List Effect} (ha : Act codec h R s es s')
    (hes : ∀ e ∈ es, e.lost = false) (hm : Matches s) (hr : Resumable codec s) :
    Resumable codec s' := by
  cases ha with
  | @idle p w w' es hc =>
      refine hr.of_spared hc.durable (fun e hin => spares_of_idle (hc.idle e hin)) hc.root ?_ ?_
      · intro id row hrow
        exact hr.rows id row ((hc.sameRecord id).1.symm.trans hrow)
      · intro id t hlook
        rw [hc.tasks] at hlook
        exact hr.mem id t hlook
  | refused hq =>
      have hlost := hes _ (List.mem_singleton.mpr rfl)
      rw [show Effect.lost (.refuse _) = Stmt.onRecord _ from rfl, hq] at hlost
      cases hlost
  | @move p w w' id t t' tr next reason now hp ht htr hck hmem hd =>
      obtain ⟨-, -, rfl⟩ := Task.transition_ok htr
      refine hr.of_write hd rfl (by rw [hmem]) hr.rows ?_
      intro j u hu hs
      rw [hmem] at hu
      dsimp only at hu
      rw [KeyMap.lookup_insert_ite] at hu
      split at hu
      · next hj =>
        obtain rfl := Option.some.inj hu
        rw [hj]
        exact hck hs
      · exact hr.mem j u hu hs
  | @save p w w' id t hp ht hmem hd =>
      obtain ⟨u, row, hu, hid, hrow, -⟩ := hm.behind hp ht
      obtain rfl : t = u := Option.some.inj (ht.symm.trans hu)
      refine hr.of_write hd rfl (by rw [hmem]) (fun j row' hrow' hs => ?_) (by rw [hmem]; exact hr.mem)
      have hup := (Tables.lookup_upsertTask w.disk.tables j t).symm.trans hrow'
      split at hup
      · next hj =>
        -- the row has the state of the task it was written from
        obtain rfl := Option.some.inj hup
        rw [TaskRow.upsert_state] at hs
        rw [hj, hid]
        exact hr.mem id t ht hs
      · exact hr.rows j row' hup hs
  | @store w w' spec now hn hf hmem hd =>
      refine hr.of_write hd rfl (by rw [hmem]) (fun j row' hrow' hs => ?_) (by rw [hmem]; exact hr.mem)
      have hup := (Tables.lookup_upsertTask w.disk.tables j (queuedTask spec now)).symm.trans hrow'
      split at hup
      · obtain rfl := Option.some.inj hup
        rw [TaskRow.upsert_state] at hs
        cases hs
      · exact hr.rows j row' hup hs
  | submit hmem hd => exact hr.of_write hd rfl (by rw [hmem]) hr.rows (by rw [hmem]; exact hr.mem)
  | @register w w' spec now hn hmem hd =>
      have hdisk : w'.disk = w.disk := congrArg Journal.state hd
      refine hr.of_spared (hd.trans (Journal.writeAll_nil _).symm) (by simp) (by rw [hmem]) ?_ ?_
      · rw [hdisk]
        exact hr.rows
      · intro j u hu hs
        rw [hmem] at hu
        dsimp only at hu
        rw [KeyMap.lookup_insert_ite] at hu
        split at hu
        · obtain rfl := Option.some.inj hu
          cases hs
        · exact hr.mem j u hu hs
  | @forget w w' id t hid ht hst hmem hroot hrt hwt hd =>
      have hdisk : w'.disk = w.disk := congrArg Journal.state hd
      refine hr.of_spared (hd.trans (Journal.writeAll_nil _).symm) (by simp) hroot ?_ ?_
      · rw [hdisk]
        exact hr.rows
      · intro j u hu hs
        rw [hmem, KeyMap.lookup_erase_ite] at hu
        split at hu
        · cases hu
        · exact hr.mem j u hu hs
  | eraseHistory hmem hd =>
      exact hr.of_write hd rfl (by rw [hmem]) hr.rows (by rw [hmem]; exact hr.mem)
  | eraseRef hmem hd => exact hr.drop hm.awake_erasing hmem hd
  | @eraseRow w w' id hmem hd =>
      refine hr.of_write hd rfl (by rw [hmem]) (fun j row hrow hs => ?_) (by rw [hmem]; exact hr.mem)
      have hdel := (Tables.lookup_deleteTaskRow w.disk.tables j id).symm.trans hrow
      split at hdel
      · cases hdel
      · exact hr.rows j row hdel hs
  | @artifact w w' id t e ht hst he hmem hd =>
      have hfile : ∃ bytes, w'.disk
          = { w.disk with files := w.disk.files.insert (checkpointPath w.mem.root id) bytes } := by
        rw [disk_write hd]
        rcases he with rfl | ⟨cp, -, rfl⟩
        · exact ⟨[], rfl⟩
        · exact ⟨codec.encode cp, rfl⟩
      obtain ⟨bytes, hdisk⟩ := hfile
      have hrec : e.record = none := by
        rcases he with rfl | ⟨cp, -, rfl⟩ <;> rfl
      refine hr.of_awake (hm.awake ht hst) hd hmem hrec (fun j hne => ?_) ?_
      · rw [hdisk]
        exact loadCheckpoint_artifact hr.refs hne
      · rw [hdisk]
        exact hr.refs
  | @reference w w' t r ht hst hpath hmem hd =>
      refine hr.of_awake (hm.awake ht hst) hd hmem rfl (fun j hne => ?_) (fun j r' hj => ?_)
      · rw [disk_write hd]
        refine loadCheckpoint_ref ?_ rfl
        exact (Tables.lookup_saveCheckpointRef _ j r).trans (if_neg hne)
      · rw [disk_write hd] at hj
        have hsave := (Tables.lookup_saveCheckpointRef w.disk.tables j r).symm.trans hj
        split at hsave
        · next heq =>
          obtain rfl := Option.some.inj hsave
          rw [heq]
          exact hpath
        · exact hr.refs j r' hsave
  | dropRef ht hst hmem hd => exact hr.drop (hm.awake ht hst) hmem hd

/-! ### Runs -/

theorem resumable_chain {s s' : Phase × World} {es : List Effect}
    (hc : Chain (Act codec h R) s es s') (hes : ∀ e ∈ es, e.lost = false)
    (hs : Matches s ∧ Resumable codec s) : Matches s' ∧ Resumable codec s' := by
  have hstep : ∀ s es t, Act codec h R s es t → (∀ e ∈ es, e.lost = false) →
      Matches s ∧ Resumable codec s → Matches t ∧ Resumable codec t :=
    fun s es t ha hes hs => ⟨ha.matches hes hs.1, ha.resumable hes hs.1 hs.2⟩
  exact @Chain.keeps _ _ _ _ _ _ _ (fun s => Matches s ∧ Resumable codec s) hstep hc hes hs

/-- A daemon that boots where the invariant holds keeps it: the tasks it loads are the rows. -/
theorem Resumable.boot {s : Phase × World} (hr : Resumable codec s) (h : Host)
    (envelope : ResourceEnvelope) {root : Path} (hroot : root = s.2.mem.root)
    {disk : Journal Disk Effect} (hdisk : disk = s.2.durable) :
    Resumable codec (.rest, MemMux.boot h envelope root disk) := by
  subst hroot hdisk
  obtain ⟨e, he, hd⟩ := boot_disk h envelope s.2.mem.root s.2.durable
  have hsame := boot_sameRecord h envelope s.2.mem.root s.2.durable
  have hlook := boot_lookup h envelope s.2.mem.root s.2.durable
  generalize hw : MemMux.boot h envelope s.2.mem.root s.2.durable = w at hd hsame hlook ⊢
  have hroot : w.mem.root = s.2.mem.root := by
    subst hw
    rfl
  have hrows : ∀ id row, w.disk.tables.tasks.rows.lookup id = some row →
      row.state = .hibernated → Loads codec id s.2.disk := by
    intro id row hrow
    exact hr.rows id row ((hsame id).1.symm.trans hrow)
  have hmem : ∀ id t, w.mem.tasks.lookup id = some t → t.state = .hibernated →
      Loads codec id s.2.disk := by
    intro id t ht hs
    rw [hlook id] at ht
    obtain ⟨row, hrow, rfl⟩ := (Tables.loadTask_eq_some_iff _ _).mp ht
    exact hr.rows id row hrow hs
  have hd' : w.durable = s.2.durable.writeAll [e] := hd
  refine @Resumable.of_spared codec s.1 .rest s.2 w [e] hr hd' (fun e' he' => ?_) hroot hrows hmem
  rw [List.mem_singleton.mp he']
  exact spares_of_idle (Effect.idle_of_quiet he)

theorem fresh_resumable (h : Host) (envelope : ResourceEnvelope) (root : Path)
    (repos : List Path) :
    Resumable codec (.rest, MemMux.boot h envelope root (freshDisk repos)) := by
  have hnone : ∀ id, (freshDisk repos).state.tables.tasks.rows.lookup id = none := fun _ => rfl
  have href : ∀ id, (freshDisk repos).state.tables.loadCheckpointRef id = none := fun _ => rfl
  let w : World :=
    { mem := bootState envelope root (freshDisk repos).state.tables, durable := freshDisk repos
      procs := h.table, calls := 0 }
  have hw : Resumable codec (.rest, w) := by
    refine ⟨fun id row hrow => ?_, fun id t ht => ?_, fun id r hr => ?_⟩
    · cases (hnone id).symm.trans hrow
    · have hload := (Tables.lookup_ofList_loadTasks (freshDisk repos).state.tables id).symm.trans ht
      obtain ⟨row, hrow, -⟩ := (Tables.loadTask_eq_some_iff _ _).mp hload
      cases (hnone id).symm.trans hrow
    · cases (href id).symm.trans hr
  exact hw.boot h envelope rfl rfl

/-- Everything commits and ids are fresh; a crash may fall anywhere. -/
def Committing (w : World) : Event → Prop
  | .op h i | .crash h i _ _ => (∀ n, h.commit n = true) ∧ FreshId h w i
  | .reboot _ => True

theorem resumable_next (w : World) (e : Event)
    (hw : Live w.ledger ∧ Matches (.rest, w) ∧ Resumable codec (.rest, w))
    (hok : Committing w e) :
    Live (next codec w e).ledger ∧ Matches (.rest, next codec w e) ∧
      Resumable codec (.rest, next codec w e) := by
  obtain ⟨hl, hs⟩ := hw
  cases e with
  | op h i =>
      obtain ⟨hcommit, hf⟩ := hok
      have hm : AnyMoves w.ledger (perform codec h i w).ledger := perform_moves_any hl
      have hc := perform_chain hl (@complies_any codec h w i hf)
      exact ⟨hm.live hl, resumable_chain hc (chain_not_lost hc hcommit) hs⟩
  | reboot h =>
      refine ⟨live_boot _ _ _ _, ?_, hs.2.boot h _ rfl rfl⟩
      exact boot_matches h _ _ w.durable fun id => hs.1.orphans
  -- the crash cuts a chain of steps, and the next daemon boots from there
  | crash h i k h' =>
      obtain ⟨hcommit, hf⟩ := hok
      obtain ⟨q, u, hc, hcut⟩ := crash_chain hl (@complies_any codec h w i hf) k
      obtain ⟨hm, hr⟩ := resumable_chain hc (chain_not_lost hc hcommit) hs
      refine ⟨live_boot _ _ _ _, ?_⟩
      show Matches (.rest, MemMux.boot h' w.mem.envelope w.mem.root
        ((perform codec h i w).durable.cut (w.durable.log.length + k))) ∧ Resumable codec
          (.rest, MemMux.boot h' w.mem.envelope w.mem.root
            ((perform codec h i w).durable.cut (w.durable.log.length + k)))
      rw [hcut]
      refine ⟨boot_matches h' _ _ u.durable fun id => hm.orphans, hr.boot h' _ ?_ rfl⟩
      exact (chain_root hc).symm

/-- **A hibernated task can always be resumed.**  In every state of a run, whatever crashes it had, a
task whose row says `Hibernated` has a reference to an artifact that parses, verifies and has the
reference's digest, so its checkpoint loads. -/
theorem hibernated_loads (h : Host) (envelope : ResourceEnvelope) (root : Path)
    (repos : List Path) (es : List Event)
    (hok : Run.Allowed (next codec) Committing (boot h envelope root (freshDisk repos)) es)
    (id : String) (row : TaskRow)
    (hrow : (runs codec (boot h envelope root (freshDisk repos)) es).disk.tables.tasks.rows.lookup
      id = some row) (hs : row.state = .hibernated) :
    let d := (runs codec (boot h envelope root (freshDisk repos)) es).disk
    ∃ r bytes cp, d.tables.loadCheckpointRef id = some r ∧
      d.files.lookup r.artifactPath = some bytes ∧ codec.decode bytes = some cp ∧
      cp.verify codec = true ∧ cp.integrity = r.integrity ∧
      loadCheckpoint codec id d = .ok cp := by
  have hstart : Matches (.rest, boot h envelope root (freshDisk repos)) :=
    boot_matches h envelope root _ fun _ _ => rfl
  obtain ⟨-, -, hr⟩ := Run.invariant (@resumable_next codec)
    ⟨live_boot h envelope root (freshDisk repos), hstart, fresh_resumable h envelope root repos⟩ hok
  obtain ⟨cp, hcp⟩ := hr.rows id row hrow hs
  obtain ⟨r, bytes, href, hfile, hdec, hver, hint⟩ := loadCheckpoint_ok hcp
  exact ⟨r, bytes, cp, href, hfile, hdec, hver, hint, hcp⟩

/-- A hibernation crashes right after the row was written. -/
def crashedFreeze : List Event :=
  createAndRestart ++ [.crash steadyHost (.request (.hibernateTask fixLogin)) 8 steadyHost]

theorem hibernated_loads_crashed :
    let d := (runs serdeJson (boot steadyHost smallHost "/memmux" (freshDisk ["/repo"]))
      crashedFreeze).disk
    ∃ r bytes cp, d.tables.loadCheckpointRef fixLogin = some r ∧
      d.files.lookup r.artifactPath = some bytes ∧ serdeJson.decode bytes = some cp ∧
      cp.verify serdeJson = true ∧ cp.integrity = r.integrity ∧
      loadCheckpoint serdeJson fixLogin d = .ok cp := by
  have hfrozen : ((runs serdeJson (boot steadyHost smallHost "/memmux" (freshDisk ["/repo"]))
      crashedFreeze).disk.tables.tasks.rows.lookup fixLogin).map (·.state) = some .hibernated := by
    decide +kernel
  obtain ⟨row, hrow, hs⟩ := Option.map_eq_some_iff.mp hfrozen
  have hfresh : newTaskId (steadyHost.now 0)
      ((boot steadyHost smallHost "/memmux" (freshDisk ["/repo"])).mem.seq + 1)
        ∉ (boot steadyHost smallHost "/memmux" (freshDisk ["/repo"])).mem.tasks := by
    decide +kernel
  exact hibernated_loads steadyHost smallHost "/memmux" ["/repo"] crashedFreeze
    ⟨⟨fun _ => rfl, fun _ hid => Option.some.inj hid ▸ hfresh⟩, ⟨fun _ => rfl, nofun⟩,
      ⟨fun _ => rfl, nofun⟩, trivial⟩ fixLogin row hrow hs

end MemMux
