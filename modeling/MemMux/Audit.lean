/-
MemMux/Audit.lean

What a reader of the daemon's record knows in every run.

An operation retells the daemon's state and a boot starts the account over, so the record of every run
tells which agents run, which worktrees are held and what the pressure is (`trail_tells_state`).

The daemon keeps two tables.  The exit of a provider is an event and no decision; a recycle that is
rolled back is a decision and no event, and a boot that finds agents gone tells no event of them.  Read
alone, each table is wrong about exactly those agents (`tables_exact_iff`).
-/
import MemMux.TrailMoves

namespace MemMux.Trail

/-! ### Runs -/

/-- An operation adds to the log. -/
theorem perform_writes (codec : CheckpointCodec) (h : Host) (i : Input) (w : World) :
    ∃ es, (perform codec h i w).durable = w.durable.writeAll es := by
  rcases perform_roster codec h i w with hr | ⟨t, he⟩ | ⟨id, -, -, hs⟩
  · obtain ⟨es, hd, -⟩ := hr.writes
    exact ⟨es, hd⟩
  · obtain ⟨es, hd, -⟩ := he.writes
    exact ⟨_, hd⟩
  · obtain ⟨es, hd, -⟩ := hs.writes
    exact ⟨es, hd⟩

/-- The hosts commit what is told: of a crash, the next daemon's does. -/
def Commits : Event → Prop
  | .op h _ | .reboot h | .crash _ _ _ h => ∀ n, h.commit n = true

/-- A daemon that boots tells that it runs nothing, whatever was told before. -/
theorem boot_tells {h : Host} (hc : ∀ n, h.commit n = true) (envelope : ResourceEnvelope)
    (root : Path) (disk : Journal Disk Effect) :
    ∃ e, (boot h envelope root disk).durable = disk.write e ∧
      ∀ a : Account, Fits (residents (boot h envelope root disk).mem) (a.read e)
        (boot h envelope root disk) := by
  let w : World :=
    { mem := bootState envelope root disk.state.tables, durable := disk, procs := h.table
      calls := 0 }
  have hex : ∀ d, executes h (.recordDecision d) w = true := by
    intro d
    unfold executes
    rw [hc]
    rfl
  have hnone : residents (boot h envelope root disk).mem = ∅ :=
    Set.eq_empty_of_forall_notMem fun i => AList.notMem_empty i
  rw [hnone]
  refine ⟨.commit (.recordDecision ⟨none, h.now 0, "recovered", "reconstructed "
    ++ toString (bootState envelope root disk.state.tables).tasks.keys.length
    ++ " task(s) from the durable store on boot", none⟩), ?_, fun a => ?_⟩
  · show (exec h _ w).durable = _
    unfold exec
    rw [if_pos (hex _)]
  · exact fits_booted (w := boot h envelope root disk) a rfl rfl

theorem told_next (codec : CheckpointCodec) (w : World) {e : Event} (he : Commits e) :
    Follows w (next codec w e) := by
  cases e with
  | op h i => exact told_perform codec h he i w
  | reboot h =>
      obtain ⟨c, hd, hfits⟩ := boot_tells he w.mem.envelope w.mem.root w.durable
      refine ⟨[c], ?_, fun a _ => hfits a⟩
      exact congrArg Journal.log hd
  -- whatever of the operation reached the log, the next daemon starts the account over
  | crash h i k h' =>
      obtain ⟨es, hes⟩ := perform_writes codec h i w
      obtain ⟨c, hd, hfits⟩ := boot_tells he w.mem.envelope w.mem.root
        ((perform codec h i w).durable.cut (w.durable.log.length + k))
      refine ⟨es.take k ++ [c], ?_, fun a _ => ?_⟩
      · refine (congrArg Journal.log hd).trans ?_
        rw [hes, Journal.cut_writeAll, Journal.write_log, Journal.writeAll_log, List.append_assoc]
      · rw [List.foldl_append]
        exact hfits _

/-- A run is told from its first world on. -/
theorem told_runs (codec : CheckpointCodec) {es : List Event} (hes : ∀ e ∈ es, Commits e)
    (w : World) : Follows w (runs codec w es) := by
  induction es generalizing w with
  | nil => exact .refl w
  | cons e es ih =>
      obtain ⟨he, hrest⟩ := List.forall_mem_cons.mp hes
      exact (told_next codec w he).trans (ih hrest _)

/-- **The account of a run fits the daemon**, whatever the reader believed before. -/
theorem fits_runs (codec : CheckpointCodec) {h : Host} (hc : ∀ n, h.commit n = true)
    (envelope : ResourceEnvelope) (root : Path) (disk : Journal Disk Effect) {es : List Event}
    (hes : ∀ e ∈ es, Commits e) (a : Account) :
    let w := runs codec (boot h envelope root disk) es
    Fits (residents w.mem) (w.durable.log.foldl Account.read a) w := by
  obtain ⟨c, hd, hfits⟩ := boot_tells hc envelope root disk
  refine (told_runs codec hes (boot h envelope root disk)).account ?_
  rw [hd, Journal.write_log, List.foldl_append]
  exact hfits _

/-! ### What the record tells -/

/-- **The record tells what the daemon holds.**  In every run of daemons whose store commits, the agents
that run are those whose last news is that they are up, and the decisions alone tell the worktrees and
the pressure. -/
theorem trail_tells_state (codec : CheckpointCodec) {h : Host} (hc : ∀ n, h.commit n = true)
    (envelope : ResourceEnvelope) (root : Path) (disk : Journal Disk Effect) {es : List Event}
    (hes : ∀ e ∈ es, Commits e) :
    let w := runs codec (boot h envelope root disk) es
    let a := Account.ofTables w.disk.tables
    (∀ id, id ∈ w.mem.runtimes ↔ (told w.durable).news id = .up) ∧
      (∀ id, id ∈ w.mem.worktrees ↔ id ∈ a.worktrees) ∧ w.mem.pressureStage = a.stage := by
  intro w a
  have hf := fits_runs codec hc envelope root disk hes (.ofTables w.durable.start.tables)
  obtain ⟨hagree, -⟩ := retold w.durable
  refine ⟨fun id => (hf.running id).symm, fun id => ?_, ?_⟩
  · have hsame : a.worktrees = (told w.durable).worktrees := hagree.worktrees
    rw [hsame]
    exact (hf.worktrees id).symm
  · exact hf.stage.symm.trans hagree.stage.symm

/-- **What each table misses.**  In such a run the decisions alone are right about who runs but for an
agent that exited on its own, and the events alone but for one that was lost. -/
theorem tables_exact_iff (codec : CheckpointCodec) {h : Host} (hc : ∀ n, h.commit n = true)
    (envelope : ResourceEnvelope) (root : Path) (disk : Journal Disk Effect) {es : List Event}
    (hes : ∀ e ∈ es, Commits e) (id : String) :
    let w := runs codec (boot h envelope root disk) es
    let a := Account.ofTables w.disk.tables
    ((id ∈ a.decided ↔ id ∈ w.mem.runtimes) ↔ (told w.durable).news id ≠ .exited) ∧
      ((id ∈ a.shown ↔ id ∈ w.mem.runtimes) ↔ (told w.durable).news id ≠ .lost) := by
  intro w a
  have hf := fits_runs codec hc envelope root disk hes (.ofTables w.durable.start.tables)
  obtain ⟨hagree, hshown⟩ := retold w.durable
  have hrunning : id ∈ w.mem.runtimes ↔ (told w.durable).news id = .up := (hf.running id).symm
  have hdecided : id ∈ a.decided ↔
      (told w.durable).news id = .up ∨ (told w.durable).news id = .exited := by
    have hsame : a.decided = (told w.durable).decided := hagree.decided
    rw [hsame]
    exact hf.decided id
  have hevents : id ∈ a.shown ↔
      (told w.durable).news id = .up ∨ (told w.durable).news id = .lost := by
    have hsame : a.shown = (told w.durable).shown := hshown
    rw [hsame]
    exact hf.shown id
  rw [hdecided, hevents, hrunning]
  cases (told w.durable).news id <;> simp

/-- A task that is started, and whose recycle then finds no way to launch the provider again. -/
def recycledAway : List Event :=
  createAndRestart ++
    [.op { steadyHost with spawn := fun _ => none } (.request (.recycleTask fixLogin))]

theorem running_is_told : (told runningWorld.durable).news fixLogin = .up := by
  have htold := @trail_tells_state serdeJson steadyHost (fun _ => rfl) smallHost "/memmux"
    (freshDisk ["/repo"]) createAndRestart (by simp [createAndRestart, Commits, steadyHost])
  exact (htold.1 fixLogin).mp (by decide +kernel)

/-- Its events still show it as running. -/
theorem recycled_away_is_shown :
    let w := runs serdeJson (boot steadyHost smallHost "/memmux" (freshDisk ["/repo"])) recycledAway
    (told w.durable).news fixLogin = .lost ∧
      ¬ (fixLogin ∈ (Account.ofTables w.disk.tables).shown ↔ fixLogin ∈ w.mem.runtimes) := by
  have hlost : (told (runs serdeJson (boot steadyHost smallHost "/memmux" (freshDisk ["/repo"]))
      recycledAway).durable).news fixLogin = .lost := by decide +kernel
  have hexact := @tables_exact_iff serdeJson steadyHost (fun _ => rfl) smallHost "/memmux"
    (freshDisk ["/repo"]) recycledAway
    (by simp [recycledAway, createAndRestart, Commits, steadyHost]) fixLogin
  exact ⟨hlost, fun hiff => hexact.2.mp hiff hlost⟩

end MemMux.Trail
