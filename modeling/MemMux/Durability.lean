/-
MemMux/Durability.lean

What the store keeps of the task records.

Between operations the store has every task as memory has it, so a reboot loses nothing
(`store_refines_memory`).  In the middle of an operation it need not: a record is a row and its
transitions, which are written by separate statements.  A crash is at rest when it falls between
two groups of such statements (`settledAfter`), and as long as all crashes of a run are, every
record is a connected history that ends in the state of its row (`records_connected`).
-/
import MemMux.Crash

namespace MemMux

open Ledger

variable {codec : CheckpointCodec} {h : Host} {R : Rules}

/-! ### Histories -/

/-- The history of a task leads from `Created`, which it has left, to its state. -/
def Traced (t : Task) : Prop := Connected .created t.history t.state ∧ t.state ≠ .created

theorem traced_queuedTask (spec : TaskSpec) (now : UInt64) : Traced (queuedTask spec now) :=
  ⟨⟨rfl, rfl, rfl⟩, by simp [queuedTask]⟩

theorem Traced.transition {t t' : Task} {next : TaskState} {reason : String} {now : UInt64}
    {tr : StateTransition} (ht : Traced t) (htr : t.transition next reason now = .ok (t', tr)) :
    Traced t' := by
  obtain ⟨hlegal, rfl, rfl⟩ := Task.transition_ok htr
  refine ⟨connected_snoc ht.1 rfl hlegal, ?_⟩
  -- no state may return to `Created`
  rintro rfl
  revert hlegal
  cases t.state <;> decide

/-- Every task in memory is traced, and so is the one being forgotten. -/
def AllTraced (s : Phase × World) : Prop :=
  (∀ id t, s.2.mem.tasks.lookup id = some t → Traced t) ∧
    ∀ id t, s.1 = .forgetting id → s.2.disk.tables.loadTask id = some t → Traced t

/-- Memory and disk match, and all tasks are traced. -/
def Sound (s : Phase × World) : Prop := Matches s ∧ AllTraced s

/-- A step that leaves the tasks in memory alone keeps them traced. -/
theorem AllTraced.of_tasks {p : Phase} {w : World} {q : Phase} {w' : World}
    (ha : AllTraced (p, w)) (ht : w'.mem.tasks = w.mem.tasks) (hq : ∀ id, q ≠ .forgetting id) :
    AllTraced (q, w') := by
  refine ⟨fun id t hlook => ha.1 id t ?_, fun id t hp => absurd hp (hq id)⟩
  rw [← ht]
  exact hlook

/-- **Every small step keeps the tasks traced**, unless a statement on a record is refused. -/
theorem Act.traced {s s' : Phase × World} {es : List Effect} (ha : Act codec h R s es s')
    (hes : ∀ e ∈ es, e.lost = false) (hs : Sound s) : AllTraced s' := by
  obtain ⟨hm, hmem, hforget⟩ := hs
  cases ha with
  | @idle p w w' es hc =>
      refine ⟨fun id t hlook => hmem id t ?_, fun id t hp hload => hforget id t hp ?_⟩
      · rw [← hc.tasks]
        exact hlook
      · rw [← (hc.sameRecord id).loadTask]
        exact hload
  | refused hq =>
      have hlost := hes _ (List.mem_singleton.mpr rfl)
      rw [show Effect.lost (.refuse _) = Stmt.onRecord _ from rfl, hq] at hlost
      cases hlost
  | @move p w w' id t t' tr next reason now hp ht htr hck hmem' hd =>
      refine ⟨fun j u hu => ?_, fun j u hj => by cases hj⟩
      rw [hmem'] at hu
      dsimp only at hu
      rw [KeyMap.lookup_insert_ite] at hu
      split at hu
      · obtain rfl := Option.some.inj hu
        exact (hmem id t ht).transition htr
      · exact hmem j u hu
  | @register w w' spec now hn hmem' hd =>
      refine ⟨fun j u hu => ?_, fun j u hj => by cases hj⟩
      rw [hmem'] at hu
      dsimp only at hu
      rw [KeyMap.lookup_insert_ite] at hu
      split at hu
      · obtain rfl := Option.some.inj hu
        exact traced_queuedTask spec now
      · exact hmem j u hu
  | @forget w w' id t hid ht hst hmem' hroot hrt hwt hd =>
      refine ⟨fun j u hu => ?_, fun j u hj hu => ?_⟩
      · rw [hmem', KeyMap.lookup_erase_ite] at hu
        split at hu
        · cases hu
        · exact hmem j u hu
      · -- the record still on disk is the one memory had
        obtain rfl : id = j := by
          injection hj
        have hdisk : w'.disk = w.disk := congrArg Journal.state hd
        rw [hdisk, (hm.1 id (by simp [Phase.subject])).1] at hu
        exact hmem id u hu
  | save hp ht hm' hd => exact AllTraced.of_tasks ⟨hmem, hforget⟩ (by rw [hm']) fun _ h => by cases h
  | store hn hf hm' hd => exact AllTraced.of_tasks ⟨hmem, hforget⟩ (by rw [hm']) fun _ h => by cases h
  | submit hm' hd => exact AllTraced.of_tasks ⟨hmem, hforget⟩ (by rw [hm']) fun _ h => by cases h
  | eraseHistory hm' hd => exact AllTraced.of_tasks ⟨hmem, hforget⟩ (by rw [hm']) fun _ h => by cases h
  | eraseRef hm' hd => exact AllTraced.of_tasks ⟨hmem, hforget⟩ (by rw [hm']) fun _ h => by cases h
  | eraseRow hm' hd => exact AllTraced.of_tasks ⟨hmem, hforget⟩ (by rw [hm']) fun _ h => by cases h
  | artifact ht hs he hm' hd => exact AllTraced.of_tasks ⟨hmem, hforget⟩ (by rw [hm']) fun _ h => by cases h
  | reference ht hs hp hm' hd => exact AllTraced.of_tasks ⟨hmem, hforget⟩ (by rw [hm']) fun _ h => by cases h
  | dropRef ht hs hm' hd => exact AllTraced.of_tasks ⟨hmem, hforget⟩ (by rw [hm']) fun _ h => by cases h

theorem Act.sound {s s' : Phase × World} {es : List Effect} (ha : Act codec h R s es s')
    (hes : ∀ e ∈ es, e.lost = false) (hs : Sound s) : Sound s' :=
  ⟨ha.matches hes hs.1, ha.traced hes hs⟩

theorem sound_chain {s s' : Phase × World} {es : List Effect}
    (hc : Chain (Act codec h R) s es s') (hes : ∀ e ∈ es, e.lost = false) (hs : Sound s) :
    Sound s' :=
  hc.keeps (fun _ _ _ ha => ha.sound) hes hs

/-- A daemon that has booted on traced records is sound. -/
theorem boot_sound (h : Host) (envelope : ResourceEnvelope) (root : Path)
    (disk : Journal Disk Effect)
    (horphans : ∀ id, disk.state.tables.tasks.rows.lookup id = none →
      disk.state.tables.loadHistory id = [])
    (htraced : ∀ id t, disk.state.tables.loadTask id = some t → Traced t) :
    Sound (.rest, boot h envelope root disk) := by
  refine ⟨boot_matches h envelope root disk horphans, fun id t ht => htraced id t ?_,
    fun id t hp => absurd hp (by simp)⟩
  rw [← boot_lookup h envelope root disk id]
  exact ht

theorem loadHistory_fresh (repos : List Path) (id : String) :
    (freshDisk repos).state.tables.loadHistory id = [] := rfl

theorem loadTask_fresh (repos : List Path) (id : String) :
    (freshDisk repos).state.tables.loadTask id = none := rfl

theorem fresh_sound (h : Host) (envelope : ResourceEnvelope) (root : Path) (repos : List Path) :
    Sound (.rest, boot h envelope root (freshDisk repos)) := by
  refine boot_sound h envelope root _ (fun id _ => loadHistory_fresh repos id) fun id t ht => ?_
  rw [loadTask_fresh] at ht
  cases ht

/-- A reboot between operations finds every record as memory has it. -/
theorem reboot_sound {w : World} (hs : Sound (.rest, w)) (h : Host) (envelope : ResourceEnvelope)
    (root : Path) : Sound (.rest, boot h envelope root w.durable) := by
  refine boot_sound h envelope root w.durable (fun id => hs.1.orphans) fun id t ht => ?_
  refine hs.2.1 id t ?_
  rw [← (hs.1.1 id (by simp [Phase.subject])).1]
  exact ht

/-! ### Between operations -/

/-- Everything commits, ids are fresh, and nothing crashes. -/
def Undisturbed (w : World) : Event → Prop
  | .op h i => (∀ n, h.commit n = true) ∧ FreshId h w i
  | .reboot _ => True
  | .crash _ _ _ _ => False

theorem sound_next (w : World) (e : Event) (hw : Live w.ledger ∧ Sound (.rest, w))
    (hok : Undisturbed w e) :
    Live (next codec w e).ledger ∧ Sound (.rest, next codec w e) := by
  obtain ⟨hl, hs⟩ := hw
  cases e with
  | op h i =>
      obtain ⟨hcommit, hf⟩ := hok
      have hm : AnyMoves w.ledger (perform codec h i w).ledger := perform_moves_any hl
      have hc := perform_chain hl (@complies_any codec h w i hf)
      exact ⟨hm.live hl, sound_chain hc (chain_not_lost hc hcommit) hs⟩
  | reboot h => exact ⟨live_boot _ _ _ _, reboot_sound hs h _ _⟩
  | crash h i k h' => exact hok.elim

/-- **The store refines memory between operations**: a daemon that boots on it has exactly the tasks
of the one that wrote it, and every history is a chain of legal transitions from `Created` to the
state of its task. -/
theorem store_refines_memory (h : Host) (envelope : ResourceEnvelope) (root : Path)
    (repos : List Path) (es : List Event)
    (hok : Run.Allowed (next codec) Undisturbed (boot h envelope root (freshDisk repos)) es)
    (h' : Host) :
    let w := runs codec (boot h envelope root (freshDisk repos)) es
    (∀ id, (boot h' w.mem.envelope w.mem.root w.durable).mem.tasks.lookup id
        = w.mem.tasks.lookup id) ∧
      ∀ id t, w.mem.tasks.lookup id = some t →
        Connected .created t.history t.state := by
  obtain ⟨-, hs⟩ := Run.invariant (@sound_next codec)
    ⟨live_boot h envelope root (freshDisk repos), fresh_sound h envelope root repos⟩ hok
  refine ⟨fun id => ?_, fun id t ht => (hs.2.1 id t ht).1⟩
  exact (boot_lookup h' _ _ _ id).trans (hs.1.1 id (by simp [Phase.subject])).1

/-- A task that is created, restarted and found again by the next daemon. -/
theorem store_refines_memory_running :
    let w := runs serdeJson (boot steadyHost smallHost "/memmux" (freshDisk ["/repo"]))
      createAndRestart
    (∀ id, (boot steadyHost w.mem.envelope w.mem.root w.durable).mem.tasks.lookup id
        = w.mem.tasks.lookup id) ∧
      ∀ id t, w.mem.tasks.lookup id = some t →
        Connected .created t.history t.state :=
  store_refines_memory steadyHost smallHost "/memmux" ["/repo"] createAndRestart
    ⟨⟨fun _ => rfl, by decide +kernel⟩, ⟨fun _ => rfl, by decide +kernel⟩, trivial⟩ steadyHost

/-! ### In the middle of an operation -/

/-- Whether the record a phase is about is complete on disk: a row, and transitions that end in its
state. -/
def Phase.settled : Phase → Bool
  | .rest | .registering _ _ | .forgetting _ => true
  | .creating _ _ | .moving _ | .erasing _ => false

/-- Whether a record is complete after an effect that meets the disk `d`.  A new row lacks its first
transition, any other transition a row after it, and a row whose transitions are gone is left to be
deleted. -/
def settles (d : Disk) (settled : Bool) : Effect → Bool
  | .commit (.upsertTask t) => decide (t.spec.id ∈ d.tables.tasks.rows)
  | .commit (.recordTransition _ tr) => decide (tr.fromState = .created)
  | .commit (.deleteTransitions _) => false
  | .commit (.deleteTaskRow _) => true
  | _ => settled

/-- Whether all records are complete after a list of effects. -/
def settledAfter : Disk → Bool → List Effect → Bool
  | _, settled, [] => settled
  | d, settled, e :: es => settledAfter (Replay.apply d e) (settles d settled e) es

theorem settledAfter_append (d : Disk) (b : Bool) (es fs : List Effect) :
    settledAfter d b (es ++ fs)
      = settledAfter (Journal.replay d es) (settledAfter d b es) fs := by
  induction es generalizing d b with
  | nil => rfl
  | cons e es ih => exact ih _ _

theorem settles_idle {e : Effect} (he : e.idle) (d : Disk) (b : Bool) : settles d b e = b := by
  cases e with
  | commit q => cases q <;> first | rfl | cases he
  | _ => rfl

theorem settledAfter_idle {es : List Effect} (hes : ∀ e ∈ es, e.idle) (d : Disk) (b : Bool) :
    settledAfter d b es = b := by
  induction es generalizing d b with
  | nil => rfl
  | cons e es ih =>
      refine (ih (fun e' he' => hes e' (List.mem_cons_of_mem _ he')) _ _).trans ?_
      exact settles_idle (hes e List.mem_cons_self) d b

/-- **A step settles the records as its effects say.** -/
theorem Act.settled {s s' : Phase × World} {es : List Effect} (ha : Act codec h R s es s')
    (hes : ∀ e ∈ es, e.lost = false) (hs : Sound s) :
    settledAfter s.2.disk s.1.settled es = s'.1.settled := by
  obtain ⟨hm, hmem, -⟩ := hs
  cases ha with
  | idle hc => exact settledAfter_idle hc.idle _ _
  | refused hq =>
      have hlost := hes _ (List.mem_singleton.mpr rfl)
      rw [show Effect.lost (.refuse _) = Stmt.onRecord _ from rfl, hq] at hlost
      cases hlost
  | @move p w w' id t t' tr next reason now hp ht htr hck hmem' hd =>
      -- a task in memory has left `Created`
      obtain ⟨-, rfl, -⟩ := Task.transition_ok htr
      exact decide_eq_false (hmem id t ht).2
  | @save p w w' id t hp ht hm' hd =>
      obtain ⟨u, row, hu, hid, hrow, -⟩ := hm.behind hp ht
      obtain rfl : t = u := Option.some.inj (ht.symm.trans hu)
      refine decide_eq_true ?_
      rw [hid]
      exact KeyMap.mem_iff_lookup.mpr ⟨row, hrow⟩
  | @store w w' spec now hn hf hm' hd =>
      have hload := (hm.1 spec.id (by simp [Phase.subject])).1
      rw [KeyMap.not_mem_iff_lookup.mp hf] at hload
      refine decide_eq_false ?_
      exact KeyMap.not_mem_iff_lookup.mpr (Option.map_eq_none_iff.mp hload)
  | submit hm' hd => rfl
  | register hn hmem' hd => rfl
  | forget hid ht hst hmem' hroot hrt hwt hd => rfl
  | eraseHistory hm' hd => rfl
  | eraseRef hm' hd => rfl
  | eraseRow hm' hd => rfl
  | artifact ht hst he hm' hd => rcases he with rfl | ⟨cp, -, rfl⟩ <;> rfl
  | reference ht hst hp hm' hd => rfl
  | dropRef ht hst hm' hd => rfl

theorem settled_chain {s s' : Phase × World} {es : List Effect}
    (hc : Chain (Act codec h R) s es s') (hes : ∀ e ∈ es, e.lost = false) (hs : Sound s) :
    settledAfter s.2.disk s.1.settled es = s'.1.settled := by
  induction hc with
  | nil => rfl
  | @snoc es fs t u hrest hlast ih =>
      have hboth := List.forall_mem_append.mp hes
      have hsound := sound_chain hrest hboth.1 hs
      rw [settledAfter_append, ih hboth.1, ← disk_writeAll (chain_durable hrest)]
      exact hlast.settled hboth.2 hsound

/-- In a settled phase every record on disk is that of a traced task. -/
theorem Sound.load_traced {s : Phase × World} (hs : Sound s) (hset : s.1.settled = true)
    {id : String} {t : Task} (ht : s.2.disk.tables.loadTask id = some t) : Traced t := by
  obtain ⟨hm, hmem, hforget⟩ := hs
  by_cases hid : s.1.subject = some id
  · obtain ⟨p, w⟩ := s
    cases p with
    | rest => cases hid
    | registering spec now =>
        obtain rfl : spec.id = id := Option.some.inj hid
        obtain ⟨-, hrow, hhist⟩ := hm.2
        obtain ⟨row, hrow', rfl⟩ := (Tables.loadTask_eq_some_iff _ _).mp ht
        obtain rfl := Option.some.inj (hrow.symm.trans hrow')
        rw [hhist, Tables.taskOfRow_upsert_none]
        exact traced_queuedTask spec now
    | forgetting i =>
        obtain rfl : i = id := Option.some.inj hid
        exact hforget i t rfl ht
    | creating spec now => cases hset
    | moving i => cases hset
    | erasing i => cases hset
  · rw [(hm.1 id hid).1] at ht
    exact hmem id t ht

/-- Ids are fresh, no statement on a record is refused, and a crash falls where all records are
complete. -/
def AtRest (codec : CheckpointCodec) (w : World) : Event → Prop
  | .op h i => FreshId h w i ∧ ∀ e ∈ effectsOf codec h i w, e.lost = false
  | .reboot _ => True
  | .crash h i k _ =>
      FreshId h w i ∧ (∀ e ∈ (effectsOf codec h i w).take k, e.lost = false) ∧
        settledAfter w.disk true ((effectsOf codec h i w).take k) = true

instance (codec : CheckpointCodec) (w : World) : ∀ e, Decidable (AtRest codec w e)
  | .op h i =>
      inferInstanceAs (Decidable (FreshId h w i ∧ ∀ e ∈ effectsOf codec h i w, e.lost = false))
  | .reboot _ => inferInstanceAs (Decidable True)
  | .crash h i k _ =>
      inferInstanceAs (Decidable (FreshId h w i ∧
        (∀ e ∈ (effectsOf codec h i w).take k, e.lost = false) ∧
          settledAfter w.disk true ((effectsOf codec h i w).take k) = true))

theorem sound_next_atRest (w : World) (e : Event) (hw : Live w.ledger ∧ Sound (.rest, w))
    (hok : AtRest codec w e) :
    Live (next codec w e).ledger ∧ Sound (.rest, next codec w e) := by
  obtain ⟨hl, hs⟩ := hw
  cases e with
  | op h i =>
      obtain ⟨hf, hes⟩ := hok
      have hm : AnyMoves w.ledger (perform codec h i w).ledger := perform_moves_any hl
      exact ⟨hm.live hl, sound_chain (perform_chain hl (complies_any hf)) hes hs⟩
  | reboot h => exact ⟨live_boot _ _ _ _, reboot_sound hs h _ _⟩
  | crash h i k h' =>
      obtain ⟨hf, hes, hrest⟩ := hok
      obtain ⟨q, u, hc, hcut⟩ := crash_chain hl (@complies_any codec h w i hf) k
      have hsu : Sound (q, u) := sound_chain hc hes hs
      have hset : q.settled = true := (settled_chain hc hes hs).symm.trans hrest
      refine ⟨live_boot _ _ _ _, ?_⟩
      show Sound (.rest, boot h' w.mem.envelope w.mem.root
        ((perform codec h i w).durable.cut (w.durable.log.length + k)))
      rw [hcut]
      exact boot_sound h' _ _ u.durable (fun id => hsu.1.orphans) fun id t => hsu.load_traced hset

/-- **Crashes at rest keep the records**: in every state of a run whose crashes fall between groups of
statements, every task is in the state its last transition leads to, and its history is a chain of
legal transitions from `Created`. -/
theorem records_connected (h : Host) (envelope : ResourceEnvelope) (root : Path)
    (repos : List Path) (es : List Event)
    (hok : Run.Allowed (next codec) (AtRest codec) (boot h envelope root (freshDisk repos)) es)
    (id : String) (t : Task)
    (ht : (runs codec (boot h envelope root (freshDisk repos)) es).mem.tasks.lookup id = some t) :
    t.state = lastTo t.history ∧ Connected .created t.history t.state := by
  obtain ⟨-, hs⟩ := Run.invariant (@sound_next_atRest codec)
    ⟨live_boot h envelope root (freshDisk repos), fresh_sound h envelope root repos⟩ hok
  have hc := (hs.2.1 id t ht).1
  exact ⟨connected_lastTo hc, hc⟩

/-- A hibernation crashes after the checkpoint was stored and before the task moved; the next daemon
restarts the task. -/
def crashedHibernation : List Event :=
  createAndRestart ++ [.crash steadyHost (.request (.hibernateTask fixLogin)) 3 steadyHost,
    .op steadyHost (.request (.restartTask fixLogin))]

theorem records_connected_crashed :
    ∃ t, (runs serdeJson (boot steadyHost smallHost "/memmux" (freshDisk ["/repo"]))
        crashedHibernation).mem.tasks.lookup fixLogin = some t ∧
      t.state = lastTo t.history ∧ Connected .created t.history t.state := by
  have hin : ((runs serdeJson (boot steadyHost smallHost "/memmux" (freshDisk ["/repo"]))
      crashedHibernation).mem.tasks.lookup fixLogin).isSome := by decide +kernel
  obtain ⟨t, ht⟩ := Option.isSome_iff_exists.mp hin
  exact ⟨t, ht, records_connected steadyHost smallHost "/memmux" ["/repo"] crashedHibernation
    (by decide +kernel) fixLogin t ht⟩

/-- A launch crashes after its first transition was recorded. -/
def crashedLaunch : List Event :=
  [.op steadyHost (.request (.createTask fixLoginRequest)),
    .crash steadyHost (.request (.restartTask fixLogin)) 6 steadyHost]

/-- The next daemon loads the task with a row that its history has left, and the launch it makes is
recorded after a transition it does not follow. -/
theorem launch_crash_splits :
    let w := runs serdeJson (boot steadyHost smallHost "/memmux" (freshDisk ["/repo"]))
      crashedLaunch
    (∃ t ∈ w.mem.tasks.lookup fixLogin, t.state ≠ lastTo t.history) ∧
      ∃ t ∈ (perform serdeJson steadyHost (.request (.restartTask fixLogin)) w).mem.tasks.lookup
        fixLogin, ¬ Connected .created t.history t.state := by
  decide +kernel

end MemMux
