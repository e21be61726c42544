/-
MemMux/TaskIds.lean

The ids of new tasks (`create_task` in `memmuxd/src/daemon.rs`).

An id is made of a clock reading and of the low 16 bits of a counter that starts over at every
boot: its stamp.  Two creates with one stamp get one id, and the second overwrites the task of
the first.  `ids_fresh_iff` says that this is the only way in which a create can meet a task
that is there already: every id in memory or on disk is that of an earlier stamp
(`Minted.next`), and different stamps give different ids (`newTaskId_inj`).
-/
import MemMux.Crash

namespace MemMux

open Ledger

variable {codec : CheckpointCodec} {h : Host} {R : Rules}

/-! ### The text of an id -/

/-- The value of a hexadecimal digit. -/
def hexDigit (c : Char) : Nat := if c.toNat ≤ 57 then c.toNat - 48 else c.toNat - 87

/-- The number a string of hexadecimal digits stands for. -/
def readHex (cs : List Char) : Nat := cs.foldl (fun n c => 16 * n + hexDigit c) 0

theorem hexDigit_digitChar : ∀ d < 16, hexDigit (Nat.digitChar d) = d := by decide

theorem readHex_toDigits (n : Nat) : readHex (Nat.toDigits 16 n) = n := by
  induction n using Nat.strong_induction_on with
  | _ n ih =>
      rw [Nat.toDigits_eq_if (by decide)]
      split
      · next hlt => exact (Nat.zero_add _).trans (hexDigit_digitChar n hlt)
      · next hge =>
        have hrest := ih (n / 16) (by omega)
        unfold readHex at hrest ⊢
        rw [List.foldl_append, hrest]
        show 16 * (n / 16) + hexDigit (Nat.digitChar (n % 16)) = n
        rw [hexDigit_digitChar _ (Nat.mod_lt _ (by decide))]
        omega

theorem readHex_zeros (k : Nat) (cs : List Char) :
    readHex (List.replicate k '0' ++ cs) = readHex cs := by
  induction k with
  | zero => rfl
  | succ k ih => exact ih

theorem readHex_hex (n : Nat) : readHex (hex n).toList = n := by
  rw [hex, String.toList_ofList, readHex_toDigits]

theorem readHex_hexPad (width n : Nat) : readHex (hexPad width n).toList = n := by
  rw [hexPad, String.toList_ofList, readHex_zeros, readHex_toDigits]

/-- A number that fits is padded to the width. -/
theorem length_hexPad {width n : Nat} (hw : 0 < width) (hn : n < 16 ^ width) :
    (hexPad width n).toList.length = width := by
  have hlen := (Nat.length_toDigits_le_iff (by decide : 1 < 16) hw).mpr hn
  rw [hexPad, String.toList_ofList, List.length_append, List.length_replicate]
  omega

/-- The low 16 bits of a counter. -/
abbrev low16 (seq : UInt64) : UInt64 := seq &&& 0xffff

theorem low16_lt (seq : UInt64) : (low16 seq).toNat < 16 ^ 4 := by
  rw [UInt64.toNat_and]
  exact Nat.lt_succ_of_le Nat.and_le_right

/-- **An id is its clock reading and its count.** -/
theorem newTaskId_inj {now now' seq seq' : UInt64} :
    newTaskId now seq = newTaskId now' seq' ↔ now = now' ∧ low16 seq = low16 seq' := by
  constructor
  · intro heq
    have hlists := congrArg String.toList heq
    unfold newTaskId at hlists
    simp only [String.toList_append, List.append_assoc] at hlists
    have hlists := List.append_cancel_left hlists
    have hlens := (length_hexPad (by decide) (low16_lt seq)).trans
      (length_hexPad (by decide) (low16_lt seq')).symm
    -- the counts have the same length, so they end the ids at the same place
    obtain ⟨hnow, hseq⟩ := List.append_inj' hlists hlens
    have hnow := congrArg readHex hnow
    have hseq := congrArg readHex hseq
    rw [readHex_hex, readHex_hex] at hnow
    rw [readHex_hexPad, readHex_hexPad] at hseq
    exact ⟨UInt64.toNat_inj.mp hnow, UInt64.toNat_inj.mp hseq⟩
  · rintro ⟨rfl, hseq⟩
    unfold newTaskId
    rw [show seq &&& 0xffff = seq' &&& 0xffff from hseq]

/-! ### Ids that are taken -/

/-- A task is stored or registered under `id`. -/
def Taken (w : World) (id : String) : Prop :=
  id ∈ w.mem.tasks ∨ id ∈ w.disk.tables.tasks.rows

instance (w : World) (id : String) : Decidable (Taken w id) :=
  inferInstanceAs (Decidable (_ ∨ _))

/-- The tasks in memory are under their own ids. -/
def Keyed (w : World) : Prop := ∀ id t, w.mem.tasks.lookup id = some t → t.spec.id = id

/-- The rules under which no task is created. -/
def Rules.noTask : Rules := ⟨fun _ _ _ => True, fun _ => False, fun _ => True, fun _ => True⟩

/-- Whether an effect makes a row of the task table. -/
def Effect.makesRow : Effect → Bool
  | .commit (.upsertTask _) => true
  | _ => false

/-- Only the upsert of a task makes a row. -/
theorem mem_rows_of_write {w w' : World} {e : Effect} {id : String}
    (he : e.makesRow = false) (hd : w'.durable = w.durable.write e)
    (ht : id ∈ w'.disk.tables.tasks.rows) : id ∈ w.disk.tables.tasks.rows := by
  rw [disk_write hd] at ht
  cases e with
  | commit q =>
      cases q with
      | upsertTask t => cases he
      | deleteTaskRow i => exact ((KeyMap.mem_erase_iff _ _ _).mp ht).2
      | _ => exact ht
  | _ => exact ht

/-- A step that leaves memory alone, and makes no row, takes no id. -/
theorem keeps_taken {w w' : World} {e : Effect} (hk : Keyed w) (hm : w'.mem = w.mem)
    (he : e.makesRow = false) (hd : w'.durable = w.durable.write e) :
    Keyed w' ∧ ∀ id, Taken w' id → Taken w id := by
  unfold Keyed Taken
  rw [hm]
  exact ⟨hk, fun id => Or.imp_right (mem_rows_of_write he hd)⟩

/-- **A step that creates no task takes no id.** -/
theorem Act.taken {s s' : Phase × World} {es : List Effect} (ha : Act codec h .noTask s es s')
    (hk : Keyed s.2) : Keyed s'.2 ∧ ∀ id, Taken s'.2 id → Taken s.2 id := by
  cases ha with
  | @idle p w w' es hc =>
      unfold Keyed Taken
      dsimp only
      rw [hc.tasks]
      refine ⟨hk, fun id => Or.imp_right fun ht => ?_⟩
      rw [KeyMap.mem_iff_lookup] at ht ⊢
      rwa [(hc.sameRecord id).1] at ht
  | @refused p p' w w' q hq hc hp hsp hroot hrt hwt hd =>
      have hlook : ∀ id t, w'.mem.tasks.lookup id = some t →
          ∃ u, w.mem.tasks.lookup id = some u ∧ u.spec = t.spec := by
        intro id t ht
        refine Option.map_eq_some_iff.mp ?_
        rw [← hsp id, ht]
        rfl
      refine ⟨fun id t ht => ?_, fun id => Or.imp (fun ht => ?_) (mem_rows_of_write rfl hd)⟩
      · obtain ⟨u, hu, hspec⟩ := hlook id t ht
        rw [← hspec]
        exact hk id u hu
      · obtain ⟨t, ht⟩ := KeyMap.mem_iff_lookup.mp ht
        obtain ⟨u, hu, -⟩ := hlook id t ht
        exact KeyMap.mem_iff_lookup.mpr ⟨u, hu⟩
  | @move p w w' i t t' tr next reason now hp ht htr hck hm hd =>
      obtain ⟨-, -, rfl⟩ := Task.transition_ok htr
      refine ⟨fun id u hu => ?_, fun id => Or.imp (fun hin => ?_) (mem_rows_of_write rfl hd)⟩
      · rw [hm] at hu
        dsimp only at hu
        rw [KeyMap.lookup_insert_ite] at hu
        split at hu
        · next heq =>
          rw [← Option.some.inj hu, heq]
          exact hk i t ht
        · exact hk id u hu
      · rw [hm] at hin
        rcases (KeyMap.mem_insert_iff _ _ _ _).mp hin with rfl | hin
        · exact KeyMap.mem_iff_lookup.mpr ⟨t, ht⟩
        · exact hin
  | @save p w w' i t hp ht hm hd =>
      -- the row belongs to a task that is there
      have hid : t.spec.id = i := hk i t ht
      unfold Keyed Taken
      dsimp only
      rw [hm]
      refine ⟨hk, fun id => ?_⟩
      rw [disk_write hd]
      rintro (hin | hin)
      · exact .inl hin
      · rcases (KeyMap.mem_insert_iff _ _ _ _).mp hin with rfl | hin
        · rw [hid]
          exact .inl (KeyMap.mem_iff_lookup.mpr ⟨t, ht⟩)
        · exact .inr hin
  | store hn => exact hn.elim
  | register hn => exact hn.elim
  | @forget w w' i t hid ht hs hm hroot hrt hwt hd =>
      have hdisk : w'.disk = w.disk := congrArg Journal.state hd
      refine ⟨fun id u hu => hk id u ?_, fun id => Or.imp (fun hin => ?_) (fun hin => ?_)⟩
      · rw [hm, KeyMap.lookup_erase_ite] at hu
        split at hu
        · cases hu
        · exact hu
      · rw [hm] at hin
        exact ((KeyMap.mem_erase_iff _ _ _).mp hin).2
      · rwa [← hdisk]
  | artifact ht hs he hm hd =>
      refine keeps_taken hk hm ?_ hd
      rcases he with rfl | ⟨cp, -, rfl⟩ <;> rfl
  | submit hm hd => exact keeps_taken hk hm rfl hd
  | eraseHistory hm hd => exact keeps_taken hk hm rfl hd
  | eraseRef hm hd => exact keeps_taken hk hm rfl hd
  | eraseRow hm hd => exact keeps_taken hk hm rfl hd
  | reference ht hs hp hm hd => exact keeps_taken hk hm rfl hd
  | dropRef ht hs hm hd => exact keeps_taken hk hm rfl hd

theorem taken_chain {s s' : Phase × World} {es : List Effect}
    (hc : Chain (Act codec h .noTask) s es s') (hk : Keyed s.2) :
    Keyed s'.2 ∧ ∀ id, Taken s'.2 id → Taken s.2 id := by
  induction hc with
  | nil => exact ⟨hk, fun id ht => ht⟩
  | snoc hrest hlast ih =>
      obtain ⟨hk', ht'⟩ := hlast.taken ih.1
      exact ⟨hk', fun id ht => ih.2 id (ht' id ht)⟩

/-- A daemon boots with the tasks that have rows. -/
theorem taken_boot (h : Host) (envelope : ResourceEnvelope) (root : Path)
    (disk : Journal Disk Effect) (id : String) :
    Taken (boot h envelope root disk) id ↔ id ∈ disk.state.tables.tasks.rows := by
  have hrow : id ∈ (boot h envelope root disk).disk.tables.tasks.rows
      ↔ id ∈ disk.state.tables.tasks.rows := by
    rw [KeyMap.mem_iff_lookup, KeyMap.mem_iff_lookup,
      (boot_sameRecord h envelope root disk id).1]
  have hmem : id ∈ (boot h envelope root disk).mem.tasks
      ↔ id ∈ disk.state.tables.tasks.rows := by
    rw [← AList.lookup_isSome, boot_lookup, Tables.loadTask, Option.isSome_map,
      AList.lookup_isSome]
  rw [Taken, hrow, hmem, or_self]

theorem keyed_boot (h : Host) (envelope : ResourceEnvelope) (root : Path)
    (disk : Journal Disk Effect) : Keyed (boot h envelope root disk) := by
  intro id t ht
  rw [boot_lookup] at ht
  exact Tables.spec_id_of_loadTask _ _ ht

/-! ### Creating a task -/

/-- What `create_task` makes an id of: the reading of the clock, and how many tasks the daemon was
asked for since it booted, modulo 2^16. -/
structure Stamp where
  now : UInt64
  count : UInt16
  deriving DecidableEq, Repr

/-- The id of a stamp. -/
def Stamp.id (s : Stamp) : String := newTaskId s.now s.count.toUInt64

/-- The stamp of the next create request. -/
def nextStamp (h : Host) (w : World) : Stamp := ⟨h.now 0, (w.mem.seq + 1).toUInt16⟩

theorem low16_toNat (seq : UInt64) : (low16 seq).toNat = seq.toNat % 2 ^ 16 := by
  rw [UInt64.toNat_and]
  exact Nat.and_two_pow_sub_one_eq_mod _ 16

theorem low16_toUInt16 (seq : UInt64) : low16 seq.toUInt16.toUInt64 = low16 seq := by
  rw [← UInt64.toNat_inj, low16_toNat, low16_toNat, UInt16.toNat_toUInt64, UInt64.toNat_toUInt16,
    Nat.mod_mod]

theorem nextStamp_id (h : Host) (w : World) :
    (nextStamp h w).id = newTaskId (h.now 0) (w.mem.seq + 1) :=
  newTaskId_inj.mpr ⟨rfl, low16_toUInt16 _⟩

/-- **Different stamps give different ids.** -/
theorem Stamp.id_inj {s s' : Stamp} : s.id = s'.id ↔ s = s' := by
  refine ⟨fun heq => ?_, fun heq => heq ▸ rfl⟩
  obtain ⟨hnow, hcount⟩ := newTaskId_inj.mp heq
  obtain ⟨now, count⟩ := s
  obtain ⟨now', count'⟩ := s'
  rw [← UInt64.toNat_inj, low16_toNat, low16_toNat, UInt16.toNat_toUInt64, UInt16.toNat_toUInt64,
    Nat.mod_eq_of_lt count.toNat_lt, Nat.mod_eq_of_lt count'.toNat_lt] at hcount
  obtain rfl : now = now' := hnow
  rw [UInt16.toNat_inj.mp hcount]

/-- The task that a create request with a known provider makes. -/
def newTask (h : Host) (w : World) (provider : Provider) (req : CreateTaskRequest) : Task :=
  queuedTask (specOf (newTaskId (h.now 0) (w.mem.seq + 1)) provider req) (h.now 0)

theorem newTask_id (h : Host) (w : World) (provider : Provider) (req : CreateTaskRequest) :
    (newTask h w provider req).spec.id = (nextStamp h w).id :=
  (nextStamp_id h w).symm

/-- An effect that concerns no record but that of `id`. -/
def Effect.follows (id : String) (e : Effect) : Prop := ∀ i, e.record = some i → i = id

/-- A create request is refused, and nothing is registered or written to a record. -/
structure Refused (w w' : World) (r : Response) : Prop where
  answer : ∃ message, r = .error message
  tasks : w'.mem.tasks = w.mem.tasks
  writes : Writes (fun e => e.record = none) w w'

/-- A create request makes `t`: its row is written first, and nothing but its record after. -/
structure Created (t : Task) (w w' : World) (r : Response) : Prop where
  answer : r = .task (view t)
  tasks : w'.mem.tasks = w.mem.tasks.insert t.spec.id t
  writes : ∃ es, w'.durable = w.durable.writeAll (.commit (.upsertTask t) :: es) ∧
    ∀ e ∈ es, e.follows t.spec.id

/-- Registering a task writes its first transition, an event and a decision. -/
theorem registerTask_writes (t : Task) (w : World) :
    Writes (Effect.follows t.spec.id) w (registerTask h t w) := by
  have htr : Writes (Effect.follows t.spec.id) w
      (exec h (.recordTransition t.spec.id (submitted t.createdAtMs)) w) :=
    writes_exec (fun i hi => (Option.some.inj hi).symm) nofun w
  unfold registerTask
  exact htr.trans ((writes_exec nofun nofun _).trans (writes_exec nofun nofun _))

/-- The daemon has read the clock and counted the request. -/
def counted (h : Host) (w : World) : World :=
  { (w.begin h).ask with mem := { w.mem with seq := w.mem.seq + 1 } }

theorem createTask_eq {req : CreateTaskRequest} {provider : Provider}
    (hp : parseProvider req.provider = some provider) (w : World) :
    createTask h req (w.begin h)
      = if h.commit 1 then
          (registerTask h (newTask h w provider req)
            (exec h (.upsertTask (newTask h w provider req)) (counted h w)),
            .task (view (newTask h w provider req)))
        else (exec h (.upsertTask (newTask h w provider req)) (counted h w),
          .error ("store error: " ++ h.failure 1)) := by
  have hex : executes h (.upsertTask (newTask h w provider req)) (counted h w) = h.commit 1 :=
    Bool.and_true _
  rw [← hex]
  unfold createTask
  rw [hp]
  rfl

/-- The store answers a create request right after the clock. -/
theorem exec_counted (h : Host) (w : World) (t : Task) :
    (exec h (.upsertTask t) (counted h w)).durable
      = w.durable.write
          (if h.commit 1 then .commit (.upsertTask t) else .refuse (.upsertTask t)) := by
  have hex : executes h (.upsertTask t) (counted h w) = h.commit 1 := Bool.and_true _
  rw [← hex]
  rfl

/-- **A create request makes its task** if it names a provider and the store takes the row. -/
theorem createTask_created {req : CreateTaskRequest} {w : World} {provider : Provider}
    (hp : parseProvider req.provider = some provider) (hc : h.commit 1 = true) :
    Created (newTask h w provider req) w (createTask h req (w.begin h)).1
      (createTask h req (w.begin h)).2 := by
  rw [createTask_eq hp, if_pos hc]
  have hrow := exec_counted h w (newTask h w provider req)
  rw [if_pos hc] at hrow
  obtain ⟨es, hd, hes⟩ := @registerTask_writes h (newTask h w provider req)
    (exec h (.upsertTask (newTask h w provider req)) (counted h w))
  refine ⟨rfl, rfl, es, ?_, hes⟩
  rw [Journal.writeAll_cons, ← hrow]
  exact hd

theorem createTask_refused {req : CreateTaskRequest} {w : World}
    (hno : parseProvider req.provider = none ∨ h.commit 1 = false) :
    Refused w (createTask h req (w.begin h)).1 (createTask h req (w.begin h)).2 := by
  cases hp : parseProvider req.provider with
  | none =>
      unfold createTask
      rw [hp]
      exact ⟨⟨_, rfl⟩, rfl, [], (Journal.writeAll_nil _).symm,
        fun _ he => absurd he List.not_mem_nil⟩
  | some provider =>
      rw [hp] at hno
      have hc : ¬ h.commit 1 = true := by
        rw [hno.resolve_left nofun]
        decide
      rw [createTask_eq hp, if_neg hc]
      have hrow := exec_counted h w (newTask h w provider req)
      rw [if_neg hc] at hrow
      exact ⟨⟨_, rfl⟩, rfl, [.refuse (.upsertTask (newTask h w provider req))], hrow,
        fun e he => List.mem_singleton.mp he ▸ rfl⟩

/-! ### Stamps of a run -/

/-- The stamp of the task an operation stores as new: it is a create request with a known provider,
and the store takes the row. -/
def storedStamp (h : Host) (w : World) : Input → Option Stamp
  | .request (.createTask req) =>
      if (parseProvider req.provider).isSome ∧ h.commit 1 = true then some (nextStamp h w) else none
  | _ => none

/-- The stamp of the task an event stores as new.  A crash before the first effect stores none. -/
def stored (w : World) : Event → Option Stamp
  | .op h i => storedStamp h w i
  | .crash h i k _ => if 0 < k then storedStamp h w i else none
  | .reboot _ => none

/-- A run with the stamps of the tasks it stored. -/
def stamping (codec : CheckpointCodec) (s : World × List Stamp) (e : Event) : World × List Stamp :=
  (next codec s.1 e, (stored s.1 e).toList ++ s.2)

/-- **No twin is there**: no task that was stored with the stamp of the new one is still stored or
registered. -/
def NoTwin (s : World × List Stamp) (e : Event) : Prop :=
  ∀ st ∈ stored s.1 e, st ∈ s.2 → ¬ Taken s.1 st.id

instance (s : World × List Stamp) (e : Event) : Decidable (NoTwin s e) :=
  inferInstanceAs (Decidable (∀ st ∈ stored s.1 e, st ∈ s.2 → ¬ Taken s.1 st.id))

/-- The row and the transitions of `id` are as they were, and no effect was on them. -/
def RecordKept (id : String) (d d' : Disk) (es : List Effect) : Prop :=
  (∀ e ∈ es, e.record ≠ some id) ∧ SameRecord id d d'

/-- **A create request takes a fresh id.**  It returns no id that a task has, stored or registered,
and every task keeps its specification, state and history, in memory and on disk.  A crash in
the middle leaves those on disk. -/
def CreatesFresh (codec : CheckpointCodec) (w : World) : Event → Prop
  | .op h (.request (.createTask req)) =>
      (∀ v, (handle codec h (.createTask req) (w.begin h)).2 = .task v → ¬ Taken w v.id) ∧
        ∀ id, Taken w id →
          (next codec w (.op h (.request (.createTask req)))).mem.tasks.lookup id
              = w.mem.tasks.lookup id ∧
            RecordKept id w.disk (next codec w (.op h (.request (.createTask req)))).disk
              (effectsOf codec h (.request (.createTask req)) w)
  | .crash h (.request (.createTask req)) k h' =>
      ∀ id, Taken w id →
        RecordKept id w.disk (next codec w (.crash h (.request (.createTask req)) k h')).disk
          ((effectsOf codec h (.request (.createTask req)) w).take k)
  | _ => True

theorem effectsOf_eq {i : Input} {w : World} {es : List Effect}
    (hd : (perform codec h i w).durable = w.durable.writeAll es) :
    effectsOf codec h i w = es := by
  rw [effectsOf, hd, Journal.writeAll_log, List.drop_left]

/-- A create request that stores a task makes it, under the id of its stamp. -/
theorem create_stored {req : CreateTaskRequest} {w : World} {st : Stamp}
    (hst : storedStamp h w (.request (.createTask req)) = some st) :
    st = nextStamp h w ∧ ∃ t : Task, t.spec.id = st.id ∧
      Created t w (handle codec h (.createTask req) (w.begin h)).1
        (handle codec h (.createTask req) (w.begin h)).2 := by
  simp only [storedStamp] at hst
  split at hst
  · next hgo =>
    obtain ⟨provider, hp⟩ := Option.isSome_iff_exists.mp hgo.1
    obtain rfl := Option.some.inj hst
    exact ⟨rfl, newTask h w provider req, newTask_id h w provider req, createTask_created hp hgo.2⟩
  · cases hst

/-- Any other create request changes no record. -/
theorem create_unstored {req : CreateTaskRequest} {w : World}
    (hst : storedStamp h w (.request (.createTask req)) = none) :
    Refused w (handle codec h (.createTask req) (w.begin h)).1
      (handle codec h (.createTask req) (w.begin h)).2 := by
  refine createTask_refused ?_
  simp only [storedStamp] at hst
  split at hst
  · cases hst
  · next hno =>
    rw [not_and_or, Option.not_isSome_iff_eq_none, Bool.not_eq_true] at hno
    exact hno

/-- **What a create request writes**: nothing on any record but that of the task it stores. -/
theorem effectsOf_create (codec : CheckpointCodec) (h : Host) (req : CreateTaskRequest)
    (w : World) :
    (perform codec h (.request (.createTask req)) w).durable
        = w.durable.writeAll (effectsOf codec h (.request (.createTask req)) w) ∧
      ∀ e ∈ effectsOf codec h (.request (.createTask req)) w, ∀ i, e.record = some i →
        ∃ st, storedStamp h w (.request (.createTask req)) = some st ∧ i = st.id := by
  cases hst : storedStamp h w (.request (.createTask req)) with
  | some st =>
      obtain ⟨-, t, hid, -, -, es, hd, hes⟩ := @create_stored codec h req w st hst
      rw [@effectsOf_eq codec h (.request (.createTask req)) w _ hd]
      refine ⟨hd, fun e he i hi => ⟨st, rfl, ?_⟩⟩
      rcases List.mem_cons.mp he with rfl | he
      · exact (Option.some.inj hi).symm.trans hid
      · exact (hes e he i hi).trans hid
  | none =>
      obtain ⟨-, -, es, hd, hes⟩ := @create_unstored codec h req w hst
      rw [@effectsOf_eq codec h (.request (.createTask req)) w _ hd]
      refine ⟨hd, fun e he i hi => ?_⟩
      rw [hes e he] at hi
      cases hi

/-- A record that no effect of a create request is on is kept. -/
theorem recordKept_of {id : String} {w : World} {d : Disk} {es : List Effect}
    (hes : ∀ e ∈ es, e.record ≠ some id) (hd : SameRecord id (Journal.replay w.disk es) d) :
    RecordKept id w.disk d es := by
  refine ⟨hes, ?_⟩
  have hsame := sameRecord_replay hes w.disk
  exact ⟨hd.1.trans hsame.1, hd.2.trans hsame.2⟩

/-! ### The invariant -/

/-- **Every id that is taken is that of a stamp of the run.** -/
structure Minted (s : World × List Stamp) : Prop where
  live : Live s.1.ledger
  keyed : Keyed s.1
  minted : ∀ id, Taken s.1 id → ∃ st ∈ s.2, st.id = id

/-- Rows are made by the upsert of a task. -/
theorem mem_rows_replay {id : String} {es : List Effect} {d : Disk}
    (hid : id ∈ (Journal.replay d es).tables.tasks.rows) :
    id ∈ d.tables.tasks.rows ∨ ∃ e ∈ es, e.record = some id := by
  by_cases hes : ∀ e ∈ es, e.record ≠ some id
  · rw [KeyMap.mem_iff_lookup, (sameRecord_replay hes d).1, ← KeyMap.mem_iff_lookup] at hid
    exact .inl hid
  · push Not at hes
    exact .inr hes

/-- The boot on a disk whose rows are minted. -/
theorem minted_boot (h : Host) (envelope : ResourceEnvelope) (root : Path)
    {disk : Journal Disk Effect} {log : List Stamp}
    (hrows : ∀ id, id ∈ disk.state.tables.tasks.rows → ∃ st ∈ log, st.id = id) :
    Minted (boot h envelope root disk, log) :=
  ⟨live_boot _ _ _ _, keyed_boot _ _ _ _,
    fun id hid => hrows id ((taken_boot h envelope root disk id).mp hid)⟩

/-- An operation other than a create request. -/
def Input.makesNoTask : Input → Bool
  | .request (.createTask _) => false
  | _ => true

theorem Input.create_of_not {i : Input} (hi : ¬ i.makesNoTask = true) :
    ∃ req, i = .request (.createTask req) := by
  cases i with
  | tick => exact absurd rfl hi
  | request r =>
      cases r with
      | createTask req => exact ⟨req, rfl⟩
      | _ => exact absurd rfl hi

theorem complies_noTask {i : Input} (hi : i.makesNoTask = true) (w : World) :
    Complies codec h .noTask w i := by
  have hnone : newSpec h w i = none := by
    cases i with
    | tick => rfl
    | request r =>
        cases r with
        | createTask req => cases hi
        | _ => rfl
  rw [Option.eq_none_iff_forall_ne_some] at hnone
  exact ⟨fun spec hs => absurd hs (hnone spec), fun spec hs => absurd hs (hnone spec),
    fun _ _ => ⟨trivial, fun _ => trivial⟩, fun _ => trivial⟩

theorem stored_noTask {i : Input} (hi : i.makesNoTask = true) (h : Host) (w : World) :
    storedStamp h w i = none := by
  cases i with
  | tick => rfl
  | request r =>
      cases r with
      | createTask req => cases hi
      | _ => rfl

/-- The rows after some of the effects of a create request. -/
theorem Minted.rows_create {w : World} {log : List Stamp} (hs : Minted (w, log))
    (codec : CheckpointCodec) (h : Host) (req : CreateTaskRequest) {es : List Effect}
    (hes : es ⊆ effectsOf codec h (.request (.createTask req)) w) {id : String}
    (hid : id ∈ (Journal.replay w.disk es).tables.tasks.rows) :
    (∃ st ∈ log, st.id = id) ∨
      es ≠ [] ∧ ∃ st, storedStamp h w (.request (.createTask req)) = some st ∧ st.id = id := by
  rcases mem_rows_replay hid with hrow | ⟨e, he, hrec⟩
  · exact .inl (hs.minted id (.inr hrow))
  · obtain ⟨st, hst, heq⟩ := (effectsOf_create codec h req w).2 e (hes he) id hrec
    exact .inr ⟨List.ne_nil_of_mem he, st, hst, heq.symm⟩

theorem Minted.create {w : World} {log : List Stamp} (hs : Minted (w, log))
    (codec : CheckpointCodec) (h : Host) (req : CreateTaskRequest) :
    Minted (stamping codec (w, log) (.op h (.request (.createTask req)))) := by
  obtain ⟨hd, -⟩ := effectsOf_create codec h req w
  have hdisk := disk_writeAll hd
  -- a row that is stored by then carries the id of a stamp, the new one perhaps
  have hrows : ∀ id, id ∈ (perform codec h (.request (.createTask req)) w).disk.tables.tasks.rows →
      ∃ st ∈ (storedStamp h w (.request (.createTask req))).toList ++ log, st.id = id := by
    intro id hid
    rw [hdisk] at hid
    rcases hs.rows_create codec h req (List.Subset.refl _) hid with
      ⟨st, hst, heq⟩ | ⟨-, st, hst, heq⟩
    · exact ⟨st, List.mem_append_right _ hst, heq⟩
    · exact ⟨st, List.mem_append_left _ (Option.mem_toList.mpr hst), heq⟩
  have hl : Live (perform codec h (.request (.createTask req)) w).ledger :=
    (perform_moves_any hs.live).live hs.live
  cases hst : storedStamp h w (.request (.createTask req)) with
  | some st =>
      obtain ⟨-, t, hid, -, htasks, -⟩ := @create_stored codec h req w st hst
      refine ⟨hl, fun id u hu => ?_, fun id hin => ?_⟩
      · have hu' : (w.mem.tasks.insert t.spec.id t).lookup id = some u := htasks ▸ hu
        rw [KeyMap.lookup_insert_ite] at hu'
        split at hu'
        · next heq => rw [← Option.some.inj hu', heq]
        · exact hs.keyed id u hu'
      · rcases hin with hin | hin
        · have hin' : id ∈ w.mem.tasks.insert t.spec.id t := htasks ▸ hin
          rcases (KeyMap.mem_insert_iff _ _ _ _).mp hin' with rfl | hin'
          · exact ⟨st, List.mem_append_left _ (Option.mem_toList.mpr hst), hid.symm⟩
          · obtain ⟨st', hst', heq⟩ := hs.minted id (.inl hin')
            exact ⟨st', List.mem_append_right _ hst', heq⟩
        · exact hrows id hin
  | none =>
      obtain ⟨-, htasks, -⟩ := @create_unstored codec h req w hst
      refine ⟨hl, fun id u hu => hs.keyed id u (htasks ▸ hu), fun id hin => ?_⟩
      rcases hin with hin | hin
      · obtain ⟨st', hst', heq⟩ := hs.minted id (.inl (htasks ▸ hin))
        exact ⟨st', List.mem_append_right _ hst', heq⟩
      · exact hrows id hin

/-- **Every event keeps the ids minted.** -/
theorem Minted.next (s : World × List Stamp) (e : Event) (hs : Minted s) :
    Minted (stamping codec s e) := by
  obtain ⟨w, log⟩ := s
  cases e with
  | reboot h => exact minted_boot _ _ _ fun id hid => hs.minted id (.inr hid)
  | op h i =>
      by_cases hi : i.makesNoTask = true
      · obtain ⟨hk, ht⟩ := taken_chain (perform_chain hs.live (complies_noTask hi w)) hs.keyed
        refine ⟨(perform_moves_any hs.live).live hs.live, hk, fun id hid => ?_⟩
        obtain ⟨st, hst, heq⟩ := hs.minted id (ht id hid)
        exact ⟨st, List.mem_append_right _ hst, heq⟩
      · obtain ⟨req, rfl⟩ := Input.create_of_not hi
        exact hs.create codec h req
  | crash h i k h' =>
      refine minted_boot _ _ _ fun id hid => ?_
      by_cases hi : i.makesNoTask = true
      · -- the rows on disk are those of the chain that was cut
        obtain ⟨q, u, hc, hcut⟩ := crash_chain hs.live (@complies_noTask codec h i hi w) k
        rw [hcut] at hid
        obtain ⟨st, hst, heq⟩ := hs.minted id ((taken_chain hc hs.keyed).2 id (.inr hid))
        exact ⟨st, List.mem_append_right _ hst, heq⟩
      · obtain ⟨req, rfl⟩ := Input.create_of_not hi
        rw [(effectsOf_create codec h req w).1, Journal.cut_writeAll, Journal.state_writeAll] at hid
        rcases hs.rows_create codec h req (List.take_subset _ _) hid with
          ⟨st, hst, heq⟩ | ⟨hne, st, hst, heq⟩
        · exact ⟨st, List.mem_append_right _ hst, heq⟩
        · have hk : 0 < k := by
            refine Nat.pos_of_ne_zero ?_
            rintro rfl
            exact hne List.take_zero
          refine ⟨st, List.mem_append_left _ (Option.mem_toList.mpr ?_), heq⟩
          exact (if_pos hk).trans hst

/-! ### Fresh ids -/

/-- Under `NoTwin` the id of a stored task is free. -/
theorem Minted.free {s : World × List Stamp} {e : Event} {st : Stamp} (hs : Minted s)
    (hno : NoTwin s e) (hst : stored s.1 e = some st) : ¬ Taken s.1 st.id := by
  intro hid
  obtain ⟨st', hst', heq⟩ := hs.minted st.id hid
  obtain rfl := Stamp.id_inj.mp heq
  exact hno st' hst hst' hid

/-- No effect of a create request is on the record of another task. -/
theorem unwritten_create {w : World} (codec : CheckpointCodec) (h : Host) (req : CreateTaskRequest)
    {id : String}
    (hfree : ∀ st ∈ storedStamp h w (.request (.createTask req)), st.id ≠ id) :
    ∀ e ∈ effectsOf codec h (.request (.createTask req)) w, e.record ≠ some id := by
  intro e he hrec
  obtain ⟨st, hst, heq⟩ := (effectsOf_create codec h req w).2 e he id hrec
  exact hfree st hst heq.symm

theorem Minted.fresh_create {w : World} {log : List Stamp} (hs : Minted (w, log))
    (codec : CheckpointCodec) (h : Host) (req : CreateTaskRequest) :
    CreatesFresh codec w (.op h (.request (.createTask req)))
      ↔ NoTwin (w, log) (.op h (.request (.createTask req))) := by
  constructor
  · rintro ⟨hans, -⟩ st hst -
    obtain ⟨-, t, hid, hanswer, -⟩ := @create_stored codec h req w st hst
    exact hid ▸ hans _ hanswer
  · intro hno
    have hfree : ∀ st ∈ storedStamp h w (.request (.createTask req)), ¬ Taken w st.id :=
      fun st hst => hs.free hno hst
    -- the answer, the registered tasks, and the record of the others
    refine ⟨fun v hv => ?_, fun id hid => ⟨?_, ?_⟩⟩
    · cases hst : storedStamp h w (.request (.createTask req)) with
      | some st =>
          obtain ⟨-, t, hid, hanswer, -⟩ := @create_stored codec h req w st hst
          obtain rfl := Response.task.inj (hanswer.symm.trans hv)
          show ¬ Taken w t.spec.id
          rw [hid]
          exact hfree st hst
      | none =>
          obtain ⟨⟨message, hmessage⟩, -⟩ := @create_unstored codec h req w hst
          cases hmessage.symm.trans hv
    · show (handle codec h (.createTask req) (w.begin h)).1.mem.tasks.lookup id = _
      cases hst : storedStamp h w (.request (.createTask req)) with
      | some st =>
          obtain ⟨-, t, htid, -, htasks, -⟩ := @create_stored codec h req w st hst
          rw [htasks, KeyMap.lookup_insert_ite, if_neg]
          rintro rfl
          exact hfree st hst (htid ▸ hid)
      | none =>
          obtain ⟨-, htasks, -⟩ := @create_unstored codec h req w hst
          rw [htasks]
    · refine recordKept_of (unwritten_create codec h req fun st hst heq => ?_) ?_
      · exact hfree st hst (heq ▸ hid)
      · show SameRecord id _ (perform codec h (.request (.createTask req)) w).disk
        rw [disk_writeAll (effectsOf_create codec h req w).1]
        exact ⟨rfl, rfl⟩

theorem Minted.fresh_crash {w : World} {log : List Stamp} (hs : Minted (w, log))
    (codec : CheckpointCodec) (h : Host) (req : CreateTaskRequest) (k : Nat) (h' : Host) :
    CreatesFresh codec w (.crash h (.request (.createTask req)) k h')
      ↔ NoTwin (w, log) (.crash h (.request (.createTask req)) k h') := by
  constructor
  · intro hkeep st hst _ hid
    -- the row of the new task is the first effect
    have hst' : (if 0 < k then storedStamp h w (.request (.createTask req)) else none) = some st :=
      hst
    split at hst'
    · next hk =>
      obtain ⟨-, t, htid, -, -, es, hd, -⟩ := @create_stored codec h req w st hst'
      have hes := @effectsOf_eq codec h (.request (.createTask req)) w _ hd
      refine (hkeep st.id hid).1 (.commit (.upsertTask t)) ?_ (congrArg some htid)
      rw [hes, List.take_cons hk]
      exact List.mem_cons_self
    · cases hst'
  · intro hno id hid
    have hun : ∀ e ∈ (effectsOf codec h (.request (.createTask req)) w).take k,
        e.record ≠ some id := by
      intro e he
      refine unwritten_create codec h req (fun st hst heq => ?_) e (List.take_subset _ _ he)
      have hk : 0 < k := by
        refine Nat.pos_of_ne_zero ?_
        rintro rfl
        rw [List.take_zero] at he
        exact absurd he List.not_mem_nil
      exact hs.free hno ((if_pos hk).trans hst) (heq ▸ hid)
    refine recordKept_of hun ?_
    have hboot := boot_sameRecord h' w.mem.envelope w.mem.root
      ((perform codec h (.request (.createTask req)) w).durable.cut (w.durable.log.length + k))
      id
    rw [(effectsOf_create codec h req w).1, Journal.cut_writeAll, Journal.state_writeAll] at hboot
    show SameRecord id _ (boot h' w.mem.envelope w.mem.root
      ((perform codec h (.request (.createTask req)) w).durable.cut (w.durable.log.length + k))).disk
    rw [(effectsOf_create codec h req w).1, Journal.cut_writeAll]
    exact hboot

/-- Nothing is asked of the other operations. -/
theorem fresh_noTask {i : Input} (hi : i.makesNoTask = true) (h : Host) (w : World) :
    CreatesFresh codec w (.op h i) ∧ ∀ k h', CreatesFresh codec w (.crash h i k h') := by
  cases i with
  | tick => exact ⟨trivial, fun _ _ => trivial⟩
  | request r =>
      cases r with
      | createTask req => cases hi
      | _ => exact ⟨trivial, fun _ _ => trivial⟩

/-- **A create request takes a fresh id exactly when no twin is there.** -/
theorem Minted.fresh_iff (codec : CheckpointCodec) (s : World × List Stamp) (e : Event)
    (hs : Minted s) : CreatesFresh codec s.1 e ↔ NoTwin s e := by
  obtain ⟨w, log⟩ := s
  have hunstored : stored w e = none → NoTwin (w, log) e := by
    intro hnone st hst
    cases hnone.symm.trans hst
  cases e with
  | reboot h => exact ⟨fun _ => hunstored rfl, fun _ => trivial⟩
  | op h i =>
      by_cases hi : i.makesNoTask = true
      · exact ⟨fun _ => hunstored (stored_noTask hi h w), fun _ => (fresh_noTask hi h w).1⟩
      · obtain ⟨req, rfl⟩ := Input.create_of_not hi
        exact hs.fresh_create codec h req
  | crash h i k h' =>
      by_cases hi : i.makesNoTask = true
      · have hnone : stored w (.crash h i k h') = none := by
          show (if 0 < k then storedStamp h w i else none) = none
          rw [stored_noTask hi, ite_self]
        exact ⟨fun _ => hunstored hnone, fun _ => (fresh_noTask hi h w).2 k h'⟩
      · obtain ⟨req, rfl⟩ := Input.create_of_not hi
        exact hs.fresh_crash codec h req k h'

theorem fresh_minted (h : Host) (envelope : ResourceEnvelope) (root : Path) (repos : List Path) :
    Minted (boot h envelope root (freshDisk repos), []) :=
  minted_boot h envelope root fun _ hid => absurd hid (AList.notMem_empty _)

/-- **When task ids are fresh.**  In a run over any reboots and crashes, with any clock, every
create request takes an id that no stored or registered task has, and leaves all of them as they
were, exactly when no create request is stored with the stamp of an earlier one whose task is
still there. -/
theorem ids_fresh_iff (codec : CheckpointCodec) (h : Host) (envelope : ResourceEnvelope)
    (root : Path) (repos : List Path) (es : List Event) :
    Run.Allowed (stamping codec) (fun s e => CreatesFresh codec s.1 e)
        (boot h envelope root (freshDisk repos), []) es
      ↔ Run.Allowed (stamping codec) NoTwin (boot h envelope root (freshDisk repos), []) es :=
  Run.allowed_iff_of_invariant Minted.next (Minted.fresh_iff codec)
    (fresh_minted h envelope root repos) es

/-- The request of another task. -/
def otherRequest : CreateTaskRequest := { fixLoginRequest with title := "add logout" }

/-- A task is created; the daemon reboots, and is asked for another one while the clock still reads
the same millisecond. -/
def createRebootCreate : List Event :=
  [.op steadyHost (.request (.createTask fixLoginRequest)), .reboot steadyHost,
    .op steadyHost (.request (.createTask otherRequest))]

/-- The daemon after the reboot. -/
def rebooted : World :=
  runs serdeJson (boot steadyHost smallHost "/memmux" (freshDisk ["/repo"]))
    (createRebootCreate.take 2)

/-- The second task gets the id of the first, and takes its record over. -/
theorem reboot_reuses_id :
    ¬ Run.Allowed (stamping serdeJson) (fun s e => CreatesFresh serdeJson s.1 e)
        (boot steadyHost smallHost "/memmux" (freshDisk ["/repo"]), []) createRebootCreate ∧
      let w := next serdeJson rebooted (.op steadyHost (.request (.createTask otherRequest)))
      (rebooted.mem.tasks.lookup fixLogin).map (·.spec.title) = some "fix login" ∧
        (w.mem.tasks.lookup fixLogin).map (·.spec.title) = some "add logout" ∧
        (rebooted.disk.tables.loadTask fixLogin).map (·.spec.title) = some "fix login" ∧
        (w.disk.tables.loadTask fixLogin).map (·.spec.title) = some "add logout" := by
  refine ⟨fun ha => ?_, by decide +kernel⟩
  obtain ⟨hans, -⟩ := ha.2.2.1
  obtain ⟨-, t, hid, hanswer, -⟩ := @create_stored serdeJson steadyHost otherRequest rebooted
    ⟨1000, 1⟩ (by decide +kernel)
  refine hans _ hanswer ?_
  show Taken rebooted t.spec.id
  rw [hid]
  decide +kernel

end MemMux
