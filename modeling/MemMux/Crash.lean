/-
MemMux/Crash.lean

Crashes in the middle of an operation.

An operation is a chain of small steps, and a chain can be cut after any of its effects
(`Chain.cut`): what a crash leaves on disk is therefore what some chain of small steps leaves, in
the phase that was under way (`crash_chain`).  The daemon that boots on it has in memory what is on
disk (`boot_matches`), whatever the phase was.
-/
import MemMux.Capacity
import MemMux.PumpRecords

namespace MemMux

open Ledger

variable {codec : CheckpointCodec} {h : Host} {R : Rules}

/-! ### Steps and the log -/

/-- A step writes its effects to the log, and nothing else. -/
theorem Act.durable {s s' : Phase × World} {es : List Effect} (ha : Act codec h R s es s') :
    s'.2.durable = s.2.durable.writeAll es := by
  cases ha with
  | idle hc => exact hc.durable
  | register hn hm hd => exact hd.trans (Journal.writeAll_nil _).symm
  | forget hid ht hs hm hroot hrt hwt hd => exact hd.trans (Journal.writeAll_nil _).symm
  | refused hq hc hp hsp hroot hrt hwt hd => exact hd
  | move hp ht htr hck hm hd => exact hd
  | artifact ht hs he hm hd => exact hd
  | reference ht hs hp hm hd => exact hd
  | save _ _ hm hd | store _ _ hm hd | submit hm hd | eraseHistory hm hd | eraseRef hm hd
  | eraseRow hm hd | dropRef _ _ hm hd => exact hd

/-- No step moves the root. -/
theorem Act.root {s s' : Phase × World} {es : List Effect} (ha : Act codec h R s es s') :
    s'.2.mem.root = s.2.mem.root := by
  cases ha with
  | idle hc => exact hc.root
  | forget hid ht hs hm hroot => exact hroot
  | refused hq hc hp hsp hroot => exact hroot
  | register hn hm hd => exact congrArg (·.root) hm
  | move hp ht htr hck hm hd => exact congrArg (·.root) hm
  | artifact ht hs he hm hd => exact congrArg (·.root) hm
  | reference ht hs hp hm hd => exact congrArg (·.root) hm
  | save _ _ hm hd | store _ _ hm hd | submit hm hd | eraseHistory hm hd | eraseRef hm hd
  | eraseRow hm hd | dropRef _ _ hm hd => exact congrArg (·.root) hm

/-- Only a host that fails to commit loses a statement on a record. -/
theorem Act.not_lost {s s' : Phase × World} {es : List Effect} (ha : Act codec h R s es s')
    (hc : ∀ n, h.commit n = true) {e : Effect} (he : e ∈ es) : e.lost = false := by
  cases ha with
  | idle hchore =>
      have hi := hchore.idle e he
      cases e with
      | refuse q => simpa [Effect.idle, Effect.lost] using hi
      | _ => rfl
  | refused hq hfail =>
      obtain ⟨n, hn⟩ := hfail
      rw [hc n] at hn
      cases hn
  | artifact ht hs hart hm hd =>
      rw [List.mem_singleton.mp he]
      rcases hart with rfl | ⟨cp, -, rfl⟩ <;> rfl
  | register hn hm hd => cases he
  | forget hid ht hs hm hroot hrt hwt hd => cases he
  | _ =>
      rw [List.mem_singleton.mp he]
      rfl

/-- A chain of chores is a chain of small steps, in any phase. -/
theorem chain_chores {w w' : World} {es : List Effect} (hc : Chain (Chore R) w es w') (p : Phase) :
    Chain (Act codec h R) (p, w) es (p, w') := by
  induction hc with
  | nil => exact .nil
  | snoc _ hlast ih => exact ih.snoc (.idle hlast)

/-- A step can be cut after any of its effects. -/
theorem act_cut {s s' : Phase × World} {es : List Effect} (ha : Act codec h R s es s') (k : Nat) :
    ∃ u, Chain (Act codec h R) s (es.take k) u := by
  have hone : ∀ e, es = [e] → ∃ u, Chain (Act codec h R) s (es.take k) u := by
    rintro e rfl
    cases k with
    | zero => exact ⟨s, .nil⟩
    | succ k =>
        rw [List.take_of_length_le (by simp)]
        exact ⟨s', .single ha⟩
  cases ha with
  | @idle p w w' es hc =>
      obtain ⟨u, hu⟩ := chore_cut hc k
      exact ⟨(p, u), chain_chores hu p⟩
  | register hn hm hd =>
      rw [List.take_nil]
      exact ⟨_, .nil⟩
  | forget hid ht hs hm hroot hrt hwt hd =>
      rw [List.take_nil]
      exact ⟨_, .nil⟩
  | _ => exact hone _ rfl

/-! ### Chains and the log -/

theorem chain_durable {s s' : Phase × World} {es : List Effect}
    (hc : Chain (Act codec h R) s es s') : s'.2.durable = s.2.durable.writeAll es := by
  induction hc with
  | nil => exact (Journal.writeAll_nil _).symm
  | snoc _ hlast ih =>
      rw [hlast.durable, ih]
      simp [Journal.writeAll]

theorem chain_root {s s' : Phase × World} {es : List Effect}
    (hc : Chain (Act codec h R) s es s') : s'.2.mem.root = s.2.mem.root := by
  induction hc with
  | nil => rfl
  | snoc _ hlast ih => exact hlast.root.trans ih

theorem chain_not_lost {s s' : Phase × World} {es : List Effect}
    (hc : Chain (Act codec h R) s es s') (hcommit : ∀ n, h.commit n = true) :
    ∀ e ∈ es, e.lost = false := by
  induction hc with
  | nil => simp
  | snoc _ hlast ih =>
      exact List.forall_mem_append.mpr ⟨ih, fun _ he => hlast.not_lost hcommit he⟩

/-! ### Operations and crashes -/

/-- The effects of one operation, in order. -/
def effectsOf (codec : CheckpointCodec) (h : Host) (i : Input) (w : World) : List Effect :=
  (perform codec h i w).durable.log.drop w.durable.log.length

/-- An operation is a chain with its own effects. -/
theorem perform_chain {i : Input} {w : World} (hl : Live w.ledger)
    (hR : Complies codec h R w i) :
    Chain (Act codec h R) (.rest, w) (effectsOf codec h i w) (.rest, perform codec h i w) := by
  obtain ⟨es, hes⟩ := perform_written hl hR
  have hlog : (perform codec h i w).durable.log = w.durable.log ++ es :=
    congrArg Journal.log (chain_durable hes)
  rw [effectsOf, hlog, List.drop_left]
  exact hes

/-- **What a crash leaves is what a chain of small steps leaves**: the one that was under way, as far
as its effects had reached the disk. -/
theorem crash_chain {i : Input} {w : World} (hl : Live w.ledger)
    (hR : Complies codec h R w i) (k : Nat) :
    ∃ q u, Chain (Act codec h R) (.rest, w) ((effectsOf codec h i w).take k) (q, u) ∧
      (perform codec h i w).durable.cut (w.durable.log.length + k) = u.durable := by
  have hc := perform_chain hl hR
  have hd : (perform codec h i w).durable = w.durable.writeAll (effectsOf codec h i w) :=
    chain_durable hc
  obtain ⟨⟨q, u⟩, hu⟩ := Chain.cut act_cut hc k
  have hdu : u.durable = w.durable.writeAll ((effectsOf codec h i w).take k) := chain_durable hu
  refine ⟨q, u, hu, ?_⟩
  rw [hd, hdu, Journal.cut_writeAll]

/-! ### Booting -/

/-- No phase leaves transitions without a row. -/
theorem Matches.orphans {s : Phase × World} (hm : Matches s) {id : String}
    (hrow : s.2.disk.tables.tasks.rows.lookup id = none) :
    s.2.disk.tables.loadHistory id = [] := by
  by_cases hs : s.1.subject = some id
  · obtain ⟨p, w⟩ := s
    obtain ⟨-, hu⟩ := hm
    cases p with
    | rest => cases hs
    | creating spec now => exact (Option.some.inj hs) ▸ hu.2.2
    | registering spec now =>
        obtain rfl := Option.some.inj hs
        exact absurd (hu.2.1.symm.trans hrow) (by simp)
    | moving i =>
        obtain rfl := Option.some.inj hs
        obtain ⟨t, row, -, -, hr, -⟩ := hu
        exact absurd (hr.symm.trans hrow) (by simp)
    | forgetting i =>
        obtain rfl := Option.some.inj hs
        obtain ⟨-, t, ht, -⟩ := hu
        obtain ⟨row, hr, -⟩ := (Tables.loadTask_eq_some_iff _ _).mp ht
        exact absurd (hr.symm.trans hrow) (by simp)
    | erasing i => exact (Option.some.inj hs) ▸ hu.2.1
  · exact (hm.1 id hs).2 hrow

theorem boot_lookup (h : Host) (envelope : ResourceEnvelope) (root : Path)
    (disk : Journal Disk Effect) (id : String) :
    (boot h envelope root disk).mem.tasks.lookup id = disk.state.tables.loadTask id :=
  Tables.lookup_ofList_loadTasks _ _

/-- The boot of a daemon concerns no record, no provider and no worktree. -/
theorem boot_disk (h : Host) (envelope : ResourceEnvelope) (root : Path)
    (disk : Journal Disk Effect) :
    ∃ e : Effect, e.quiet ∧ (boot h envelope root disk).durable = disk.write e := by
  refine ⟨_, ?_, rfl⟩
  split <;> rfl

theorem boot_sameRecord (h : Host) (envelope : ResourceEnvelope) (root : Path)
    (disk : Journal Disk Effect) (id : String) :
    SameRecord id disk.state (boot h envelope root disk).disk := by
  obtain ⟨e, he, hd⟩ := boot_disk h envelope root disk
  rw [World.disk, hd, Journal.state_write]
  refine sameRecord_apply ?_ _
  rw [record_of_idle (Effect.idle_of_quiet he)]
  intro h
  cases h

/-- **A daemon that has just booted matches its disk.** -/
theorem boot_matches (h : Host) (envelope : ResourceEnvelope) (root : Path)
    (disk : Journal Disk Effect)
    (horphans : ∀ id, disk.state.tables.tasks.rows.lookup id = none →
      disk.state.tables.loadHistory id = []) :
    Matches (.rest, boot h envelope root disk) := by
  refine ⟨fun id _ => ⟨?_, fun hrow => ?_⟩, trivial⟩
  · rw [(boot_sameRecord h envelope root disk id).loadTask, boot_lookup]
  · rw [(boot_sameRecord h envelope root disk id).1] at hrow
    rw [(boot_sameRecord h envelope root disk id).2]
    exact horphans id hrow

end MemMux
