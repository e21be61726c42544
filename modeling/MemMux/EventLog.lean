/-
MemMux/EventLog.lean

The event log and those who read it (`append_event`, `read_events_after` and `map_event` in
`memmux-store/src/lib.rs`, `read_events` in `memmuxd/src/daemon.rs`).

SQLite numbers the events with positive `i64` values that only increase.  The API counts in `u64`,
and a cursor crosses the boundary as `after_seq as i64`: from `2^63` on it comes out negative, and
every event is above it.  `readEventsAfter_eq_iff` is the exact condition, and `cursor_semantics`
adds what it means for a reader that starts at 0: it never has such a cursor, and gets every
event once, in order, however its reads interleave with appends.
-/
import Mathlib.Data.List.Perm.Subperm
import MemMux.Paging
import MemMux.Store

namespace MemMux

namespace EventLog

open Tables

/-! ### Sequence numbers -/

/-- The table as SQLite keeps it: positive sequence numbers that only increase. -/
structure Ordered (rows : List EventRow) : Prop where
  increasing : rows.Pairwise fun a b => a.seq < b.seq
  positive : ∀ e ∈ rows, 0 < e.seq

theorem toInt_eq_bmod (x : Int64) : x.toInt = (x.toUInt64.toNat : Int).bmod (2 ^ 64) := by
  rw [← Int64.toNat_toBitVec, ← Int64.toInt_toBitVec, BitVec.toInt_eq_toNat_bmod]

theorem toNat_lt_of_pos {x : Int64} (hx : 0 < x) : x.toUInt64.toNat < 2 ^ 63 := by
  have h := Int64.lt_iff_toInt_lt.mp hx
  have hlt := x.toUInt64.toNat_lt
  rw [toInt_eq_bmod x, Int.bmod_def] at h
  simp only [Int64.toInt_zero] at h
  split at h <;> omega

theorem toNat_pos {x : Int64} (hx : 0 < x) : 0 < x.toUInt64.toNat := by
  have h := Int64.lt_iff_toInt_lt.mp hx
  rw [toInt_eq_bmod x, Int.bmod_def] at h
  simp only [Int64.toInt_zero] at h
  split at h <;> omega

/-- For positive numbers, both orders agree. -/
theorem lt_iff_toNat_lt {x y : Int64} (hx : 0 < x) (hy : 0 < y) :
    x < y ↔ x.toUInt64.toNat < y.toUInt64.toNat := by
  have hx' := toNat_lt_of_pos hx
  have hy' := toNat_lt_of_pos hy
  rw [Int64.lt_iff_toInt_lt, toInt_eq_bmod x, toInt_eq_bmod y, Int.bmod_def, Int.bmod_def]
  split <;> split <;> omega

/-- What SQLite compares, in terms of what the client asked for. -/
theorem toInt64_lt_iff {c : UInt64} {y : Int64} (hy : 0 < y) :
    c.toInt64 < y ↔ 2 ^ 63 ≤ c.toNat ∨ c.toNat < y.toUInt64.toNat := by
  have hy' := toNat_lt_of_pos hy
  have hc := c.toNat_lt
  rw [Int64.lt_iff_toInt_lt, toInt_eq_bmod c.toInt64, toInt_eq_bmod y, UInt64.toUInt64_toInt64,
    Int.bmod_def, Int.bmod_def]
  split <;> split <;> omega

/-! ### One read -/

/-- There are fewer rows than `i64` has positive values. -/
theorem Ordered.length_lt {rows : List EventRow} (ho : Ordered rows) : rows.length ≤ 2 ^ 63 := by
  have hnodup : (rows.map (·.seq.toUInt64.toNat)).Nodup := by
    refine List.pairwise_map.mpr (List.Pairwise.imp_of_mem ?_ ho.increasing)
    intro a b ha hb hab
    exact ((lt_iff_toNat_lt (ho.positive a ha) (ho.positive b hb)).mp hab).ne
  have hsub : rows.map (·.seq.toUInt64.toNat) ⊆ List.range (2 ^ 63) := by
    intro n hn
    obtain ⟨e, he, rfl⟩ := List.mem_map.mp hn
    exact List.mem_range.mpr (toNat_lt_of_pos (ho.positive e he))
  have hle := (hnodup.subperm hsub).length_le
  rwa [List.length_map, List.length_range] at hle

/-- `LIMIT limit as i64` is a limit of `limit`: from `2^63` on it is none, and none is needed. -/
theorem sqlLimit_asI64 {α : Type} {rows : List α} (hrows : rows.length ≤ 2 ^ 63) (limit : UInt64) :
    sqlLimit (asI64 limit.toNat) rows = rows.take limit.toNat := by
  have hlt := limit.toNat_lt
  have hsize : (limit.toNat : Int).bmod (2 ^ 64) = if limit.toNat < 2 ^ 63 then (limit.toNat : Int)
      else (limit.toNat : Int) - 2 ^ 64 := by
    rw [Int.bmod_def]
    split <;> split <;> omega
  show sqlLimit ((limit.toNat : Int).bmod (2 ^ 64)) rows = _
  rw [hsize]
  unfold sqlLimit
  split
  · rw [if_neg (by omega), Int.toNat_natCast]
  · rw [if_pos (by omega), List.take_of_length_le (by omega)]

/-- The events a client asks for: those above `afterSeq`, oldest first, at most `limit` of them. -/
def requested (tb : Tables) (afterSeq : UInt64) (limit : Nat) : List StoredEvent :=
  Paging.page (·.seq.toNat) afterSeq.toNat limit (tb.events.map (·.toStored))

/-- What a read returns. -/
theorem readEventsAfter_eq {tb : Tables} (ho : Ordered tb.events) (afterSeq limit : UInt64) :
    tb.readEventsAfter afterSeq limit.toNat
      = if afterSeq.toNat < 2 ^ 63 then requested tb afterSeq limit.toNat
        else (tb.events.map (·.toStored)).take limit.toNat := by
  have hsub := tb.events.filter_sublist (p := fun e => afterSeq.toInt64 < e.seq)
  have hsorted : (tb.events.filter fun e => afterSeq.toInt64 < e.seq).Pairwise
      fun a b => a.seq ≤ b.seq :=
    (ho.increasing.sublist hsub).imp fun hab => Int64.le_of_lt hab
  unfold Tables.readEventsAfter
  rw [hsorted.insertionSort_eq, sqlLimit_asI64 (hsub.length_le.trans ho.length_lt), List.map_take]
  split
  · next hc =>
    unfold requested Paging.page
    rw [List.filter_map]
    congr 2
    refine List.filter_congr fun e he => ?_
    refine decide_eq_decide.mpr ((toInt64_lt_iff (ho.positive e he)).trans ?_)
    exact or_iff_right (Nat.not_le.mpr hc)
  · next hc =>
    -- the cursor is negative by now
    rw [List.filter_eq_self.mpr]
    intro e he
    exact decide_eq_true ((toInt64_lt_iff (ho.positive e he)).mpr (.inl (Nat.le_of_not_lt hc)))

/-- **A read returns what was asked for** exactly if the cursor is an `i64`, or there is nothing to
return. -/
theorem readEventsAfter_eq_iff {tb : Tables} (ho : Ordered tb.events) (afterSeq limit : UInt64) :
    tb.readEventsAfter afterSeq limit.toNat = requested tb afterSeq limit.toNat
      ↔ afterSeq.toNat < 2 ^ 63 ∨ tb.events = [] ∨ limit = 0 := by
  rw [readEventsAfter_eq ho]
  split
  · next hc => exact iff_of_true rfl (.inl hc)
  · next hc =>
    have hnone : requested tb afterSeq limit.toNat = [] := by
      unfold requested Paging.page
      rw [List.filter_eq_nil_iff.mpr, List.take_nil]
      intro x hx
      obtain ⟨e, he, rfl⟩ := List.mem_map.mp hx
      have hlt := toNat_lt_of_pos (ho.positive e he)
      have hle : e.toStored.seq.toNat ≤ afterSeq.toNat := by
        show e.seq.toUInt64.toNat ≤ afterSeq.toNat
        omega
      simpa using hle
    rw [hnone, List.take_eq_nil_iff, List.map_eq_nil_iff, ← UInt64.toNat_inj, or_iff_right hc,
      or_comm]
    rfl

/-! ### A reader -/

/-- The store, and a client that reads its log. -/
structure Reader where
  tb : Tables
  cursor : UInt64
  received : List StoredEvent

/-- A client that starts from the beginning. -/
def begin (tb : Tables) : Reader := ⟨tb, 0, []⟩

/-- An append of anybody, or a read of the client. -/
inductive Event
  | append (row : EventRow)
  | read (limit : UInt64)

/-- The client gets the answer to a read, and continues from the last sequence number in it. -/
def Reader.receive (s : Reader) (page : List StoredEvent) : Reader :=
  { s with
      cursor := (page.getLast?.map (·.seq)).getD s.cursor
      received := s.received ++ page }

@[simp] theorem receive_tb (s : Reader) (page : List StoredEvent) :
    (s.receive page).tb = s.tb := rfl

/-- What an event does. -/
def step (s : Reader) : Event → Reader
  | .append row => { s with tb := { s.tb with events := s.tb.events ++ [row] } }
  | .read limit => s.receive (s.tb.readEventsAfter s.cursor limit.toNat)

/-- SQLite assigns a positive number above all others. -/
def Assigned (s : Reader) : Event → Prop
  | .append row => 0 < row.seq ∧ ∀ e ∈ s.tb.events, e.seq < row.seq
  | .read _ => True

/-- The events of the log. -/
def Reader.log (s : Reader) : List StoredEvent := s.tb.events.map (·.toStored)

/-- **Every event once, in order**: what was received is the beginning of the log, and any read
continues it. -/
def InTurn (s : Reader) : Prop :=
  s.received <+: s.log ∧
    ∀ limit, (step s (.read limit)).received = s.log.take (s.received.length + limit.toNat)

def Reader.toPaging (s : Reader) : Paging.Reader StoredEvent Nat :=
  ⟨s.log, s.cursor.toNat, s.received⟩

def Event.toPaging : Event → Paging.Event StoredEvent
  | .append row => .append row.toStored
  | .read limit => .read limit.toNat

/-- The log is in order, and the client is where its cursor says. -/
structure Inv (s : Reader) : Prop where
  ordered : Ordered s.tb.events
  paging : Paging.Reader.Inv (·.seq.toNat) 0 s.toPaging

/-- The client never has a cursor that is no `i64`. -/
theorem Inv.cursor_lt {s : Reader} (hs : Inv s) : s.cursor.toNat < 2 ^ 63 := by
  rcases hs.paging.cursor with h | ⟨x, hx, h⟩
  · have h0 : s.cursor.toNat = 0 := h
    omega
  · obtain ⟨e, he, rfl⟩ := List.mem_map.mp hx
    have hseq : s.cursor.toNat = e.seq.toUInt64.toNat := h
    rw [hseq]
    exact toNat_lt_of_pos (hs.ordered.positive e he)

/-- A read of the store is a read of the log. -/
theorem toPaging_step {s : Reader} (hs : Inv s) (e : Event) :
    (step s e).toPaging = Paging.Reader.step (·.seq.toNat) s.toPaging e.toPaging := by
  cases e with
  | append row =>
      show (⟨_, _, _⟩ : Paging.Reader StoredEvent Nat) = ⟨_, _, _⟩
      congr 1
      show (s.tb.events ++ [row]).map (·.toStored) = _
      rw [List.map_append]
      rfl
  | read limit =>
      have hpage : s.tb.readEventsAfter s.cursor limit.toNat
          = requested s.tb s.cursor limit.toNat :=
        (readEventsAfter_eq_iff hs.ordered _ _).mpr (.inl hs.cursor_lt)
      have hcursor : ∀ page : List StoredEvent,
          ((page.getLast?.map (·.seq)).getD s.cursor).toNat
            = (page.getLast?.map (·.seq.toNat)).getD s.cursor.toNat := by
        intro page
        cases page.getLast? with
        | none => rfl
        | some x => rfl
      simp only [step, Reader.receive, Reader.toPaging, Event.toPaging, Paging.Reader.step, hpage,
        hcursor]
      rfl

/-- A number that SQLite assigns is above all others for the client, too. -/
theorem fresh_of_assigned {s : Reader} {e : Event} (hs : Inv s) (he : Assigned s e) :
    Paging.Reader.Fresh (·.seq.toNat) 0 s.toPaging e.toPaging := by
  cases e with
  | append row =>
      refine ⟨toNat_pos he.1, fun x hx => ?_⟩
      obtain ⟨r, hr, rfl⟩ := List.mem_map.mp hx
      exact (lt_iff_toNat_lt (hs.ordered.positive r hr) he.1).mp (he.2 r hr)
  | read limit => exact trivial

theorem ordered_step {s : Reader} {e : Event} (hs : Ordered s.tb.events) (he : Assigned s e) :
    Ordered (step s e).tb.events := by
  cases e with
  | append row =>
      refine ⟨?_, fun x hx => ?_⟩
      · refine List.pairwise_append.mpr ⟨hs.increasing, List.pairwise_singleton _ _, ?_⟩
        intro x hx y hy
        rw [List.mem_singleton.mp hy]
        exact he.2 x hx
      · rcases List.mem_append.mp hx with hx | hx
        · exact hs.positive x hx
        · rw [List.mem_singleton.mp hx]
          exact he.1
  | read limit =>
      show Ordered (s.receive _).tb.events
      rw [receive_tb]
      exact hs

theorem inv_step (s : Reader) (e : Event) (hs : Inv s) (he : Assigned s e) : Inv (step s e) := by
  refine ⟨ordered_step hs.ordered he, ?_⟩
  rw [toPaging_step hs e]
  exact Paging.Reader.inv_step _ _ hs.paging (fresh_of_assigned hs he)

theorem inv_begin {tb : Tables} (ho : Ordered tb.events) : Inv (begin tb) := by
  refine ⟨ho, Paging.Reader.inv_start ?_ fun x hx => ?_⟩
  · refine List.pairwise_map.mpr (List.Pairwise.imp_of_mem ?_ ho.increasing)
    intro a b ha hb hab
    exact (lt_iff_toNat_lt (ho.positive a ha) (ho.positive b hb)).mp hab
  · obtain ⟨e, he, rfl⟩ := List.mem_map.mp hx
    exact toNat_pos (ho.positive e he)

/-- A client that is where its cursor says gets what comes next. -/
theorem Inv.inTurn {s : Reader} (hs : Inv s) : InTurn s := by
  refine ⟨hs.paging.got_prefix, fun limit => ?_⟩
  have hread := congrArg Paging.Reader.got (toPaging_step hs (.read limit))
  exact hread.trans (hs.paging.got_read limit.toNat)

/-- **Cursor semantics**: a read returns what was asked for exactly if the cursor is an `i64`, or
there is nothing to return; and a client that starts from the beginning gets every event once, in
order. -/
theorem cursor_semantics {tb : Tables} (ho : Ordered tb.events) :
    (∀ afterSeq limit : UInt64,
      tb.readEventsAfter afterSeq limit.toNat = requested tb afterSeq limit.toNat
        ↔ afterSeq.toNat < 2 ^ 63 ∨ tb.events = [] ∨ limit = 0) ∧
    ∀ es, Run.Allowed step Assigned (begin tb) es → InTurn (Run.run step (begin tb) es) :=
  ⟨readEventsAfter_eq_iff ho, fun _ hes => (Run.invariant inv_step (inv_begin ho) hes).inTurn⟩

/-- A log of two events. -/
def twoEvents : Tables :=
  { Tables.empty with
      events := [⟨1, some "t1", 0, "lifecycle", "started", "info", "daemon", none⟩,
        ⟨2, some "t1", 0, "lifecycle", "idle", "info", "daemon", none⟩] }

theorem ordered_twoEvents : Ordered twoEvents.events := by
  constructor <;> decide

theorem cursor_semantics_twoEvents :
    (∀ afterSeq limit : UInt64,
      twoEvents.readEventsAfter afterSeq limit.toNat = requested twoEvents afterSeq limit.toNat
        ↔ afterSeq.toNat < 2 ^ 63 ∨ twoEvents.events = [] ∨ limit = 0) ∧
    ∀ es, Run.Allowed step Assigned (begin twoEvents) es →
      InTurn (Run.run step (begin twoEvents) es) :=
  cursor_semantics ordered_twoEvents

/-- **A cursor of `2^63` is before every event**: all come back, and none was asked for. -/
theorem high_cursor_reads_all :
    twoEvents.readEventsAfter 9223372036854775808 10
      ≠ requested twoEvents 9223372036854775808 10 := by
  have hcursor : ¬ (9223372036854775808 : UInt64).toNat < 2 ^ 63 := by decide
  have hrows : ¬ twoEvents.events = [] := by decide
  have hlimit : ¬ (10 : UInt64) = 0 := by decide
  intro h
  rcases (readEventsAfter_eq_iff ordered_twoEvents 9223372036854775808 10).mp h with h | h | h
  · exact hcursor h
  · exact hrows h
  · exact hlimit h

/-! ### The rows of the store -/

/-- The rows are numbered from 1. -/
def Numbered (rows : List EventRow) : Prop :=
  rows.map (·.seq) = (List.range rows.length).map fun i => Int64.ofNat (i + 1)

theorem toInt_ofNat_succ {i n : Nat} (hi : i < n) (hn : n < 2 ^ 63) :
    (Int64.ofNat (i + 1)).toInt = i + 1 := by
  have h := @Int64.toInt_ofNat_of_lt (i + 1) (by omega)
  rw [h]
  rfl

/-- `append_event` assigns the next number. -/
theorem assigned_appendEvent {s : Reader} (hs : Numbered s.tb.events)
    (hlen : s.tb.events.length + 1 < 2 ^ 63) (ev : EventInput) :
    ∃ row, s.tb.apply (.appendEvent ev) = (step s (.append row)).tb ∧ Assigned s (.append row) ∧
      Numbered (step s (.append row)).tb.events := by
  refine ⟨_, rfl, ⟨?_, fun e he => ?_⟩, ?_⟩
  · rw [Int64.lt_iff_toInt_lt, toInt_ofNat_succ (Nat.lt_succ_self _) hlen, Int64.toInt_zero]
    omega
  · have hin : e.seq ∈ s.tb.events.map (·.seq) := List.mem_map_of_mem he
    rw [hs] at hin
    obtain ⟨i, hi, hseq⟩ := List.mem_map.mp hin
    have hlt := List.mem_range.mp hi
    rw [Int64.lt_iff_toInt_lt, toInt_ofNat_succ (Nat.lt_succ_self _) hlen, ← hseq,
      toInt_ofNat_succ hlt (by omega)]
    omega
  · unfold Numbered at hs ⊢
    simp only [step, List.map_append, List.length_append, List.length_singleton, List.range_succ,
      hs]
    rfl

end EventLog

end MemMux
