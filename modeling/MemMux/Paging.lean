/-
MemMux/Paging.lean

Reading a growing log by a cursor.

The records of a log have keys that only increase.  A reader asks for the next `n` records with keys
above its cursor, and takes the key of the last one it gets as its new cursor.  However its reads
interleave with appends, what it has got so far is a prefix of the log, and a read continues it
(`Reader.Inv.got_read`): it misses nothing, and gets nothing twice.
-/
import Mathlib.Data.List.Basic
import Mathlib.Data.List.Infix
import Mathlib.Order.Defs.LinearOrder
import Mathlib.Order.Lattice
import MemMux.Run

namespace Paging

variable {α κ : Type} [LinearOrder κ] (key : α → κ)

/-- At most `n` records with keys above `c`, in the order of the log. -/
def page (c : κ) (n : Nat) (log : List α) : List α := (log.filter fun x => c < key x).take n

/-- The keys only increase. -/
def Increasing (log : List α) : Prop := log.Pairwise fun x y => key x < key y

/-- A log, and somebody who reads it. -/
structure Reader (α κ : Type) where
  log : List α
  cursor : κ
  got : List α

/-- What happens to the log, or to the reader. -/
inductive Event (α : Type)
  | append (x : α)
  | read (n : Nat)

namespace Reader

/-- What an event does. -/
def step (s : Reader α κ) : Event α → Reader α κ
  | .append x => { s with log := s.log ++ [x] }
  | .read n =>
      let records := page key s.cursor n s.log
      { s with
          cursor := (records.getLast?.map key).getD s.cursor
          got := s.got ++ records }

/-- A record gets a key above all others, and above `bottom`. -/
def Fresh (bottom : κ) (s : Reader α κ) : Event α → Prop
  | .append x => bottom < key x ∧ ∀ y ∈ s.log, key y < key x
  | .read _ => True

/-- **The cursor divides the log** into what was got and what was not. -/
structure Inv (bottom : κ) (s : Reader α κ) : Prop where
  increasing : Increasing key s.log
  above : ∀ x ∈ s.log, bottom < key x
  cursor : s.cursor = bottom ∨ ∃ x ∈ s.log, s.cursor = key x
  divided : ∃ rest, s.log = s.got ++ rest ∧ (∀ x ∈ s.got, key x ≤ s.cursor) ∧
    ∀ x ∈ rest, s.cursor < key x

variable {key} {bottom : κ} {s : Reader α κ}

/-- Nothing was read yet. -/
theorem inv_start {log : List α} (hinc : Increasing key log) (habove : ∀ x ∈ log, bottom < key x) :
    Inv key bottom ⟨log, bottom, []⟩ :=
  ⟨hinc, habove, .inl rfl, log, rfl, fun _ hx => absurd hx List.not_mem_nil, habove⟩

/-- What is above the cursor is what was not got. -/
theorem page_of_divided {rest : List α} (hlog : s.log = s.got ++ rest)
    (hgot : ∀ x ∈ s.got, key x ≤ s.cursor) (hrest : ∀ x ∈ rest, s.cursor < key x) (n : Nat) :
    page key s.cursor n s.log = rest.take n := by
  have hnone : s.got.filter (fun x => s.cursor < key x) = [] :=
    List.filter_eq_nil_iff.mpr fun x hx => by simpa using hgot x hx
  have hall : rest.filter (fun x => s.cursor < key x) = rest :=
    List.filter_eq_self.mpr fun x hx => decide_eq_true (hrest x hx)
  rw [page, hlog, List.filter_append, hnone, hall, List.nil_append]

theorem Inv.append {x : α} (hs : Inv key bottom s) (hbottom : bottom < key x)
    (hx : ∀ y ∈ s.log, key y < key x) : Inv key bottom (step key s (.append x)) := by
  obtain ⟨rest, hlog, hgot, hrest⟩ := hs.divided
  have hcursor : s.cursor < key x := by
    rcases hs.cursor with h | ⟨y, hy, h⟩
    · rw [h]
      exact hbottom
    · rw [h]
      exact hx y hy
  refine ⟨?_, fun y hy => ?_, ?_, rest ++ [x], ?_, hgot, fun y hy => ?_⟩
  · refine List.pairwise_append.mpr ⟨hs.increasing, List.pairwise_singleton _ _, ?_⟩
    intro y hy z hz
    rw [List.mem_singleton.mp hz]
    exact hx y hy
  · rcases List.mem_append.mp hy with hy | hy
    · exact hs.above y hy
    · rw [List.mem_singleton.mp hy]
      exact hbottom
  · exact hs.cursor.imp_right fun ⟨y, hy, h⟩ => ⟨y, List.mem_append_left _ hy, h⟩
  · show s.log ++ [x] = s.got ++ (rest ++ [x])
    rw [hlog, List.append_assoc]
  · rcases List.mem_append.mp hy with hy | hy
    · exact hrest y hy
    · rw [List.mem_singleton.mp hy]
      exact hcursor

theorem Inv.read (hs : Inv key bottom s) (n : Nat) : Inv key bottom (step key s (.read n)) := by
  obtain ⟨rest, hlog, hgot, hrest⟩ := hs.divided
  have hpage := page_of_divided hlog hgot hrest n
  have hsplit : s.log = (s.got ++ rest.take n) ++ rest.drop n := by
    rw [List.append_assoc, List.take_append_drop]
    exact hlog
  have hinc := hs.increasing
  rw [hsplit] at hinc
  obtain ⟨hread, -, hcross⟩ := List.pairwise_append.mp hinc
  obtain ⟨-, hnew, -⟩ := List.pairwise_append.mp hread
  rcases List.eq_nil_or_concat' (rest.take n) with hnil | ⟨init, last, hlast⟩
  · -- nothing new, and the cursor stays
    have hsame : step key s (.read n) = s := by
      simp only [step, hpage, hnil, List.getLast?_nil, Option.map_none, Option.getD_none,
        List.append_nil]
    rw [hsame]
    exact hs
  · have hin : last ∈ rest.take n := by rw [hlast]; exact List.mem_concat_self
    have hnext : (step key s (.read n)).cursor = key last := by
      simp only [step, hpage, hlast, List.getLast?_append, List.getLast?_singleton,
        Option.some_or, Option.map_some, Option.getD_some]
    refine ⟨hs.increasing, hs.above, .inr ⟨last, ?_, hnext⟩, rest.drop n, ?_, fun x hx => ?_, ?_⟩
    · show last ∈ s.log
      rw [hsplit]
      exact List.mem_append_left _ (List.mem_append_right _ hin)
    · show s.log = (s.got ++ page key s.cursor n s.log) ++ rest.drop n
      rw [hpage]
      exact hsplit
    · rw [hnext]
      have hx' : x ∈ s.got ++ rest.take n := hpage ▸ hx
      rcases List.mem_append.mp hx' with hx' | hx'
      · exact (hgot x hx').trans (hrest last (List.mem_of_mem_take hin)).le
      · rw [hlast] at hx' hnew
        rcases List.mem_append.mp hx' with hx' | hx'
        · exact ((List.pairwise_append.mp hnew).2.2 x hx' last (List.mem_singleton_self _)).le
        · rw [List.mem_singleton.mp hx']
    · intro x hx
      rw [hnext]
      exact hcross last (List.mem_append_right _ hin) x hx

theorem inv_step (s : Reader α κ) (e : Event α) (hs : Inv key bottom s)
    (he : Fresh key bottom s e) :
    Inv key bottom (step key s e) := by
  cases e with
  | append x => exact hs.append he.1 he.2
  | read n => exact hs.read n

/-- What was got so far is the beginning of the log. -/
theorem Inv.got_prefix (hs : Inv key bottom s) : s.got <+: s.log := by
  obtain ⟨rest, hlog, -⟩ := hs.divided
  exact ⟨rest, hlog.symm⟩

/-- **A read continues where the last one ended.** -/
theorem Inv.got_read (hs : Inv key bottom s) (n : Nat) :
    (step key s (.read n)).got = s.log.take (s.got.length + n) := by
  obtain ⟨rest, hlog, hgot, hrest⟩ := hs.divided
  show s.got ++ page key s.cursor n s.log = _
  rw [page_of_divided hlog hgot hrest, hlog, List.take_length_add_append]

end Reader

end Paging
