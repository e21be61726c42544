/-
MemMux/Ledger.lean

The admission ledger, abstractly: which tasks are registered and in which state, which have a
live provider, and which reservations are held against the agent budget.

`Move` lists the ways an operation may change these three maps for one task.  Two of its
constructors carry the questions the ledger is about.  `launch` takes a reservation, and asks
`room` for it; what `room` promises is a parameter, since not every launch of the daemon checks
the budget.  `rollback` drops a provider and keeps its reservation; it is there only if
`rolls` says so.

Main results, each a fact about one move lifted to sequences of moves:

* `Moves.live`: a task with a live provider is registered, and `Active` or `Queued`;
* `Moves.exact`: without rollbacks, reservations are held exactly for the live providers;
* `Moves.total_le`: when every launch had room, the reservations stay within the budget.
-/
import Mathlib.Logic.Relation
import MemMux.World

namespace MemMux

open Relation

/-- The part of the daemon's state that admission is about. -/
structure Ledger where
  envelope : ResourceEnvelope
  tasks : KeyMap String Task
  runtimes : KeyMap String RuntimeInstance
  reservations : KeyMap String Reservation

/-- The ledger of a daemon. -/
def World.ledger (w : World) : Ledger :=
  ⟨w.mem.envelope, w.mem.tasks, w.mem.runtimes, w.mem.reservations⟩

theorem World.ledger_eq {w w' : World} (h : w'.mem = w.mem) : w'.ledger = w.ledger := by
  unfold ledger
  rw [h]

/-- All that an admission pass reads and writes: the ledger, the pending starts and the reasons
given for them. -/
structure Books where
  ledger : Ledger
  pendingAdmission : List String
  queuedReasons : KeyMap String String

/-- The books of a daemon. -/
def World.books (w : World) : Books := ⟨w.ledger, w.mem.pendingAdmission, w.mem.queuedReasons⟩

theorem World.books_eq {w w' : World} (h : w'.mem = w.mem) : w'.books = w.books := by
  unfold books ledger
  rw [h]

theorem World.ledger_of_books {w w' : World} (h : w'.books = w.books) : w'.ledger = w.ledger :=
  congrArg Books.ledger h

namespace Ledger

/-- The budget of the envelope. -/
def budget (L : Ledger) : Nat := L.envelope.agentBudgetBytes

/-- The sum of the peaks of all reservations. -/
def total (L : Ledger) : Nat := KeyMap.sumBy Reservation.peakBytes L.reservations

/-- What the reservations would sum to with one of class `cls` for `id`. -/
def totalWith (reservations : KeyMap String Reservation) (id : String) (cls : ResourceClass) :
    Nat :=
  (classReservation cls).peakBytes + KeyMap.sumBy Reservation.peakBytes (reservations.erase id)

/-- A running task is in one of the two states a live provider can have. -/
def Running (s : TaskState) : Prop := s = .active ∨ s = .queued

instance (s : TaskState) : Decidable (Running s) :=
  inferInstanceAs (Decidable (s = .active ∨ s = .queued))

/-- Every live provider belongs to a registered task that is `Active` or `Queued`. -/
def Live (L : Ledger) : Prop :=
  ∀ id, id ∈ L.runtimes → ∃ t, L.tasks.lookup id = some t ∧ Running t.state

/-- Reservations are held exactly for the live providers. -/
def Exact (L : Ledger) : Prop := ∀ id, id ∈ L.reservations ↔ id ∈ L.runtimes

/-! ### Moves -/

/-- Who may take a reservation. -/
abbrev Room := KeyMap String Reservation → String → ResourceClass → Prop

/-- One change of the ledger, about the task `id`. -/
inductive Move (room : Room) (rolls : Prop) (L L' : Ledger) : Prop
  /-- a task without a live provider is registered, changed or forgotten -/
  | idle (id : String) (henv : L'.envelope = L.envelope)
      (htasks : KeyMap.Off id L.tasks L'.tasks) (hrun : L'.runtimes = L.runtimes)
      (hres : L'.reservations = L.reservations) (hidle : id ∉ L.runtimes)
  /-- a task is registered as `Queued` -/
  | register (id : String) (t : Task) (henv : L'.envelope = L.envelope)
      (htasks : KeyMap.Off id L.tasks L'.tasks) (ht : L'.tasks.lookup id = some t)
      (hstate : t.state = .queued) (hrun : L'.runtimes = L.runtimes)
      (hres : L'.reservations = L.reservations)
  /-- a provider is launched and its class reserved -/
  | launch (id : String) (t : Task) (rt : RuntimeInstance) (cls : ResourceClass)
      (henv : L'.envelope = L.envelope) (htasks : KeyMap.Off id L.tasks L'.tasks)
      (ht : L'.tasks.lookup id = some t) (hstate : t.state = .active)
      (hrun : L'.runtimes = L.runtimes.insert id rt)
      (hres : L'.reservations = L.reservations.insert id (classReservation cls))
      (hroom : room L.reservations id cls)
  /-- a provider is gone and its reservation released -/
  | retire (id : String) (henv : L'.envelope = L.envelope)
      (htasks : KeyMap.Off id L.tasks L'.tasks) (hrun : L'.runtimes = L.runtimes.erase id)
      (hres : L'.reservations = L.reservations.erase id)
  /-- a live provider is replaced under its reservation -/
  | relaunch (id : String) (t : Task) (rt : RuntimeInstance) (henv : L'.envelope = L.envelope)
      (htasks : KeyMap.Off id L.tasks L'.tasks) (ht : L'.tasks.lookup id = some t)
      (hstate : Running t.state) (hlive : id ∈ L.runtimes)
      (hrun : L'.runtimes = (L.runtimes.erase id).insert id rt)
      (hres : L'.reservations = L.reservations)
  /-- a provider is gone, its reservation is not -/
  | rollback (id : String) (henv : L'.envelope = L.envelope)
      (htasks : KeyMap.Off id L.tasks L'.tasks) (hrun : L'.runtimes = L.runtimes.erase id)
      (hres : L'.reservations = L.reservations) (hroll : rolls)

/-- A sequence of moves. -/
abbrev Moves (room : Room) (rolls : Prop) : Ledger → Ledger → Prop :=
  ReflTransGen (Move room rolls)

variable {room : Room} {rolls : Prop} {L L' : Ledger}

theorem Move.moves (h : Move room rolls L L') : Moves room rolls L L' := .single h

theorem moves_of_eq (h : L' = L) : Moves room rolls L L' := by
  subst h
  exact .refl

/-! ### A launch and its failure -/

/-- An attempt to bring `id` up in class `cls`: the provider is up and its class reserved, or
nothing but the task has changed. -/
def Attempt (id : String) (cls : ResourceClass) (L L' : Ledger) : Prop :=
  L'.envelope = L.envelope ∧ KeyMap.Off id L.tasks L'.tasks ∧
    ((∃ t rt, L'.tasks.lookup id = some t ∧ t.state = .active ∧
        L'.runtimes = L.runtimes.insert id rt ∧
        L'.reservations = L.reservations.insert id (classReservation cls)) ∨
      (L'.runtimes = L.runtimes ∧ L'.reservations = L.reservations))

theorem Attempt.refl (id : String) (cls : ResourceClass) (L : Ledger) : Attempt id cls L L :=
  ⟨rfl, .refl _ _, Or.inr ⟨rfl, rfl⟩⟩

/-- An attempt takes its reservation only if it brings the provider up. -/
theorem Attempt.moves {id : String} {cls : ResourceClass} (h : Attempt id cls L L')
    (hidle : id ∉ L.runtimes) (hroom : id ∈ L'.runtimes → room L.reservations id cls) :
    Moves room rolls L L' := by
  obtain ⟨henv, hoff, ⟨t, rt, ht, hs, hrun, hres⟩ | ⟨hrun, hres⟩⟩ := h
  · refine Move.moves (.launch id t rt cls henv hoff ht hs hrun hres (hroom ?_))
    rw [hrun, KeyMap.mem_insert_iff]
    exact Or.inl rfl
  · exact Move.moves (.idle id henv hoff hrun hres hidle)

/-! ### The envelope never changes -/

theorem Move.envelope_eq (h : Move room rolls L L') : L'.envelope = L.envelope := by
  cases h <;> assumption

theorem Moves.envelope_eq (h : Moves room rolls L L') : L'.envelope = L.envelope := by
  induction h with
  | refl => rfl
  | tail _ hm ih => exact hm.envelope_eq.trans ih

/-! ### Live providers belong to running tasks -/

theorem Move.live (h : Move room rolls L L') (hl : Live L) : Live L' := by
  -- a provider other than the one moved keeps its task
  have keep : ∀ {id j}, KeyMap.Off id L.tasks L'.tasks → j ≠ id → j ∈ L.runtimes →
      ∃ t, L'.tasks.lookup j = some t ∧ Running t.state := by
    intro id j hoff hne hj
    obtain ⟨t, ht, hs⟩ := hl j hj
    exact ⟨t, (hoff j hne).trans ht, hs⟩
  intro j hj
  cases h with
  | idle id _ htasks hrun _ hidle =>
      rw [hrun] at hj
      exact keep htasks (fun e => hidle (e ▸ hj)) hj
  | register id t _ htasks ht hstate hrun _ =>
      rw [hrun] at hj
      by_cases hid : j = id
      · subst hid
        exact ⟨t, ht, Or.inr hstate⟩
      · exact keep htasks hid hj
  | launch id t rt _ _ htasks ht hstate hrun _ _ =>
      rw [hrun, KeyMap.mem_insert_iff] at hj
      by_cases hid : j = id
      · subst hid
        exact ⟨t, ht, Or.inl hstate⟩
      · exact keep htasks hid (hj.resolve_left hid)
  | retire id _ htasks hrun _ =>
      rw [hrun, KeyMap.mem_erase_iff] at hj
      exact keep htasks hj.1 hj.2
  | relaunch id t rt _ htasks ht hstate _ hrun _ =>
      rw [hrun, KeyMap.mem_insert_iff, KeyMap.mem_erase_iff] at hj
      by_cases hid : j = id
      · subst hid
        exact ⟨t, ht, hstate⟩
      · exact keep htasks hid (hj.resolve_left hid).2
  | rollback id _ htasks hrun _ _ =>
      rw [hrun, KeyMap.mem_erase_iff] at hj
      exact keep htasks hj.1 hj.2

theorem Moves.live (h : Moves room rolls L L') (hl : Live L) : Live L' := by
  induction h with
  | refl => exact hl
  | tail _ hm ih => exact hm.live ih

/-! ### Reservations and live providers -/

theorem Move.exact (h : Move room False L L') (he : Exact L) : Exact L' := by
  intro j
  cases h with
  | idle id _ _ hrun hres _ => rw [hrun, hres, he]
  | register id t _ _ _ _ hrun hres => rw [hrun, hres, he]
  | launch id t rt cls _ _ _ _ hrun hres _ =>
      rw [hrun, hres, KeyMap.mem_insert_iff, KeyMap.mem_insert_iff, he]
  | retire id _ _ hrun hres =>
      rw [hrun, hres, KeyMap.mem_erase_iff, KeyMap.mem_erase_iff, he]
  | relaunch id t rt _ _ _ _ hlive hrun hres =>
      rw [hrun, hres, KeyMap.mem_insert_iff, KeyMap.mem_erase_iff, he]
      by_cases hid : j = id
      · subst hid
        simp [hlive]
      · simp [hid]
  | rollback _ _ _ _ _ hroll => exact hroll.elim

/-- **Without rollbacks a reservation is held exactly while its provider lives.** -/
theorem Moves.exact (h : Moves room False L L') (he : Exact L) : Exact L' := by
  induction h with
  | refl => exact he
  | tail _ hm ih => exact hm.exact ih

/-! ### The budget -/

/-- A launch fits when the other reservations leave room for its class. -/
def Fits (budget : Nat) : Room := fun reservations id cls => totalWith reservations id cls ≤ budget

theorem total_insert (L : Ledger) (id : String) (cls : ResourceClass) :
    KeyMap.sumBy Reservation.peakBytes (L.reservations.insert id (classReservation cls))
      = totalWith L.reservations id cls :=
  KeyMap.sumBy_insert _ _ _ _

/-- An attempt that brings the provider up leaves exactly the sum it asked for. -/
theorem Attempt.total_eq {id : String} {cls : ResourceClass} (h : Attempt id cls L L')
    (hidle : id ∉ L.runtimes) (hup : id ∈ L'.runtimes) :
    L'.total = totalWith L.reservations id cls := by
  obtain ⟨-, -, ⟨t, rt, -, -, -, hres⟩ | ⟨hrun, -⟩⟩ := h
  · unfold total
    rw [hres, total_insert]
  · rw [hrun] at hup
    exact absurd hup hidle

theorem Move.total_le {b : Nat} (h : Move (Fits b) rolls L L') (ht : L.total ≤ b) :
    L'.total ≤ b := by
  have keep : L'.reservations = L.reservations → L'.total ≤ b := by
    intro hres
    unfold total
    rw [hres]
    exact ht
  cases h with
  | idle _ _ _ _ hres _ => exact keep hres
  | register _ _ _ _ _ _ _ hres => exact keep hres
  | launch id t rt cls _ _ _ _ _ hres hroom =>
      unfold total
      rw [hres, total_insert]
      exact hroom
  | retire id _ _ _ hres =>
      unfold total
      rw [hres]
      exact le_trans (KeyMap.sumBy_erase_le _ _ _) ht
  | relaunch _ _ _ _ _ _ _ _ _ hres => exact keep hres
  | rollback _ _ _ _ hres _ => exact keep hres

/-- **When every launch had room, the reservations stay within the budget.** -/
theorem Moves.total_le {b : Nat} (h : Moves (Fits b) rolls L L') (ht : L.total ≤ b) :
    L'.total ≤ b := by
  induction h with
  | refl => exact ht
  | tail _ hm ih => exact hm.total_le ih

/-! ### Weakening -/

theorem Move.mono {room' : Room} {rolls' : Prop} (hroom : ∀ R id cls, room R id cls → room' R id cls)
    (hrolls : rolls → rolls') (h : Move room rolls L L') : Move room' rolls' L L' := by
  cases h with
  | idle id henv htasks hrun hres hidle => exact .idle id henv htasks hrun hres hidle
  | register id t henv htasks ht hstate hrun hres =>
      exact .register id t henv htasks ht hstate hrun hres
  | launch id t rt cls henv htasks ht hstate hrun hres hr =>
      exact .launch id t rt cls henv htasks ht hstate hrun hres (hroom _ _ _ hr)
  | retire id henv htasks hrun hres => exact .retire id henv htasks hrun hres
  | relaunch id t rt henv htasks ht hstate hlive hrun hres =>
      exact .relaunch id t rt henv htasks ht hstate hlive hrun hres
  | rollback id henv htasks hrun hres hr => exact .rollback id henv htasks hrun hres (hrolls hr)

end Ledger

end MemMux
