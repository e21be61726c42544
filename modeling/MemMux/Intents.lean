/-
MemMux/Intents.lean

What happens to a start that could not happen at once.

`start_task` registers the intent and runs an admission pass; every later pump runs another.  As
long as nothing launches, restarts or terminates the task, it stays queued and pending, and what
blocks it after a pass is either the pressure or its own size.

Main result:

* `start_intents_kept`: no accepted start is lost, a reason is recorded for pending starts only,
  and a pass whose launches succeed leaves no start behind that it could have made.
-/
import MemMux.Capacity
import MemMux.Residency

namespace MemMux

open Relation Seat

variable {codec : CheckpointCodec} {h : Host}

/-! ### Accepted starts -/

/-- The event neither launches the task nor is its operator's restart or end. -/
def Untouched (codec : CheckpointCodec) (id : String) (w : World) : Event → Prop
  | .op h i => ¬ Leaves codec h i w id
  | .reboot _ | .crash _ _ _ _ => True

instance (i : Input) (w : World) (id : String) : Decidable (Leaves codec h i w id) :=
  inferInstanceAs (Decidable ((∃ l ∈ launchesOf codec h i w, l.id = id) ∨
    i = .request (.restartTask id) ∨ i = .request (.terminateTask id)))

instance (id : String) (w : World) (e : Event) : Decidable (Untouched codec id w e) :=
  match e with
  | .op h i => inferInstanceAs (Decidable (¬ Leaves codec h i w id))
  | .reboot _ => inferInstanceAs (Decidable True)
  | .crash _ _ _ _ => inferInstanceAs (Decidable True)

/-- During the events `es` from `w` a start of the queued task `id` was accepted, and from that
request on nothing launched, restarted or terminated the task. -/
def Intended (codec : CheckpointCodec) (id : String) (w : World) (es : List Event) : Prop :=
  ∃ before h after, es = before ++ .op h (.request (.startTask id)) :: after ∧
    (∃ t, (runs codec w before).mem.tasks.lookup id = some t ∧ t.state = .queued) ∧
    Run.Allowed (next codec) (Untouched codec id) (runs codec w before)
      (.op h (.request (.startTask id)) :: after)

theorem Seat.Inv.startable {s : Seat} (hi : s.Inv) (hq : s.state = some .queued) :
    s.Startable := by
  refine ⟨hq, Bool.eq_false_iff.mpr fun hlive => ?_⟩
  exact hi.not_queued hlive hq

/-- **An accepted start waits** when the request is over, unless it was launched. -/
theorem waits_startTask {id : String} {w : World} (hw : Seated w) (hs : (w.mem.seat id).Startable)
    (hl : ∀ l ∈ startLaunches h id w, l.id ≠ id) :
    ((startTask h id w).1.mem.seat id).Waits := by
  obtain ⟨-, -, hn⟩ | ⟨-, hrun, hlaunches⟩ := startTask_cases (h := h) id w
  · exact absurd hs hn
  · rw [hlaunches] at hl
    have hwant : Moved (· ≠ id) w (wantStart id w.ask) := wantStart_moved (w := w.ask) hs
    have hseated := hwant.seated hw
    have hpass : Moved (· ≠ id) (wantStart id w.ask)
        (tryAdmitPending h (h.now w.calls) (wantStart id w.ask)) :=
      tryAdmitPending_moved hseated hl
    have hwaits : ((wantStart id w.ask).mem.seat id).Waits := by
      rw [seat_wantStart]
      exact ⟨hs, rfl⟩
    have hsteps : Steps False _ _ := (hpass id).mono fun hne => hne rfl
    rw [hrun]
    exact hsteps.waits (hseated id) hwaits

theorem waits_next {id : String} (w : World) (e : Event)
    (hw : Seated w ∧ (w.mem.seat id).Waits) (he : Serves w e ∧ Untouched codec id w e) :
    Seated (next codec w e) ∧ ((next codec w e).mem.seat id).Waits := by
  refine ⟨seated_next w e hw.1 he.1, ?_⟩
  cases e with
  | op h i =>
      have hmoved : Moved (Leaves codec h i w) w (perform codec h i w) := perform_moved hw.1 he.1
      have hsteps : Steps False _ _ := (hmoved id).mono he.2
      exact hsteps.waits (hw.1 id) hw.2
  | reboot h => exact he.1.elim
  | crash h i k h' => exact he.1.elim

/-- **An accepted start waits** until something takes it away. -/
theorem Intended.waits {id : String} {w : World} {es : List Event}
    (hin : Intended codec id w es) (hw : Seated w) (hes : Run.Allowed (next codec) Serves w es) :
    ((runs codec w es).mem.seat id).Waits := by
  obtain ⟨before, h, after, rfl, ⟨t, ht, hq⟩, hunt⟩ := hin
  dsimp only [runs] at ht hunt
  obtain ⟨hbefore, hrest⟩ := Run.allowed_append.mp hes
  have hseated : Seated (Run.run (next codec) w before) := Run.invariant seated_next hw hbefore
  obtain ⟨⟨hserves, huntouched⟩, hafter⟩ := hrest.and hunt
  rw [runs, Run.run_append, Run.run_cons]
  generalize Run.run (next codec) w before = w₀ at ht hseated hserves huntouched hafter ⊢
  have hs : (w₀.mem.seat id).Startable := by
    refine (hseated id).startable ?_
    rw [seat_lookup ht, hq]
  have hstart : ((next codec w₀ (.op h (.request (.startTask id)))).mem.seat id).Waits :=
    waits_startTask (w := w₀.begin h) hseated hs fun l hl he => huntouched (Or.inl ⟨l, hl, he⟩)
  have hboth := Run.invariant waits_next ⟨seated_next w₀ _ hseated hserves, hstart⟩ hafter
  exact hboth.2

/-! ### Passes -/

/-- The admission pass an operation ends with: its time, and the world it runs in. -/
def passOf (codec : CheckpointCodec) (h : Host) (i : Input) (w : World) :
    Option (UInt64 × World) :=
  match i with
  | .tick => some (h.now 0, passWorld codec h (h.now 0) (w.begin h).ask)
  | .request (.startTask id) =>
      if (w.mem.seat id).state = some .queued ∧ (w.mem.seat id).live = false then
        some (h.now 0, wantStart id (w.begin h).ask)
      else none
  | .request _ => none

/-- An operation ends with its pass, which finds the seats in order. -/
theorem perform_passOf {i : Input} {w v : World} {now : UInt64} (hw : Seated w)
    (hp : passOf codec h i w = some (now, v)) :
    perform codec h i w = tryAdmitPending h now v ∧ Seated v := by
  unfold passOf at hp
  split at hp
  · obtain ⟨rfl, rfl⟩ := Prod.mk.inj (Option.some.inj hp)
    have hbefore : Moved (fun _ => True) (w.begin h).ask
        (passWorld codec h (h.now 0) (w.begin h).ask) := passWorld_moved hw
    exact ⟨rfl, hbefore.seated hw⟩
  · next id =>
    split at hp
    · next hs =>
      obtain ⟨rfl, rfl⟩ := Prod.mk.inj (Option.some.inj hp)
      have hwant : Moved (fun _ => True) (w.begin h) (wantStart id (w.begin h).ask) :=
        wantStart_moved (w := (w.begin h).ask) hs
      refine ⟨?_, hwant.seated hw⟩
      obtain ⟨-, -, hn⟩ | ⟨-, hrun, -⟩ := startTask_cases (h := h) id (w.begin h)
      · exact absurd hs hn
      · exact hrun
    · cases hp
  · cases hp

/-- Why a start has to wait: it is held back under pressure, or it is larger than what the ledger
leaves of the budget, as the daemon computes it and as it is. -/
def Blocked (w : World) (t : Task) : Prop :=
  (t.spec.priority = .low ∧ PressureStage.high.rank ≤ w.mem.pressureStage.rank) ∨
    (headroom w < (classReservation t.spec.resourceClass).peakBytes ∧
      (w.mem.envelope.agentBudgetBytes : Int) - w.ledger.total
        < (classReservation t.spec.resourceClass).peakBytes)

/-- **A pass whose launches all succeed leaves blocked starts only.** -/
theorem blocked_of_pending {now : UInt64} {w : World} (hw : Seated w)
    (hbudget : (tryAdmitPending h now w).mem.envelope.agentBudgetBytes < 2 ^ 63)
    (hok : ∀ l ∈ passLaunches h now w, launchSucceeds h l.id l.task now l.world) :
    ∀ id ∈ (tryAdmitPending h now w).mem.pendingAdmission,
      ∃ t, (tryAdmitPending h now w).mem.tasks.lookup id = some t ∧ t.state = .queued ∧
        Blocked (tryAdmitPending h now w) t := by
  intro id hid
  obtain ⟨t, ht, hq, hheld | hsize⟩ := pass_maximal hw hok id hid
  · obtain ⟨hlow, hstage⟩ := Bool.and_eq_true_iff.mp hheld
    exact ⟨t, ht, hq, Or.inl ⟨of_decide_eq_true hlow, of_decide_eq_true hstage⟩⟩
  · exact ⟨t, ht, hq, Or.inr ⟨hsize, ResourceEnvelope.lt_of_headroomBytes_lt _ hbudget hsize⟩⟩

/-! ### One lifetime -/

/-- The envelope never changes. -/
theorem envelope_runs (h : Host) (envelope : ResourceEnvelope) (root : Path)
    (disk : Journal Disk Effect) (es : List Event) :
    (runs codec (boot h envelope root disk) es).mem.envelope = envelope :=
  (Run.always live_next ⟨live_boot h envelope root disk, rfl⟩ es).2

/-- **No start is lost, and no headroom is left idle.**  In every state of a daemon's lifetime,
(a) a task whose start was accepted and that nothing has touched since is queued and pending;
(b) only pending starts have a reason recorded; (c) after a next operation that ends with a pass
whose launches all succeed, every pending task is blocked. -/
theorem start_intents_kept (h₀ : Host) (envelope : ResourceEnvelope) (root : Path)
    (disk : Journal Disk Effect) (hbudget : envelope.agentBudgetBytes < 2 ^ 63) (es : List Event)
    (hes : Run.Allowed (next codec) Serves (boot h₀ envelope root disk) es) :
    let w := runs codec (boot h₀ envelope root disk) es
    (∀ id, Intended codec id (boot h₀ envelope root disk) es →
      (∃ t, w.mem.tasks.lookup id = some t ∧ t.state = .queued) ∧ id ∈ w.mem.pendingAdmission) ∧
    (∀ id ∈ w.mem.queuedReasons, id ∈ w.mem.pendingAdmission) ∧
    (∀ h i now v, passOf codec h i w = some (now, v) →
      (∀ l ∈ passLaunches h now v, launchSucceeds h l.id l.task now l.world) →
      ∀ id ∈ (perform codec h i w).mem.pendingAdmission,
        ∃ t, (perform codec h i w).mem.tasks.lookup id = some t ∧
          t.state = .queued ∧ Blocked (perform codec h i w) t) := by
  have hboot := seated_boot h₀ envelope root disk
  have hseated := seated_runs h₀ envelope root disk hes
  refine ⟨fun id hin => ?_, fun id hid => ?_, fun h i now v hp hok => ?_⟩
  · obtain ⟨⟨hq, -⟩, hpending⟩ := hin.waits hboot hes
    exact ⟨Option.map_eq_some_iff.mp hq, seat_pending_iff.mp hpending⟩
  · exact seat_pending_iff.mp ((hseated id).reasoned (seat_reasoned_iff.mpr hid))
  · obtain ⟨hrun, hv⟩ := perform_passOf hseated hp
    have henv := @envelope_runs codec h₀ envelope root disk (es ++ [.op h i])
    rw [runs, Run.run_append, Run.run_cons, Run.run_nil, next, hrun] at henv
    rw [hrun]
    exact blocked_of_pending hv (henv ▸ hbudget) hok

/-- A task is created and started, and does not fit; then a tick passes. -/
def createAndWait : List Event :=
  [.op steadyHost (.request (.createTask fixLoginRequest)),
    .op steadyHost (.request (.startTask fixLogin)), .op steadyHost .tick]

theorem start_intents_kept_waiting :
    let w := runs serdeJson (boot steadyHost smallHost "/memmux" (freshDisk ["/repo"])) createAndWait
    (∃ t, w.mem.tasks.lookup fixLogin = some t ∧ t.state = .queued) ∧
      fixLogin ∈ w.mem.pendingAdmission :=
  (start_intents_kept steadyHost smallHost "/memmux" (freshDisk ["/repo"]) (by decide) createAndWait
    (by decide +kernel)).1 fixLogin
    ⟨[.op steadyHost (.request (.createTask fixLoginRequest))], steadyHost, [.op steadyHost .tick],
      rfl, Option.map_eq_some_iff.mp (by decide +kernel), by decide +kernel⟩

end MemMux
