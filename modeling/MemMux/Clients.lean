/-
MemMux/Clients.lean

Several clients attached to one running task (`attach_begin`, `attach_end` and `attach_drain` of
`memmuxd/src/daemon.rs`, as `attach_loop` calls them).

All clients of a task share one flag and one buffer that every drain empties.  Each
client is compared with itself in the run that leaves the other clients out (`aloneOf`): the
comparison goes on for all clients at once (`Compared`), and `agree_step_iff` is the exact
condition under which one event leaves every client with what it would have alone.
-/
import MemMux.Session
import Mathlib.Data.Fintype.Basic

namespace MemMux

/-! ### Runs with several clients -/

/-- The output of one task, the clients attached to it, and what each has received. -/
structure Clients (ι : Type) where
  io : TaskIo
  attached : ι → Bool
  received : ι → List UInt8

inductive ClientEvent (ι : Type)
  /-- `attach_begin` -/
  | begin (i : ι)
  /-- a tick of the attach loop -/
  | tick (i : ι)
  /-- `attach_end` -/
  | detach (i : ι)
  /-- the provider prints -/
  | print (bytes : List UInt8)
  /-- the reader thread reads -/
  | read (n : Nat)
  /-- the daemon pumps -/
  | pump (nowMs : Nat)
  deriving DecidableEq, Repr

namespace Clients

variable {ι : Type} [DecidableEq ι]

/-- Before anyone attaches. -/
def start (io : TaskIo) : Clients ι := ⟨io, fun _ => false, fun _ => []⟩

/-- A client attaches, if it is not attached. -/
def attach (c : Clients ι) (i : ι) : Clients ι :=
  if c.attached i then c
  else { c with io := c.io.attachBegin, attached := Function.update c.attached i true }

/-- An attached client drains. -/
def drain (c : Clients ι) (i : ι) : Clients ι :=
  if c.attached i then
    { c with
        io := c.io.attachDrain.2
        received := Function.update c.received i (c.received i ++ c.io.attachDrain.1) }
  else c

/-- An attached client detaches. -/
def detach (c : Clients ι) (i : ι) : Clients ι :=
  if c.attached i then
    { c with io := c.io.attachEnd, attached := Function.update c.attached i false }
  else c

def step (c : Clients ι) : ClientEvent ι → Clients ι
  | .begin i => c.attach i
  | .tick i => c.drain i
  | .detach i => c.detach i
  | .print bytes => { c with io := c.io.act (.write bytes) }
  | .read n => { c with io := c.io.act (.read n) }
  | .pump nowMs => { c with io := c.io.pump nowMs [] }

/-- Whether an event is one of the task or of the client `i`. -/
def concerns (i : ι) : ClientEvent ι → Bool
  | .begin j | .tick j | .detach j => i = j
  | .print _ | .read _ | .pump _ => true

/-- The events of a run with `i` as the only client. -/
def aloneOf (i : ι) (es : List (ClientEvent ι)) : List (ClientEvent ι) := es.filter (concerns i)

end Clients

/-! ### What the clients share -/

namespace TaskIo

/-- The session of the runtime. -/
def session (io : TaskIo) : Option PtySession := io.runtime.map (·.session)

/-- What the next drain gives. -/
def tee (io : TaskIo) : List UInt8 := (io.runtime.map (·.attachBuf)).getD []

/-- Whether pumped output is teed. -/
def teeing (io : TaskIo) : Bool := io.runtime.any (·.attached)

/-- What the next pump takes out of the channel. -/
def channel (io : TaskIo) : List UInt8 := (io.session.map (·.outputRx.flatten)).getD []

variable (io : TaskIo)

@[simp] theorem attachBegin_session : io.attachBegin.session = io.session := by
  cases h : io.runtime <;> simp [attachBegin, session, h, RuntimeOutput.setAttached]

@[simp] theorem attachBegin_tee : io.attachBegin.tee = [] := by
  cases h : io.runtime <;> simp [attachBegin, tee, h, RuntimeOutput.setAttached]

@[simp] theorem attachEnd_session : io.attachEnd.session = io.session := by
  cases h : io.runtime <;> simp [attachEnd, session, h, RuntimeOutput.setAttached]

@[simp] theorem attachEnd_tee : io.attachEnd.tee = [] := by
  cases h : io.runtime <;> simp [attachEnd, tee, h, RuntimeOutput.setAttached]

@[simp] theorem attachDrain_fst : io.attachDrain.1 = io.tee := by
  cases h : io.runtime <;> simp [attachDrain, tee, h, RuntimeOutput.drainAttach]

@[simp] theorem attachDrain_session : io.attachDrain.2.session = io.session := by
  cases h : io.runtime <;> simp [attachDrain, session, h, RuntimeOutput.drainAttach]

@[simp] theorem attachDrain_tee : io.attachDrain.2.tee = [] := by
  cases h : io.runtime <;> simp [attachDrain, tee, h, RuntimeOutput.drainAttach]

@[simp] theorem attachDrain_teeing : io.attachDrain.2.teeing = io.teeing := by
  cases h : io.runtime <;> simp [attachDrain, teeing, h, RuntimeOutput.drainAttach]

variable (a : ProviderAct)

@[simp] theorem act_session : (io.act a).session = io.session.map (·.act a) := by
  cases h : io.runtime <;> simp [act, session, h, RuntimeOutput.act]

@[simp] theorem act_tee : (io.act a).tee = io.tee := by
  cases h : io.runtime <;> simp [act, tee, h, RuntimeOutput.act]

@[simp] theorem act_teeing : (io.act a).teeing = io.teeing := by
  cases h : io.runtime <;> simp [act, teeing, h, RuntimeOutput.act]

/-- The provider has not exited. -/
def Up : Prop := ∃ s, io.session = some s ∧ s.running = true

variable {io}

/-- A pump of a running task keeps the runtime. -/
theorem pump_runtime (h : io.Up) (nowMs : Nat) :
    ∃ rt c, io.runtime = some rt
      ∧ (io.pump nowMs []).runtime = some { rt.pump nowMs with capture := c } := by
  obtain ⟨s, hs, hrun⟩ := h
  obtain ⟨rt, hrt, rfl⟩ := Option.map_eq_some_iff.mp hs
  obtain ⟨c, hc⟩ := drain_runtime hrt nowMs
  refine ⟨rt, c, hrt, ?_⟩
  have hkeep : ({ rt.pump nowMs with capture := c } : RuntimeOutput).isRunning = true := by
    show (rt.pump nowMs).session.running = true
    rw [RuntimeOutput.pump_session]
    exact hrun
  show (drain nowMs io).retire.runtime = _
  rw [retire_runtime, hc, Option.filter_some, if_pos hkeep]

theorem pump_session (h : io.Up) (nowMs : Nat) :
    (io.pump nowMs []).session = io.session.map fun s => { s with outputRx := [] } := by
  obtain ⟨rt, c, hrt, hpump⟩ := pump_runtime h nowMs
  simp [session, hrt, hpump]

theorem pump_teeing (h : io.Up) (nowMs : Nat) : (io.pump nowMs []).teeing = io.teeing := by
  obtain ⟨rt, c, hrt, hpump⟩ := pump_runtime h nowMs
  simp [teeing, hrt, hpump]

theorem pump_tee (h : io.Up) (hon : io.teeing = true)
    (hfits : (io.tee ++ io.channel).length ≤ attachBufCap) (nowMs : Nat) :
    (io.pump nowMs []).tee = io.tee ++ io.channel := by
  obtain ⟨rt, c, hrt, hpump⟩ := pump_runtime h nowMs
  simp only [tee, teeing, channel, session, hrt, hpump, Option.map_some, Option.getD_some,
    Option.any_some] at hon hfits ⊢
  exact rt.pump_attachBuf nowMs hon hfits

theorem pump_tee_off (h : io.Up) (hoff : io.teeing = false) (nowMs : Nat) :
    (io.pump nowMs []).tee = io.tee := by
  obtain ⟨rt, c, hrt, hpump⟩ := pump_runtime h nowMs
  simp only [tee, teeing, hrt, hpump, Option.map_some, Option.getD_some, Option.any_some] at hoff ⊢
  exact rt.pump_untapped nowMs hoff

theorem Up.of_session {io' : TaskIo} (h : io.Up) (heq : io'.session = io.session) : io'.Up := by
  obtain ⟨s, hs, hrun⟩ := h
  exact ⟨s, heq.trans hs, hrun⟩

theorem Up.attachBegin_teeing (h : io.Up) : io.attachBegin.teeing = true := by
  obtain ⟨s, hs, -⟩ := h
  obtain ⟨rt, hrt, -⟩ := Option.map_eq_some_iff.mp hs
  simp [attachBegin, teeing, hrt, RuntimeOutput.setAttached]

end TaskIo

/-! ### Every client against itself alone -/

namespace Clients

variable {ι : Type} [DecidableEq ι]

/-- What a client has received and what its next drain gives it. -/
def sees (c : Clients ι) (i : ι) : List UInt8 × List UInt8 :=
  (c.received i, if c.attached i then c.io.tee else [])

/-- Less than 256 KiB come together between two drains. -/
def Fits (c : Clients ι) : ClientEvent ι → Prop
  | .pump _ => ∀ j, c.attached j = true → (c.io.tee ++ c.io.channel).length < attachBufCap
  | .begin _ | .tick _ | .detach _ | .print _ | .read _ => True

/-- **The event harms no other client.**  Attaching, draining and detaching empty the buffer that the
others share, and detaching also ends their tee. -/
def Harmless (c : Clients ι) : ClientEvent ι → Prop
  | .begin i => c.attached i = false → ∀ j, j ≠ i → c.attached j = true → c.io.tee = []
  | .tick i | .detach i => c.attached i = true → ∀ j, j ≠ i → c.attached j = true → c.io.tee = []
  | .pump _ => ∀ j, c.attached j = true → c.io.teeing = false → c.io.channel = []
  | .print _ | .read _ => True

instance [Fintype ι] (c : Clients ι) : (e : ClientEvent ι) → Decidable (Fits c e)
  | .pump _ => inferInstanceAs (Decidable (∀ _, _ → _))
  | .begin _ => isTrue trivial
  | .tick _ => isTrue trivial
  | .detach _ => isTrue trivial
  | .print _ => isTrue trivial
  | .read _ => isTrue trivial

instance [Fintype ι] (c : Clients ι) : (e : ClientEvent ι) → Decidable (Harmless c e)
  | .begin _ => inferInstanceAs (Decidable (_ → ∀ _, _ → _ → _))
  | .tick _ => inferInstanceAs (Decidable (_ → ∀ _, _ → _ → _))
  | .detach _ => inferInstanceAs (Decidable (_ → ∀ _, _ → _ → _))
  | .pump _ => inferInstanceAs (Decidable (∀ _, _ → _ → _))
  | .print _ => isTrue trivial
  | .read _ => isTrue trivial

/-- The run with all clients, and for each client the run without the others. -/
structure Compared (ι : Type) where
  joint : Clients ι
  alone : ι → Clients ι

/-- One event happens in all the runs it concerns. -/
def Compared.step (p : Compared ι) (e : ClientEvent ι) : Compared ι :=
  ⟨p.joint.step e, fun i => if concerns i e then (p.alone i).step e else p.alone i⟩

/-- The task does the same in all runs, and alone a client that is attached is served. -/
structure Linked (p : Compared ι) : Prop where
  up : p.joint.io.Up
  session : ∀ i, (p.alone i).io.session = p.joint.io.session
  attached : ∀ i, (p.alone i).attached i = p.joint.attached i
  served : ∀ i, p.joint.attached i = true → (p.alone i).io.teeing = true

/-- Every client sees what it would see alone. -/
def Agree (p : Compared ι) : Prop := ∀ i, p.joint.sees i = (p.alone i).sees i

/-! ### One event -/

/-- What an event does to the session; the clients do nothing to it. -/
def ClientEvent.onSession : ClientEvent ι → PtySession → PtySession
  | .print bytes, s => s.act (.write bytes)
  | .read n, s => s.act (.read n)
  | .pump _, s => { s with outputRx := [] }
  | .begin _, s | .tick _, s | .detach _, s => s

theorem session_attach (c : Clients ι) (i : ι) : (c.attach i).io.session = c.io.session := by
  unfold attach
  split_ifs
  · rfl
  · exact TaskIo.attachBegin_session _

theorem session_drain (c : Clients ι) (i : ι) : (c.drain i).io.session = c.io.session := by
  unfold drain
  split_ifs
  · exact TaskIo.attachDrain_session _
  · rfl

theorem session_detach (c : Clients ι) (i : ι) : (c.detach i).io.session = c.io.session := by
  unfold detach
  split_ifs
  · exact TaskIo.attachEnd_session _
  · rfl

theorem step_session {c : Clients ι} (h : c.io.Up) (e : ClientEvent ι) :
    (c.step e).io.session = c.io.session.map (ClientEvent.onSession e) := by
  have hid : ∀ o : Option PtySession, o = o.map fun s => s := fun o => by simp
  cases e with
  | begin i => exact (session_attach c i).trans (hid _)
  | tick i => exact (session_drain c i).trans (hid _)
  | detach i => exact (session_detach c i).trans (hid _)
  | print bytes => exact TaskIo.act_session _ _
  | read n => exact TaskIo.act_session _ _
  | pump nowMs => exact TaskIo.pump_session h nowMs

omit [DecidableEq ι] in
theorem running_onSession (e : ClientEvent ι) (s : PtySession) :
    (ClientEvent.onSession e s).running = s.running := by
  cases e with
  | print bytes =>
      unfold ClientEvent.onSession PtySession.act
      dsimp only
      split_ifs <;> rfl
  | read n =>
      unfold ClientEvent.onSession PtySession.act
      dsimp only
      split_ifs <;> rfl
  | begin i => rfl
  | tick i => rfl
  | detach i => rfl
  | pump nowMs => rfl

theorem attached_attach (c : Clients ι) (i j : ι) :
    (c.attach i).attached j = (decide (j = i) || c.attached j) := by
  unfold attach
  split_ifs with h
  · by_cases hj : j = i
    · rw [hj, h, Bool.or_true]
    · simp [hj]
  · by_cases hj : j = i
    · simp [hj]
    · simp [hj]

theorem attached_drain (c : Clients ι) (i j : ι) : (c.drain i).attached j = c.attached j := by
  unfold drain
  split_ifs <;> rfl

theorem attached_detach (c : Clients ι) (i j : ι) :
    (c.detach i).attached j = (!decide (j = i) && c.attached j) := by
  unfold detach
  split_ifs with h
  · by_cases hj : j = i
    · simp [hj]
    · simp [hj]
  · by_cases hj : j = i
    · simp [hj, h]
    · simp [hj]

/-- Only a client itself attaches and detaches it. -/
theorem step_attached {c d : Clients ι} {i : ι} (h : d.attached i = c.attached i)
    (e : ClientEvent ι) :
    (if concerns i e then d.step e else d).attached i = (c.step e).attached i := by
  cases e with
  | begin j =>
      show _ = (c.attach j).attached i
      rw [attached_attach]
      by_cases hj : i = j
      · simp [concerns, hj, step, attached_attach]
      · simp [concerns, hj, h]
  | detach j =>
      show _ = (c.detach j).attached i
      rw [attached_detach]
      by_cases hj : i = j
      · simp [concerns, hj, step, attached_detach]
      · simp [concerns, hj, h]
  | tick j =>
      show _ = (c.drain j).attached i
      rw [attached_drain]
      by_cases hj : i = j
      · subst hj
        simp [concerns, step, attached_drain, h]
      · simp [concerns, hj, h]
  | print bytes => exact h
  | read n => exact h
  | pump nowMs => exact h

/-- A client that is attached alone is served. -/
theorem step_teeing {c : Clients ι} {i : ι} (hup : c.io.Up)
    (hc : c.attached i = true → c.io.teeing = true) {e : ClientEvent ι} (he : concerns i e = true)
    (h : (c.step e).attached i = true) : (c.step e).io.teeing = true := by
  cases e with
  | begin j =>
      have hatt : (c.attach j).io.teeing = true := by
        unfold attach
        split_ifs with hj
        · have hij : i = j := of_decide_eq_true he
          exact hc (hij ▸ hj)
        · exact hup.attachBegin_teeing
      exact hatt
  | tick j =>
      have hteeing := hc ((attached_drain c j i).symm.trans h)
      show (c.drain j).io.teeing = true
      unfold drain
      split_ifs
      · exact (TaskIo.attachDrain_teeing _).trans hteeing
      · exact hteeing
  | detach j =>
      have hij : i = j := of_decide_eq_true he
      have hoff := (attached_detach c j i).symm.trans h
      rw [hij] at hoff
      simp at hoff
  | print bytes => exact (TaskIo.act_teeing _ _).trans (hc h)
  | read n => exact (TaskIo.act_teeing _ _).trans (hc h)
  | pump nowMs => exact (TaskIo.pump_teeing hup nowMs).trans (hc h)

/-- An event that is not one of the client's leaves the session as it is. -/
theorem onSession_of_not_concerns {i : ι} {e : ClientEvent ι} (h : concerns i e = false) :
    ClientEvent.onSession e = id := by
  cases e with
  | begin j => rfl
  | tick j => rfl
  | detach j => rfl
  | print bytes => cases h
  | read n => cases h
  | pump nowMs => cases h

theorem linked_step {p : Compared ι} (h : Linked p) (e : ClientEvent ι) : Linked (p.step e) := by
  have hup : ∀ i, (p.alone i).io.Up := fun i => h.up.of_session (h.session i)
  refine ⟨?_, fun i => ?_, fun i => step_attached (h.attached i) e, fun i hi => ?_⟩
  · obtain ⟨s, hs, hrun⟩ := h.up
    refine ⟨ClientEvent.onSession e s, ?_, (running_onSession e s).trans hrun⟩
    show (p.joint.step e).io.session = _
    rw [step_session h.up, hs]
    rfl
  · show (if concerns i e then (p.alone i).step e else p.alone i).io.session
      = (p.joint.step e).io.session
    rw [step_session h.up]
    cases he : concerns i e with
    | true => exact (step_session (hup i) e).trans (by rw [h.session i])
    | false =>
        rw [onSession_of_not_concerns he, Option.map_id]
        exact h.session i
  · have hatt : (if concerns i e then (p.alone i).step e else p.alone i).attached i = true :=
      (step_attached (h.attached i) e).trans hi
    have hserved := fun hi => h.served i ((h.attached i).symm.trans hi)
    show (if concerns i e then (p.alone i).step e else p.alone i).io.teeing = true
    cases he : concerns i e with
    | true =>
        rw [he] at hatt
        exact step_teeing (hup i) hserved he hatt
    | false =>
        rw [he] at hatt
        exact hserved hatt

/-- What a client does: nothing unless `guard` says that it may, and otherwise it empties the shared
buffer and leaves the other clients as they are. -/
structure Empties (i : ι) (guard : Bool) (f : Clients ι → Clients ι) : Prop where
  idle : ∀ c, c.attached i ≠ guard → f c = c
  tee : ∀ c, c.attached i = guard → (f c).io.tee = []
  others : ∀ c j, j ≠ i → (f c).attached j = c.attached j ∧ (f c).received j = c.received j
  own : ∀ c d, c.attached i = d.attached i → c.sees i = d.sees i → (f c).sees i = (f d).sees i

/-- **Emptying the shared buffer** leaves the others with what they would have alone exactly if
there was nothing in it for them. -/
theorem Empties.agree_iff {i : ι} {guard : Bool} {f : Clients ι → Clients ι} (hf : Empties i guard f)
    {p : Compared ι} (h : Linked p) (hagree : Agree p) :
    Agree ⟨f p.joint, fun j => if j = i then f (p.alone j) else p.alone j⟩
      ↔ (p.joint.attached i = guard → ∀ j, j ≠ i → p.joint.attached j = true →
          p.joint.io.tee = []) := by
  have hself : (f p.joint).sees i = (f (p.alone i)).sees i :=
    hf.own _ _ (h.attached i).symm (hagree i)
  -- the others miss what client `i` takes out of the tee
  have hother : ∀ j, j ≠ i → ((f p.joint).sees j = (p.alone j).sees j
      ↔ (p.joint.attached i = guard → p.joint.attached j = true → p.joint.io.tee = [])) := by
    intro j hj
    rw [← hagree j]
    by_cases hguard : p.joint.attached i = guard
    · unfold sees
      rw [(hf.others _ j hj).1, (hf.others _ j hj).2, hf.tee _ hguard, Prod.mk.injEq]
      cases hatt : p.joint.attached j with
      | false => simp
      | true => exact ⟨fun h _ _ => h.2.symm, fun h => ⟨rfl, (h hguard rfl).symm⟩⟩
    · rw [hf.idle _ hguard]
      exact ⟨fun _ hg => absurd hg hguard, fun _ => rfl⟩
  constructor
  · intro hall hguard j hj
    have hsees := hall j
    simp only [if_neg hj] at hsees
    exact (hother j hj).mp hsees hguard
  · intro hempty j
    show (f p.joint).sees j = (if j = i then f (p.alone j) else p.alone j).sees j
    by_cases hj : j = i
    · rw [if_pos hj, hj]
      exact hself
    · rw [if_neg hj]
      exact (hother j hj).mpr fun hguard => hempty hguard j hj

theorem empties_attach (i : ι) : Empties i false fun c => c.attach i where
  idle c hc := if_pos (by simpa using hc)
  tee c hc := by simp [attach, hc]
  others c j hj := ⟨by simp [attached_attach, hj], by unfold attach; split_ifs <;> rfl⟩
  own c d hatt hsees := by
    unfold attach
    cases hd : d.attached i with
    | true => simpa [hatt.trans hd] using hsees
    | false =>
        have hrec : c.received i = d.received i := congrArg Prod.fst hsees
        simp [hatt.trans hd, sees, hrec]

theorem empties_drain (i : ι) : Empties i true fun c => c.drain i where
  idle c hc := if_neg (by simpa using hc)
  tee c hc := by simp [drain, hc]
  others c j hj := ⟨attached_drain c i j, by unfold drain; split_ifs <;> simp [hj]⟩
  own c d hatt hsees := by
    unfold drain
    cases hd : d.attached i with
    | false => simpa [hatt.trans hd] using hsees
    | true =>
        simp only [sees, hatt.trans hd, hd, if_true, Prod.mk.injEq] at hsees
        simp [hatt.trans hd, hd, sees, hsees.1, hsees.2]

theorem empties_detach (i : ι) : Empties i true fun c => c.detach i where
  idle c hc := if_neg (by simpa using hc)
  tee c hc := by simp [detach, hc]
  others c j hj := ⟨by simp [attached_detach, hj], by unfold detach; split_ifs <;> rfl⟩
  own c d hatt hsees := by
    unfold detach
    cases hd : d.attached i with
    | false => simpa [hatt.trans hd] using hsees
    | true =>
        have hrec : c.received i = d.received i := congrArg Prod.fst hsees
        simp [hatt.trans hd, sees, hrec]

theorem compared_step_client {p : Compared ι} {i : ι} {e : ClientEvent ι} {f : Clients ι → Clients ι}
    (hstep : ∀ c : Clients ι, c.step e = f c) (he : ∀ j, concerns j e = decide (j = i)) :
    p.step e = ⟨f p.joint, fun j => if j = i then f (p.alone j) else p.alone j⟩ := by
  unfold Compared.step
  simp [hstep, he]

omit [DecidableEq ι] in
/-- The provider and its reader thread do not touch the buffer. -/
theorem agree_act {p : Compared ι} (hagree : Agree p) (a : ProviderAct) :
    Agree ⟨{ p.joint with io := p.joint.io.act a },
      fun i => { p.alone i with io := (p.alone i).io.act a }⟩ := by
  intro i
  have hbefore := hagree i
  simpa [sees] using hbefore

/-- **A pump tees for every client or for none.** -/
theorem agree_pump_iff {p : Compared ι} (h : Linked p) (hagree : Agree p)
    (hfits : ∀ i, (p.alone i).attached i = true →
      ((p.alone i).io.tee ++ (p.alone i).io.channel).length < attachBufCap) (nowMs : Nat) :
    Agree (p.step (.pump nowMs)) ↔ Harmless p.joint (.pump nowMs) := by
  refine forall_congr' fun i => ?_
  have hup : (p.alone i).io.Up := h.up.of_session (h.session i)
  have hchan : (p.alone i).io.channel = p.joint.io.channel := by
    rw [TaskIo.channel, TaskIo.channel, h.session i]
  have hbefore := hagree i
  show (p.joint.received i, if p.joint.attached i then (p.joint.io.pump nowMs []).tee else [])
      = ((p.alone i).received i,
          if (p.alone i).attached i then ((p.alone i).io.pump nowMs []).tee else []) ↔ _
  simp only [sees, h.attached i, Prod.mk.injEq] at hbefore ⊢
  cases hatt : p.joint.attached i with
  | false => simp [hbefore.1]
  | true =>
      -- what each client has not read yet fits, so that a tee loses nothing
      have hroom := hfits i ((h.attached i).trans hatt)
      rw [hatt] at hbefore
      simp only [if_true] at hbefore ⊢
      rw [TaskIo.pump_tee hup (h.served i hatt) (Nat.le_of_lt hroom), hchan, ← hbefore.2]
      rw [hchan, ← hbefore.2] at hroom
      cases hon : p.joint.io.teeing with
      | true =>
          rw [TaskIo.pump_tee h.up hon (Nat.le_of_lt hroom)]
          simp [hbefore.1]
      | false =>
          rw [TaskIo.pump_tee_off h.up hon]
          simp [hbefore.1]

/-- **One event leaves every client with what it would have alone exactly if it is harmless.** -/
theorem agree_step_iff {p : Compared ι} {e : ClientEvent ι} (h : Linked p)
    (hfits : ∀ i, Fits (p.alone i) e) (hagree : Agree p) :
    Agree (p.step e) ↔ Harmless p.joint e := by
  cases e with
  | begin i =>
      rw [compared_step_client (fun _ => rfl) fun _ => rfl]
      exact (empties_attach i).agree_iff h hagree
  | tick i =>
      rw [compared_step_client (fun _ => rfl) fun _ => rfl]
      exact (empties_drain i).agree_iff h hagree
  | detach i =>
      rw [compared_step_client (fun _ => rfl) fun _ => rfl]
      exact (empties_detach i).agree_iff h hagree
  | print bytes => exact iff_of_true (agree_act hagree (.write bytes)) trivial
  | read n => exact iff_of_true (agree_act hagree (.read n)) trivial
  | pump nowMs => exact agree_pump_iff h hagree (fun i hi => hfits i i hi) nowMs

/-! ### Whole runs -/

/-- The runs of all clients, and of each client alone. -/
def compare (io : TaskIo) : Compared ι := ⟨start io, fun _ => start io⟩

theorem run_joint (p : Compared ι) (es : List (ClientEvent ι)) :
    (Run.run Compared.step p es).joint = Run.run step p.joint es := by
  induction es generalizing p with
  | nil => rfl
  | cons e es ih => exact ih _

theorem run_alone (p : Compared ι) (es : List (ClientEvent ι)) (i : ι) :
    (Run.run Compared.step p es).alone i = Run.run step (p.alone i) (aloneOf i es) := by
  induction es generalizing p with
  | nil => rfl
  | cons e es ih =>
      rw [Run.run_cons, ih, aloneOf, aloneOf, List.filter_cons]
      unfold Compared.step
      dsimp only
      split_ifs <;> rfl

theorem allowed_joint (ok : Clients ι → ClientEvent ι → Prop) (p : Compared ι)
    (es : List (ClientEvent ι)) :
    Run.Allowed Compared.step (fun p e => ok p.joint e) p es ↔ Run.Allowed step ok p.joint es := by
  induction es generalizing p with
  | nil => exact Iff.rfl
  | cons e es ih => exact and_congr_right fun _ => ih _

theorem fits_of_not_concerns {c : Clients ι} {i : ι} {e : ClientEvent ι}
    (h : concerns i e = false) : Fits c e := by
  cases e with
  | pump nowMs => cases h
  | begin j => trivial
  | tick j => trivial
  | detach j => trivial
  | print bytes => trivial
  | read n => trivial

theorem allowed_alone (p : Compared ι) {es : List (ClientEvent ι)}
    (h : ∀ i, Run.Allowed step Fits (p.alone i) (aloneOf i es)) :
    Run.Allowed Compared.step (fun p e => ∀ i, Fits (p.alone i) e) p es := by
  induction es generalizing p with
  | nil => trivial
  | cons e es ih =>
      have hcons : ∀ i, Fits (p.alone i) e
          ∧ Run.Allowed step Fits ((p.step e).alone i) (aloneOf i es) := by
        intro i
        have hi := h i
        rw [aloneOf, List.filter_cons] at hi
        cases he : concerns i e with
        | true =>
            simp only [he, if_true] at hi
            refine ⟨hi.1, ?_⟩
            simpa [Compared.step, he, aloneOf] using hi.2
        | false =>
            refine ⟨fits_of_not_concerns he, ?_⟩
            simpa [Compared.step, he, aloneOf] using hi
      exact ⟨fun i => (hcons i).1, ih _ fun i => (hcons i).2⟩

/-- **Attached clients get what they would get alone exactly if they do each other no harm.**  A task
runs; alone, no client lets 256 KiB come together between two of its drains.  At every point
of the run every client has received, and is about to be given, what it would be alone, exactly
if no client attaches, drains or detaches while bytes for another one wait in the buffer, and
nothing is pumped while a client is attached and the tee is off. -/
theorem clients_agree_iff {io : TaskIo} (hup : io.Up) {es : List (ClientEvent ι)}
    (hfits : ∀ i, Run.Allowed step Fits (start io) (aloneOf i es)) :
    (∀ p, p <+: es → ∀ i,
        (Run.run step (start io) p).sees i = (Run.run step (start io) (aloneOf i p)).sees i)
      ↔ Run.Allowed step Harmless (start io) es := by
  have hlinked : Linked (compare io : Compared ι) :=
    ⟨hup, fun _ => rfl, fun _ => rfl, fun _ h => (nomatch h)⟩
  have key := Run.forall_prefix_iff_of_allowed (fun _ e h _ => linked_step h e)
    (fun _ _ h hmay hagree => agree_step_iff h hmay hagree) hlinked (fun _ => rfl)
    (allowed_alone (compare io) hfits)
  rw [allowed_joint Harmless] at key
  rw [← show (compare io : Compared ι).joint = start io from rfl, ← key]
  refine forall_congr' fun p => imp_congr_right fun _ => forall_congr' fun i => ?_
  rw [run_joint, run_alone]
  rfl

/-- A client that is drained before another one comes, and one that is served after it has left. -/
theorem clients_agree_iff_in_turn :
    (Run.run step (start (.launched 0)) [.begin true, .print [104], .read 8192, .pump 1, .tick true,
        .begin false, .detach true, .detach false, .begin false, .print [105], .read 8192, .pump 2,
        .tick false]).sees false = ([105], []) :=
  ((clients_agree_iff ⟨_, rfl, rfl⟩ (by decide +kernel)).mpr (by decide +kernel) _
    (List.prefix_refl _) false).trans (by decide +kernel)

/-- Two clients, and one byte: the first drain takes it, and the second client, which alone would
have got it, never does. -/
theorem second_client_starved :
    let es : List (ClientEvent Bool) :=
      [.begin true, .begin false, .print [104], .read 8192, .pump 1, .tick true, .tick false]
    (∀ i, Run.Allowed step Fits (start (.launched 0)) (aloneOf i es))
      ∧ (Run.run step (start (.launched 0)) es).received false = []
      ∧ (Run.run step (start (.launched 0)) (aloneOf false es)).received false = [104] := by
  decide +kernel

end Clients

end MemMux
