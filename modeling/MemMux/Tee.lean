/-
MemMux/Tee.lean

One attached client (`attach_loop` and the tick branch of `attach_stream` in
`memmuxd/src/server.rs`, over the output side of the daemon).

A run interleaves what the provider and its reader thread do, pumps of the daemon, and ticks
of the attach loop.  Every byte the provider has written is in one place: sent to the client,
in the attach buffer, in the channel, in the terminal, or dropped with the runtime (`Conserved`).
The last of these is what the pump does with an exited provider, so that the client gets
everything exactly if the pump finds nothing left there.
-/
import MemMux.Attach
import MemMux.Session

namespace MemMux

/-! ### Runs with one client -/

/-- The output of one task and the connection of one client.  `written` is what the provider wrote
since the attach began. -/
structure AttachRun where
  io : TaskIo
  stream : AttachStream
  written : List UInt8

inductive AttachRunEvent
  /-- the provider or its reader thread does something -/
  | provider (a : ProviderAct)
  /-- the daemon pumps; the provider goes on in the middle of it -/
  | pump (nowMs : Nat) (during : List ProviderAct)
  /-- a tick of the attach loop -/
  | tick
  deriving DecidableEq, Repr

namespace AttachRun

/-- A client attaches. -/
def begin (io : TaskIo) : AttachRun := ⟨io.attachBegin, .begin, []⟩

/-- The provider or its reader thread does something. -/
def act (r : AttachRun) (a : ProviderAct) : AttachRun :=
  { r with
      io := r.io.act a
      written := r.written ++ (r.io.runtime.map (·.session.writes a)).getD [] }

/-- The first loop of the pump, and what the provider does until it is looked at. -/
def drained (r : AttachRun) (nowMs : Nat) (during : List ProviderAct) : AttachRun :=
  during.foldl act { r with io := r.io.drain nowMs }

def step (r : AttachRun) : AttachRunEvent → AttachRun
  | .provider a => r.act a
  | .pump nowMs during =>
      let r := r.drained nowMs during
      { r with io := r.io.retire }
  | .tick =>
      match r.stream.ended with
      | some _ => r
      | none =>
          let (out, io) := r.io.attachDrain
          { r with io := io, stream := r.stream.tickBranch ⟨out, io.isRunning, true⟩ }

/-- What the client was sent. -/
def received (r : AttachRun) : List UInt8 :=
  r.stream.sent.flatMap fun
    | .output data => data
    | .exited => []

/-- Less than 256 KiB come together between two drains. -/
def Fits (r : AttachRun) : AttachRunEvent → Prop
  | .pump _ _ => ∀ rt ∈ r.io.runtime,
      (rt.attachBuf ++ rt.session.outputRx.flatten).length < attachBufCap
  | .provider _ | .tick => True

instance (r : AttachRun) : (e : AttachRunEvent) → Decidable (Fits r e)
  | .pump _ _ => inferInstanceAs (Decidable (∀ rt ∈ r.io.runtime, _ < _))
  | .provider _ => isTrue trivial
  | .tick => isTrue trivial

/-- **Nothing is left when the pump drops the runtime of an exited provider**: not in the attach
buffer, not in the channel, not in the terminal. -/
def DropsNothing (r : AttachRun) : AttachRunEvent → Prop
  | .pump nowMs during => ∀ rt ∈ (r.drained nowMs during).io.runtime, rt.isRunning = false →
      rt.attachBuf = [] ∧ rt.session.unread = []
  | .provider _ | .tick => True

instance (r : AttachRun) : (e : AttachRunEvent) → Decidable (DropsNothing r e)
  | .pump nowMs during =>
      inferInstanceAs (Decidable (∀ rt ∈ (r.drained nowMs during).io.runtime, _ → _))
  | .provider _ => isTrue trivial
  | .tick => isTrue trivial

/-! ### Where the bytes are -/

/-- What the daemon, the channel and the terminal hold of the task's output. -/
def held (r : AttachRun) : List UInt8 :=
  (r.io.runtime.map fun rt => rt.attachBuf ++ rt.session.unread).getD []

/-- **Every byte is somewhere**: of what was unread when the client attached and what was written
since, some was received, some is held, and the rest was dropped with the runtime. -/
structure Conserved (backlog dropped : List UInt8) (r : AttachRun) : Prop where
  bytes : r.received ++ r.held ++ dropped = backlog ++ r.written
  live : ∀ rt ∈ r.io.runtime, rt.attached = true ∧ dropped = []
  serving : r.io.runtime ≠ none → r.stream.ended = none

theorem Conserved.act {backlog dropped : List UInt8} {r : AttachRun} (h : Conserved backlog dropped r)
    (a : ProviderAct) : Conserved backlog dropped (r.act a) := by
  have hbytes := h.bytes
  have hlive := h.live
  have hserving := h.serving
  unfold AttachRun.act
  cases hrt : r.io.runtime with
  | none =>
      refine ⟨?_, ?_, ?_⟩
      · simpa [held, received, TaskIo.act, hrt] using hbytes
      · simp [TaskIo.act, hrt]
      · simp [TaskIo.act, hrt]
  | some rt =>
      obtain ⟨hatt, rfl⟩ := hlive rt hrt
      refine ⟨?_, ?_, fun _ => hserving (by simp [hrt])⟩
      · simp only [held, received, hrt, Option.map_some, Option.getD_some, List.append_nil,
          TaskIo.act, RuntimeOutput.act, PtySession.unread_act] at hbytes ⊢
        rw [← List.append_assoc rt.attachBuf, ← List.append_assoc, hbytes, List.append_assoc]
      · intro rt' hrt'
        rw [TaskIo.act, hrt] at hrt'
        obtain rfl := Option.some.inj hrt'
        exact ⟨hatt, rfl⟩

theorem Conserved.acts {backlog dropped : List UInt8} {r : AttachRun}
    (h : Conserved backlog dropped r) (as : List ProviderAct) :
    Conserved backlog dropped (as.foldl AttachRun.act r) := by
  induction as generalizing r with
  | nil => exact h
  | cons a as ih => exact ih (h.act a)

/-- A pump moves bytes from the channel to the attach buffer. -/
theorem Conserved.drain {backlog dropped : List UInt8} {r : AttachRun}
    (h : Conserved backlog dropped r) {nowMs : Nat} {during : List ProviderAct}
    (hfits : Fits r (.pump nowMs during)) :
    Conserved backlog dropped { r with io := r.io.drain nowMs } := by
  cases hrt : r.io.runtime with
  | none =>
      rw [TaskIo.drain_none hrt]
      exact h
  | some rt =>
      obtain ⟨hatt, rfl⟩ := h.live rt hrt
      obtain ⟨c, hpump⟩ := TaskIo.drain_runtime hrt nowMs
      have hbuf := rt.pump_attachBuf nowMs hatt (Nat.le_of_lt (hfits rt hrt))
      refine ⟨?_, fun rt' hrt' => ?_, fun _ => h.serving (by simp [hrt])⟩
      · have hbytes := h.bytes
        simp only [held, hrt, hpump, Option.map_some, Option.getD_some] at hbytes ⊢
        rw [← hbytes, hbuf]
        simp [received, PtySession.unread]
      · obtain rfl := Option.some.inj (hpump.symm.trans hrt')
        exact ⟨(rt.pump_attached nowMs).trans hatt, rfl⟩

/-- What the pump drops with a runtime that it retires. -/
def drops (r : AttachRun) : List UInt8 :=
  ((r.io.runtime.filter (!·.isRunning)).map fun rt => rt.attachBuf ++ rt.session.unread).getD []

theorem Conserved.retire {backlog dropped : List UInt8} {r : AttachRun}
    (h : Conserved backlog dropped r) :
    Conserved backlog (dropped ++ r.drops) { r with io := r.io.retire } := by
  have hbytes := h.bytes
  have hretire := r.io.retire_runtime
  cases hrt : r.io.runtime with
  | none =>
      rw [hrt] at hretire
      have hnone : r.io.retire.runtime = none := hretire
      refine ⟨?_, by simp [hnone], by simp [hnone]⟩
      simpa [held, drops, received, hrt, hnone] using hbytes
  | some rt =>
      obtain ⟨hatt, rfl⟩ := h.live rt hrt
      rw [hrt, Option.filter_some] at hretire
      cases hrun : rt.isRunning with
      -- a runtime that runs is kept, with its client
      | true =>
          rw [hrun] at hretire
          have hsame : r.io.retire.runtime = some rt := hretire
          refine ⟨?_, fun rt' hrt' => ?_, fun _ => h.serving (by simp [hrt])⟩
          · simpa [held, drops, received, hrt, hsame, Option.filter_some, hrun] using hbytes
          · obtain rfl := Option.some.inj (hsame.symm.trans hrt')
            simp [drops, hrt, Option.filter_some, hrun, hatt]
      | false =>
          rw [hrun] at hretire
          have hnone : r.io.retire.runtime = none := hretire
          refine ⟨?_, by simp [hnone], by simp [hnone]⟩
          simpa [held, drops, received, hrt, hnone, Option.filter_some, hrun] using hbytes

theorem drops_eq_nil {r : AttachRun} {nowMs : Nat} {during : List ProviderAct} :
    (r.drained nowMs during).drops = [] ↔ DropsNothing r (.pump nowMs during) := by
  unfold drops DropsNothing
  cases hrt : (r.drained nowMs during).io.runtime with
  | none => simp [hrt]
  | some rt =>
      cases hrun : rt.isRunning with
      | true => simp [hrt, Option.filter_some, hrun]
      | false => simp [hrt, Option.filter_some, hrun]

theorem Conserved.tick {backlog dropped : List UInt8} {r : AttachRun}
    (h : Conserved backlog dropped r) : Conserved backlog dropped (step r .tick) := by
  have hbytes := h.bytes
  unfold step
  cases hend : r.stream.ended with
  | some e => exact h
  | none =>
      cases hrt : r.io.runtime with
      | none =>
          refine ⟨?_, ?_, ?_⟩
          · simpa [held, received, TaskIo.attachDrain, hrt, AttachStream.tickBranch,
              AttachStream.sendOutput, TaskIo.isRunning] using hbytes
          · simp [TaskIo.attachDrain, hrt]
          · simp [TaskIo.attachDrain, hrt]
      | some rt =>
          obtain ⟨hatt, rfl⟩ := h.live rt hrt
          refine ⟨?_, ?_, ?_⟩
          · by_cases hempty : rt.attachBuf = [] <;>
              simpa [held, received, TaskIo.attachDrain, hrt, AttachStream.tickBranch,
                AttachStream.sendOutput, TaskIo.isRunning, RuntimeOutput.drainAttach, hempty] using hbytes
          · simp [TaskIo.attachDrain, hrt, RuntimeOutput.drainAttach, hatt]
          · simp [TaskIo.attachDrain, hrt, RuntimeOutput.drainAttach, AttachStream.tickBranch,
              TaskIo.isRunning, hend]

/-- **One event**: every byte stays somewhere, and bytes are dropped only by a pump that finds an
exited provider. -/
theorem Conserved.step {backlog dropped : List UInt8} {r : AttachRun}
    (h : Conserved backlog dropped r) {e : AttachRunEvent} (hfits : Fits r e) :
    ∃ more, Conserved backlog (dropped ++ more) (AttachRun.step r e)
      ∧ (more = [] ↔ DropsNothing r e) := by
  cases e with
  | provider a =>
      refine ⟨[], ?_, by simp [DropsNothing]⟩
      rw [List.append_nil]
      exact h.act a
  | pump nowMs during =>
      exact ⟨(r.drained nowMs during).drops, ((h.drain hfits).acts during).retire, drops_eq_nil⟩
  | tick =>
      refine ⟨[], ?_, by simp [DropsNothing]⟩
      rw [List.append_nil]
      exact h.tick

theorem Conserved.run {backlog dropped : List UInt8} {r : AttachRun}
    (h : Conserved backlog dropped r) {es : List AttachRunEvent}
    (hfits : Run.Allowed AttachRun.step Fits r es) :
    ∃ more, Conserved backlog (dropped ++ more) (Run.run AttachRun.step r es)
      ∧ (more = [] ↔ Run.Allowed AttachRun.step DropsNothing r es) := by
  induction es generalizing r dropped with
  | nil => exact ⟨[], by rwa [List.append_nil], by simp [Run.Allowed]⟩
  | cons e es ih =>
      obtain ⟨first, hfirst, hfirstIff⟩ := h.step hfits.1
      obtain ⟨rest, hrest, hrestIff⟩ := ih hfirst hfits.2
      refine ⟨first ++ rest, ?_, ?_⟩
      · rw [← List.append_assoc]
        exact hrest
      · rw [List.append_eq_nil_iff, hfirstIff, hrestIff]
        rfl

/-! ### Complete output -/

theorem conserved_begin {io : TaskIo} {rt : RuntimeOutput} (h : io.runtime = some rt) :
    Conserved rt.session.unread [] (begin io) := by
  refine ⟨?_, ?_, fun _ => rfl⟩
  · simp [received, held, begin, TaskIo.attachBegin, h, RuntimeOutput.setAttached, AttachStream.begin]
  · simp [begin, TaskIo.attachBegin, h, RuntimeOutput.setAttached]

/-- **The output of an attached client is complete exactly if the pump drops nothing.**  A client
that was sent `Exited` received what was unread when it attached and then what the provider wrote
since, exactly if no pump dropped a runtime with bytes left in it; and if nothing was unread, it
received exactly what the provider wrote. -/
theorem attach_complete_iff {io : TaskIo} {rt : RuntimeOutput} (hrt : io.runtime = some rt)
    {es : List AttachRunEvent} (hfits : Run.Allowed step Fits (begin io) es)
    (hexit : (Run.run step (begin io) es).stream.ended = some .exited) :
    let r := Run.run step (begin io) es
    (r.received = rt.session.unread ++ r.written ↔ Run.Allowed step DropsNothing (begin io) es)
      ∧ (rt.session.unread = [] →
          (r.received = r.written ↔ Run.Allowed step DropsNothing (begin io) es)) := by
  intro r
  obtain ⟨dropped, h, hiff⟩ := (conserved_begin hrt).run hfits
  have hnone : r.io.runtime = none := by
    by_contra hsome
    rw [h.serving hsome] at hexit
    cases hexit
  have hbytes : r.received ++ dropped = rt.session.unread ++ r.written := by
    have hall := h.bytes
    rw [held, hnone] at hall
    simpa using hall
  have hcomplete : r.received = rt.session.unread ++ r.written
      ↔ Run.Allowed step DropsNothing (begin io) es := by
    rw [← hiff, ← hbytes]
    exact List.self_eq_append_right
  refine ⟨hcomplete, fun hbacklog => ?_⟩
  rwa [hbacklog, List.nil_append] at hcomplete

/-- A provider whose output is drained before it exits: the client gets all of it. -/
theorem attach_complete_iff_drained :
    (Run.run step (begin (.launched 0)) [.provider (.write [104, 105]), .provider (.read 8192),
        .pump 1 [], .tick, .provider .exit, .pump 2 [], .tick]).received = [104, 105] :=
  (((attach_complete_iff rfl (by decide +kernel) (by decide +kernel)).2 rfl).mpr
    (by decide +kernel)).trans (by decide +kernel)

/-- A provider that prints and exits between two pumps: the pump moves the last bytes to the attach
buffer, drops it with the runtime, and the client is told `Exited` without them. -/
theorem exit_drops_tail :
    let es : List AttachRunEvent := [.provider (.write [104, 105]), .provider (.read 8192),
      .provider .exit, .pump 1 [], .tick]
    let r := Run.run step (begin (.launched 0)) es
    Run.Allowed step Fits (begin (.launched 0)) es ∧ r.stream.ended = some .exited
      ∧ r.received = [] ∧ r.written = [104, 105] := by
  decide +kernel

end AttachRun

end MemMux
