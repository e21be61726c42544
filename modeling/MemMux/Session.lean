/-
MemMux/Session.lean

What one task prints, on its way to the clients and to the history (`memmux-pty/src/session.rs`,
`memmux-adapters/src/runtime.rs`, and the parts of `memmuxd/src/daemon.rs` that touch a runtime's
output).

The provider writes into a pseudo-terminal; a thread of its own reads that and sends what it
read to a channel; `pump` empties the channel into the capture buffer and, while a client is
attached, into the attach buffer.  `TaskIo` is what the daemon keeps of one task's output: the
runtime, if it has one, the history store, and the chunk files.  The screen is left out: nothing
here reads it.
-/
import MemMux.Capture
import MemMux.ChunkStore

namespace MemMux

/-! ### The session -/

/-- A running PTY session. -/
structure PtySession where
  /-- what the provider wrote and the reader thread has not read -/
  pipe : List UInt8
  /-- the chunks in the channel, oldest first -/
  outputRx : List (List UInt8)
  /-- the provider process has not exited -/
  running : Bool
  deriving DecidableEq, Repr

/-- What happens on the other side of the channel. -/
inductive ProviderAct
  /-- the provider writes to its terminal -/
  | write (bytes : List UInt8)
  /-- the reader thread gets up to `n` bytes, and never more than its buffer holds -/
  | read (n : Nat)
  /-- the provider exits -/
  | exit
  deriving DecidableEq, Repr

namespace PtySession

/-- A session right after its process was spawned. -/
def spawn : PtySession := ⟨[], [], true⟩

/-- What the provider or the reader thread does; a process that has exited does nothing. -/
def act (s : PtySession) : ProviderAct → PtySession
  | .write bytes => if s.running then { s with pipe := s.pipe ++ bytes } else s
  | .read n =>
      let chunk := s.pipe.take (min n 8192)
      if chunk = [] then s
      else { s with pipe := s.pipe.drop (min n 8192), outputRx := s.outputRx ++ [chunk] }
  | .exit => { s with running := false }

/-- Terminate the child process. -/
def kill (s : PtySession) : PtySession := { s with running := false }

/-- What has been written and not been taken out of the channel. -/
def unread (s : PtySession) : List UInt8 := s.outputRx.flatten ++ s.pipe

/-- What a process that has not exited writes. -/
def writes (s : PtySession) : ProviderAct → List UInt8
  | .write bytes => if s.running then bytes else []
  | .read _ | .exit => []

/-- The reader thread moves bytes and loses none. -/
theorem unread_act (s : PtySession) (a : ProviderAct) :
    (s.act a).unread = s.unread ++ s.writes a := by
  cases a with
  | write bytes =>
      unfold act writes unread
      dsimp only
      split_ifs <;> simp
  | read n =>
      unfold act writes unread
      dsimp only
      split_ifs <;> simp
  | exit => simp [act, writes, unread]

end PtySession

/-! ### The runtime -/

/-- Cap on buffered raw output for an attached client. -/
def attachBufCap : Nat := 256 * 1024

/-- The output side of a `RuntimeInstance`. -/
structure RuntimeOutput where
  session : PtySession
  capture : CaptureBuffer
  lastActivityMs : Nat
  attached : Bool
  attachBuf : List UInt8
  deriving DecidableEq, Repr

namespace RuntimeOutput

/-- `spawn_pty`. -/
def spawnPty (nowMs : Nat) : RuntimeOutput :=
  ⟨.spawn, .new .default, nowMs, false, []⟩

/-- One chunk of the loop of `pump`. -/
def pumpChunk (nowMs : Nat) (rt : RuntimeOutput) (chunk : List UInt8) : RuntimeOutput :=
  { rt with
      capture := rt.capture.ingest (Utf8.fromUtf8Lossy chunk) nowMs
      attachBuf :=
        if rt.attached then
          let buf := rt.attachBuf ++ chunk
          buf.drop (buf.length - attachBufCap)
        else rt.attachBuf
      lastActivityMs := nowMs }

/-- Drain available output into the capture buffer; tee it while a client is attached. -/
def pump (nowMs : Nat) (rt : RuntimeOutput) : RuntimeOutput :=
  rt.session.outputRx.foldl (pumpChunk nowMs) { rt with session := { rt.session with outputRx := [] } }

/-- Begin or end teeing; either clears the buffer. -/
def setAttached (attached : Bool) (rt : RuntimeOutput) : RuntimeOutput :=
  { rt with attached := attached, attachBuf := [] }

/-- Take the raw output buffered since the last drain. -/
def drainAttach (rt : RuntimeOutput) : List UInt8 × RuntimeOutput :=
  (rt.attachBuf, { rt with attachBuf := [] })

/-- Take lines evicted from the resident buffer. -/
def takeEvicted (rt : RuntimeOutput) : List StoredLine × RuntimeOutput :=
  (rt.capture.drainEvicted.1, { rt with capture := rt.capture.drainEvicted.2 })

/-- Whether the provider process is still running. -/
def isRunning (rt : RuntimeOutput) : Bool := rt.session.running

/-- Terminate the provider. -/
def stop (rt : RuntimeOutput) : RuntimeOutput := { rt with session := rt.session.kill }

/-- Something happens on the other side of the channel. -/
def act (rt : RuntimeOutput) (a : ProviderAct) : RuntimeOutput := { rt with session := rt.session.act a }

end RuntimeOutput

/-! ### The daemon's side -/

/-- Lines per history chunk. -/
def historyChunkLines : Nat := 500

/-- What the daemon keeps of one task's output. -/
structure TaskIo where
  runtime : Option RuntimeOutput
  history : Option ChunkStore
  files : ChunkFiles

namespace TaskIo

/-- A task whose provider has just been launched. -/
def launched (nowMs : Nat) : TaskIo := ⟨some (.spawnPty nowMs), none, ∅⟩

/-- Append lines to the history, if it is open. -/
def appendHistory (lines : List StoredLine) (io : TaskIo) : TaskIo :=
  match io.history with
  | none => io
  | some s =>
      let (s, files) := ChunkStore.append lines (s, io.files)
      { io with history := some s, files := files }

/-- Flush the history, if it is open. -/
def flushHistory (io : TaskIo) : TaskIo :=
  match io.history with
  | none => io
  | some s =>
      let (s, files) := ChunkStore.flush (s, io.files)
      { io with history := some s, files := files }

/-- Install a live runtime and ensure its history store exists. -/
def installRuntime (dir : Path) (rt : RuntimeOutput) (io : TaskIo) : TaskIo :=
  { io with
      runtime := some rt
      history := some (io.history.getD (ChunkStore.new dir historyChunkLines)) }

/-- The first loop of `pump`: drain the runtime, spill evicted scrollback to the history. -/
def drain (nowMs : Nat) (io : TaskIo) : TaskIo :=
  match io.runtime with
  | none => io
  | some rt =>
      let rt := rt.pump nowMs
      match io.history with
      | none => { io with runtime := some rt }
      | some _ => appendHistory rt.takeEvicted.1 { io with runtime := some rt.takeEvicted.2 }

/-- The second loop of `pump`: a runtime whose provider has exited is dropped, after what it
evicted is flushed. -/
def retire (io : TaskIo) : TaskIo :=
  match io.runtime with
  | none => io
  | some rt =>
      if rt.isRunning then io
      else flushHistory (appendHistory rt.takeEvicted.1 { io with runtime := none })

/-- Something happens on the other side of the channel. -/
def act (io : TaskIo) (a : ProviderAct) : TaskIo := { io with runtime := io.runtime.map (·.act a) }

/-- `pump`: between the drain and the look at the process, the provider goes on. -/
def pump (nowMs : Nat) (during : List ProviderAct) (io : TaskIo) : TaskIo :=
  retire (during.foldl act (drain nowMs io))

/-- Stop the live provider, flushing its scrollback: what `terminate`, `hibernate` and `recycle` do
to the output. -/
def shutdownRuntime (io : TaskIo) : TaskIo :=
  match io.runtime with
  | none => io
  | some rt => flushHistory (appendHistory rt.stop.takeEvicted.1 { io with runtime := none })

/-- Whether the task's provider process is live. -/
def isRunning (io : TaskIo) : Bool := io.runtime.isSome

/-- Begin teeing raw output for an attached client. -/
def attachBegin (io : TaskIo) : TaskIo := { io with runtime := io.runtime.map (·.setAttached true) }

/-- Stop teeing raw output. -/
def attachEnd (io : TaskIo) : TaskIo := { io with runtime := io.runtime.map (·.setAttached false) }

/-- Take raw output buffered for the attached client since the last drain. -/
def attachDrain (io : TaskIo) : List UInt8 × TaskIo :=
  match io.runtime with
  | none => ([], io)
  | some rt => (rt.drainAttach.1, { io with runtime := some rt.drainAttach.2 })

end TaskIo

/-! ### What a pump does -/

namespace RuntimeOutput

variable (nowMs : Nat) (rt : RuntimeOutput) (cs : List (List UInt8))

@[simp] theorem foldl_pumpChunk_session : (cs.foldl (pumpChunk nowMs) rt).session = rt.session := by
  induction cs generalizing rt with
  | nil => rfl
  | cons c cs ih => exact ih _

@[simp] theorem foldl_pumpChunk_attached :
    (cs.foldl (pumpChunk nowMs) rt).attached = rt.attached := by
  induction cs generalizing rt with
  | nil => rfl
  | cons c cs ih => exact ih _

/-- The capture buffer takes the chunks in, decoded one by one. -/
theorem foldl_pumpChunk_capture :
    (cs.foldl (pumpChunk nowMs) rt).capture
      = cs.foldl (fun c chunk => c.ingest (Utf8.fromUtf8Lossy chunk) nowMs) rt.capture := by
  induction cs generalizing rt with
  | nil => rfl
  | cons c cs ih => exact ih _

/-- **The tee keeps every byte**, as long as the attach buffer has room for them. -/
theorem foldl_pumpChunk_attachBuf (h : rt.attached = true)
    (hroom : (rt.attachBuf ++ cs.flatten).length ≤ attachBufCap) :
    (cs.foldl (pumpChunk nowMs) rt).attachBuf = rt.attachBuf ++ cs.flatten := by
  induction cs generalizing rt with
  | nil => simp
  | cons c cs ih =>
      have hfirst : (pumpChunk nowMs rt c).attachBuf = rt.attachBuf ++ c := by
        have hlen : (rt.attachBuf ++ c).length - attachBufCap = 0 := by
          rw [List.flatten_cons, ← List.append_assoc, List.length_append] at hroom
          omega
        simp only [pumpChunk, h, if_true]
        rw [hlen]
        rfl
      rw [List.foldl_cons, ih (pumpChunk nowMs rt c) h (by simpa [hfirst] using hroom), hfirst]
      simp

/-- Without the flag nothing is teed. -/
theorem foldl_pumpChunk_untapped (h : rt.attached = false) :
    (cs.foldl (pumpChunk nowMs) rt).attachBuf = rt.attachBuf := by
  induction cs generalizing rt with
  | nil => rfl
  | cons c cs ih =>
      have hfirst : (pumpChunk nowMs rt c).attachBuf = rt.attachBuf := by simp [pumpChunk, h]
      exact (ih (pumpChunk nowMs rt c) h).trans hfirst

@[simp] theorem pump_session : (rt.pump nowMs).session = { rt.session with outputRx := [] } :=
  foldl_pumpChunk_session nowMs _ _

@[simp] theorem pump_attached : (rt.pump nowMs).attached = rt.attached :=
  foldl_pumpChunk_attached nowMs _ _

theorem pump_attachBuf (h : rt.attached = true)
    (hroom : (rt.attachBuf ++ rt.session.outputRx.flatten).length ≤ attachBufCap) :
    (rt.pump nowMs).attachBuf = rt.attachBuf ++ rt.session.outputRx.flatten :=
  foldl_pumpChunk_attachBuf nowMs _ _ h hroom

theorem pump_untapped (h : rt.attached = false) : (rt.pump nowMs).attachBuf = rt.attachBuf :=
  foldl_pumpChunk_untapped nowMs _ _ h

theorem pump_capture :
    (rt.pump nowMs).capture
      = rt.session.outputRx.foldl
          (fun c chunk => c.ingest (Utf8.fromUtf8Lossy chunk) nowMs) rt.capture :=
  foldl_pumpChunk_capture nowMs _ _

end RuntimeOutput

/-! ### The runtime of a task -/

namespace TaskIo

@[simp] theorem appendHistory_runtime (lines : List StoredLine) (io : TaskIo) :
    (io.appendHistory lines).runtime = io.runtime := by
  unfold appendHistory
  split <;> rfl

@[simp] theorem flushHistory_runtime (io : TaskIo) : io.flushHistory.runtime = io.runtime := by
  unfold flushHistory
  split <;> rfl

theorem drain_none {io : TaskIo} (h : io.runtime = none) (nowMs : Nat) : io.drain nowMs = io := by
  simp [drain, h]

/-- The drained runtime is the pumped one, but for the lines it has evicted. -/
theorem drain_runtime {io : TaskIo} {rt : RuntimeOutput} (h : io.runtime = some rt) (nowMs : Nat) :
    ∃ c, (io.drain nowMs).runtime = some { rt.pump nowMs with capture := c } := by
  unfold drain
  rw [h]
  dsimp only
  split
  · exact ⟨_, rfl⟩
  · exact ⟨_, appendHistory_runtime _ _⟩

/-- A runtime is kept as long as its process runs. -/
theorem retire_runtime (io : TaskIo) : io.retire.runtime = io.runtime.filter (·.isRunning) := by
  unfold retire
  cases hrt : io.runtime with
  | none => simp [hrt]
  | some rt =>
      dsimp only
      split_ifs with hrun
      · rw [Option.filter_some, if_pos hrun, hrt]
      · rw [Option.filter_some, if_neg hrun, flushHistory_runtime, appendHistory_runtime]

end TaskIo

end MemMux
