/-
MemMux/Attach.lean

The attach connection (`attach_stream` of `memmuxd/src/server.rs`): a loop around a biased
`select!` of `read_frame` and a timer.

One event of a run is either something the client's end of the socket does (bytes arrive, or it
closes) or one poll of the `select!`.  The read branch is polled first; the tick branch runs when
the read is not ready and the timer is due, and then the half-finished read is dropped
together with what it has consumed.
-/
import Mathlib.Data.List.TakeWhile
import MemMux.CheckpointJson
import MemMux.Frame
import MemMux.Run

namespace MemMux

open Format

/-! ### Messages -/

/-- A frame the client sends to the daemon while in attach mode. -/
inductive AttachClientMsg
  /-- raw bytes to write to the task's stdin -/
  | input (data : List UInt8)
  /-- resize the task's terminal -/
  | resize (rows cols : UInt16)
  /-- leave attach mode; the task keeps running -/
  | detach
  deriving DecidableEq, Repr

/-- A frame the tick branch sends to the client. -/
inductive AttachServerMsg
  /-- raw PTY output -/
  | output (data : List UInt8)
  /-- the task's process exited -/
  | exited
  deriving DecidableEq, Repr

/-- What `serde_json` does for client messages. -/
structure MessageCodec where
  encode : AttachClientMsg → List UInt8
  decode : List UInt8 → Option AttachClientMsg
  decode_encode : ∀ m, decode (encode m) = some m

/-- The bytes of a sequence of messages, each in a frame of its own. -/
def wire (codec : MessageCodec) (ms : List AttachClientMsg) : List UInt8 :=
  ms.flatMap fun m => writeFrame (codec.encode m)

/-- The messages up to the first `Detach`. -/
def beforeDetach (ms : List AttachClientMsg) : List AttachClientMsg := ms.takeWhile (· ≠ .detach)

/-! ### The JSON of client messages -/

/-- No number begins with the closing bracket. -/
theorem strip_bracket_printNumbers (n : Nat) (ns : List Nat) (rest : List Char) :
    strip [']'] (printNumbers ',' ']' n ns ++ rest) = none := by
  have hdigits : ∀ c ∈ Nat.toDigits 10 n, c.isDigit := fun c hc =>
    Nat.isDigit_of_mem_toDigits (by decide) (by decide) hc
  obtain ⟨d, ds, hds⟩ := List.exists_cons_of_ne_nil (@Nat.toDigits_ne_nil n 10)
  have hd : d ≠ ']' := by
    rintro rfl
    have := hdigits ']' (hds ▸ List.mem_cons_self)
    cases this
  cases ns <;> simp [printNumbers, hds, strip, hd.symm]

/-- A byte array, from its first element to the closing bracket. -/
def byteArray : Format (List UInt8) :=
  (sum (after [']'] nothing) (numbers ',' ']' (by decide) isDigit_comma (by decide)) fun p rest => by
    show (strip [']'] (printNumbers ',' ']' p.1 p.2 ++ rest)).bind _ = none
    rw [strip_bracket_printNumbers]
    rfl).image
    (fun | .inl _ => [] | .inr ns => (ns.1 :: ns.2).map UInt8.ofNat)
    (fun | [] => .inl () | b :: bs => .inr (b.toNat, bs.map UInt8.toNat))
    (by rintro (_ | ⟨b, bs⟩) <;> simp [Function.comp_def])

/-- A number of 16 bits. -/
def u16 (stop : Char) (h : stop.isDigit = false) : Format UInt16 :=
  (nat stop h).image UInt16.ofNat UInt16.toNat fun _ => UInt16.ofNat_toNat

/-- A client message: an object with its tag. -/
def clientMsg : Format AttachClientMsg :=
  (sum (after "\x7b\"kind\":\"input\",\"data\":[".toList (before byteArray ['\x7d']))
    (sum (after "\x7b\"kind\":\"resize\",\"rows\":".toList
        (seq (u16 ',' isDigit_comma) (after "\"cols\":".toList (u16 '\x7d' (by decide)))))
      (after "\x7b\"kind\":\"detach\"\x7d".toList nothing)
      fun s rest => by
        show (after _ _).read (_ ++ _ ++ rest) = none
        rw [List.append_assoc]
        exact after_read_of_clash (by decide) _ _)
    fun s rest => by
      cases s <;>
      · show (after _ _).read (_ ++ _ ++ rest) = none
        rw [List.append_assoc]
        exact after_read_of_clash (by decide) _ _).image
    (fun | .inl data => .input data | .inr (.inl p) => .resize p.1 p.2 | .inr (.inr _) => .detach)
    (fun | .input data => .inl data | .resize rows cols => .inr (.inl (rows, cols))
         | .detach => .inr (.inr ()))
    (by rintro (data | ⟨rows, cols⟩ | _) <;> rfl)

/-- **What `serde_json` does for client messages.** -/
def clientJson : MessageCodec where
  encode m := toUtf8 (clientMsg.print m)
  decode bytes := ((ofUtf8 bytes).bind clientMsg.read).bind fun r =>
    if r.2 = [] then some r.1 else none
  decode_encode m := by
    have hread := clientMsg.read_print m []
    rw [List.append_nil] at hread
    rw [ofUtf8_toUtf8, Option.bind_some, hread]
    rfl

/-! ### The loop -/

/-- How an attach ends. -/
inductive AttachEnd
  /-- the client sent `Detach` -/
  | detached
  /-- end of the stream where a header was due -/
  | disconnected
  /-- `read_frame` returned an error -/
  | readFailed
  /-- the task is not running any more -/
  | exited
  /-- a frame could not be written to the client -/
  | writeFailed
  deriving DecidableEq, Repr

/-- What the tick branch finds: the drained output, whether the task runs, and whether the client
takes what is written to it. -/
structure Drain where
  out : List UInt8
  running : Bool
  written : Bool
  deriving DecidableEq, Repr

structure AttachStream where
  /-- bytes that arrived and no read has taken yet -/
  socket : List UInt8
  /-- the client's end is closed -/
  eof : Bool
  /-- the `read_frame` future of the current `select!` -/
  reading : Reading
  /-- messages acted on: `write_stdin` and `resize` calls, in order -/
  handled : List AttachClientMsg
  /-- frames written to the client -/
  sent : List AttachServerMsg
  ended : Option AttachEnd

inductive AttachEvent
  | arrive (bytes : List UInt8)
  | close
  /-- one poll of the `select!`, with the timer due or not -/
  | select (due : Option Drain)
  deriving DecidableEq, Repr

namespace AttachStream

/-- `attach_stream` when it is called. -/
def begin : AttachStream := ⟨[], false, .fresh, [], [], none⟩

/-- The read branch: `frame` was read, `rest` is still in the socket. -/
def frameBranch (codec : MessageCodec) (s : AttachStream) (frame rest : List UInt8) :
    AttachStream :=
  match codec.decode frame with
  | some .detach => { s with socket := rest, reading := .fresh, ended := some .detached }
  | some m => { s with socket := rest, reading := .fresh, handled := s.handled ++ [m] }
  -- malformed frames are ignored
  | none => { s with socket := rest, reading := .fresh }

/-- The frames written to the client after the drained output, if there is any. -/
def sendOutput (s : AttachStream) (out : List UInt8) : List AttachServerMsg :=
  if out ≠ [] then s.sent ++ [.output out] else s.sent

/-- The tick branch.  The read that was not taken is dropped. -/
def tickBranch (s : AttachStream) (d : Drain) : AttachStream :=
  if d.out ≠ [] ∧ d.written = false then
    { s with reading := .fresh, ended := some .writeFailed }
  else
    let sent := sendOutput s d.out
    if d.running then { s with reading := .fresh, sent := sent }
    else if d.written then
      { s with reading := .fresh, sent := sent ++ [.exited], ended := some .exited }
    else { s with reading := .fresh, sent := sent, ended := some .writeFailed }

/-- The end of the stream inside a header counts as a clean end, inside a body as an error. -/
def atEof : Reading → AttachEnd
  | .header .. => .disconnected
  | .body .. => .readFailed

/-- One poll of the `select!`. -/
def select (codec : MessageCodec) (s : AttachStream) (due : Option Drain) : AttachStream :=
  match s.reading.poll s.socket with
  | .ready frame rest => frameBranch codec s frame rest
  | .tooLarge _ => { s with ended := some .readFailed }
  | .pending r =>
      if s.eof then { s with reading := r, socket := [], ended := some (atEof r) }
      else
        match due with
        | some d => tickBranch { s with reading := r, socket := [] } d
        | none => { s with reading := r, socket := [] }

/-- What one event does.  The socket lives on when the loop has ended. -/
def step (codec : MessageCodec) (s : AttachStream) : AttachEvent → AttachStream
  | .arrive bytes => if s.eof then s else { s with socket := s.socket ++ bytes }
  | .close => { s with eof := true }
  | .select due =>
      match s.ended with
      | some _ => s
      | none => select codec s due

/-- What the reading future and the socket hold together. -/
def held (s : AttachStream) : List UInt8 := s.reading.bytes ++ s.socket

end AttachStream

open AttachStream

/-- The bytes that arrive during the events, up to the close. -/
def arrivals : List AttachEvent → List UInt8
  | [] => []
  | .arrive bytes :: es => bytes ++ arrivals es
  | .close :: _ => []
  | .select _ :: es => arrivals es

/-! ### Exact delivery -/

/-- What was acted on is the sent messages in order, up to a `Detach`.  When `all` of their bytes
arrived and there is nothing left to read, nothing is missing, unless the task's exit or
a client that takes no output cut the attach short. -/
def Delivered (sent : List AttachClientMsg) (all : Prop) (s : AttachStream) : Prop :=
  s.handled <+: beforeDetach sent ∧
    (s.ended = some .detached → s.handled = beforeDetach sent) ∧
    (all → (s.ended = none → s.socket = []) → s.ended ≠ some .exited →
      s.ended ≠ some .writeFailed → s.handled = beforeDetach sent)

instance (sent : List AttachClientMsg) (all : Prop) [Decidable all] (s : AttachStream) :
    Decidable (Delivered sent all s) :=
  inferInstanceAs (Decidable (_ ∧ _ ∧ _))

/-- **Exact delivery** over the events `es`, when the client sends the messages `sent`. -/
def DeliversExactly (codec : MessageCodec) (sent : List AttachClientMsg)
    (es : List AttachEvent) : Prop :=
  Delivered sent (arrivals es = wire codec sent) (Run.run (step codec) begin es)

instance (codec : MessageCodec) (sent : List AttachClientMsg) (es : List AttachEvent) :
    Decidable (DeliversExactly codec sent es) :=
  inferInstanceAs (Decidable (Delivered _ _ _))

/-- The tick branch only runs between frames: where the read is not ready, nothing of a frame has
arrived. -/
def TickBetweenFrames (s : AttachStream) : AttachEvent → Prop
  | .select (some _) => (s.reading.poll s.socket).waits → s.held = []
  | _ => True

instance (s : AttachStream) : (e : AttachEvent) → Decidable (TickBetweenFrames s e)
  | .select (some _) => inferInstanceAs (Decidable (_ → _ = _))
  | .select none => isTrue trivial
  | .arrive _ => isTrue trivial
  | .close => isTrue trivial

/-- What one event adds to the bytes that arrived. -/
def newBytes (s : AttachStream) : AttachEvent → List UInt8
  | .arrive bytes => if s.eof then [] else bytes
  | _ => []

/-- The bytes the rest of a run adds. -/
def stillToCome (s : AttachStream) (es : List AttachEvent) : List UInt8 :=
  if s.eof then [] else arrivals es

theorem wire_append (codec : MessageCodec) (ms ns : List AttachClientMsg) :
    wire codec (ms ++ ns) = wire codec ms ++ wire codec ns :=
  List.flatMap_append

theorem beforeDetach_append {done : List AttachClientMsg} (h : .detach ∉ done)
    (rest : List AttachClientMsg) : beforeDetach (done ++ rest) = done ++ beforeDetach rest := by
  refine List.takeWhile_append_of_pos fun m hm => ?_
  simpa using fun he : m = .detach => h (he ▸ hm)

theorem eof_tickBranch (s : AttachStream) (d : Drain) : (tickBranch s d).eof = s.eof := by
  unfold tickBranch
  split_ifs <;> rfl

theorem eof_select (codec : MessageCodec) (s : AttachStream) (due : Option Drain) :
    (select codec s due).eof = s.eof := by
  unfold select
  cases s.reading.poll s.socket with
  | ready frame rest =>
      show (frameBranch codec s frame rest).eof = s.eof
      unfold frameBranch
      split <;> rfl
  | tooLarge len => rfl
  | pending r =>
      dsimp only
      split
      · rfl
      · cases due with
        | some d => exact eof_tickBranch _ d
        | none => rfl

theorem eof_step_select (codec : MessageCodec) (s : AttachStream) (due : Option Drain) :
    (step codec s (.select due)).eof = s.eof := by
  show (match s.ended with | some _ => s | none => select codec s due).eof = s.eof
  split
  · rfl
  · exact eof_select codec s due

theorem stillToCome_cons (codec : MessageCodec) (s : AttachStream) (e : AttachEvent)
    (es : List AttachEvent) :
    stillToCome s (e :: es) = newBytes s e ++ stillToCome (step codec s e) es := by
  cases e with
  | arrive bytes =>
      cases he : s.eof <;> simp [stillToCome, newBytes, step, arrivals, he]
  | close => cases he : s.eof <;> simp [stillToCome, newBytes, step, arrivals, he]
  | select due =>
      unfold stillToCome newBytes
      rw [eof_step_select]
      rfl

/-! ### What a poll finds -/

/-- **A prefix of the wire is read message by message.**  Either the next message is there, or the
future takes everything and waits. -/
theorem poll_prefix {codec : MessageCodec} {rest : List AttachClientMsg}
    (hsize : ∀ m ∈ rest, (codec.encode m).length ≤ maxFrameBytes) {bytes : List UInt8}
    (h : bytes <+: wire codec rest) :
    (∃ m rest' left, rest = m :: rest' ∧ bytes = writeFrame (codec.encode m) ++ left ∧
      Reading.fresh.poll bytes = .ready (codec.encode m) left) ∨
    ∃ r, Reading.fresh.poll bytes = .pending r ∧ r.bytes = bytes ∧
      (bytes = wire codec rest → rest = []) := by
  cases rest with
  | nil =>
      have hnil : bytes = [] := List.prefix_nil.mp h
      subst hnil
      exact .inr ⟨Reading.fresh, rfl, rfl, fun _ => rfl⟩
  | cons m rest =>
      have hm : (codec.encode m).length ≤ maxFrameBytes := hsize m List.mem_cons_self
      have hwire : wire codec (m :: rest) = writeFrame (codec.encode m) ++ wire codec rest := rfl
      rw [hwire] at h ⊢
      have whole : ∀ left, bytes = writeFrame (codec.encode m) ++ left →
          Reading.fresh.poll bytes = .ready (codec.encode m) left := by
        rintro left rfl
        exact Reading.poll_writeFrame hm left
      rcases List.prefix_or_prefix_of_prefix h (List.prefix_append _ _) with hpart | ⟨left, hl⟩
      · by_cases heq : bytes = writeFrame (codec.encode m)
        · have hl : bytes = writeFrame (codec.encode m) ++ [] := by rw [heq, List.append_nil]
          exact .inl ⟨m, rest, [], rfl, hl, whole [] hl⟩
        · obtain ⟨r, hpoll, hbytes⟩ := Reading.poll_part hm hpart heq
          refine .inr ⟨r, hpoll, hbytes, fun hall => ?_⟩
          -- a proper part of the first frame is not everything
          have hle := hpart.length_le
          rw [hall, List.length_append] at hle
          have hnil : wire codec rest = [] := List.eq_nil_of_length_eq_zero (by omega)
          rw [hnil, List.append_nil] at hall
          exact absurd hall heq
      · exact .inl ⟨m, rest, left, rfl, hl.symm, whole left hl.symm⟩

/-! ### The invariant -/

/-- **The state is faithful to what was sent**, when `received` are the bytes that arrived.  While
the loop runs, the messages acted on account for everything that was taken out of the
stream, and what is held is the start of the rest. -/
structure Faithful (codec : MessageCodec) (sent : List AttachClientMsg) (s : AttachStream)
    (received : List UInt8) : Prop where
  handled : s.handled <+: beforeDetach sent
  running : s.ended = none → ∃ rest, sent = s.handled ++ rest ∧ .detach ∉ s.handled ∧
    wire codec s.handled ++ s.held = received
  detached : s.ended = some .detached → s.handled = beforeDetach sent
  closed : s.ended = some .disconnected ∨ s.ended = some .readFailed →
    s.eof = true ∧ (received = wire codec sent → s.handled = beforeDetach sent)

theorem Faithful.begin (codec : MessageCodec) (sent : List AttachClientMsg) :
    Faithful codec sent begin [] where
  handled := List.nil_prefix
  running _ := ⟨sent, rfl, List.not_mem_nil, rfl⟩
  detached h := nomatch h
  closed h := nomatch h

/-- A loop that still runs is faithful when it accounts for everything. -/
theorem Faithful.of_running {codec : MessageCodec} {sent rest : List AttachClientMsg}
    {s : AttachStream} {received : List UInt8} (hr : s.ended = none)
    (hs : sent = s.handled ++ rest) (hd : .detach ∉ s.handled)
    (hw : wire codec s.handled ++ s.held = received) : Faithful codec sent s received where
  handled := by
    rw [hs, beforeDetach_append hd]
    exact List.prefix_append _ _
  running _ := ⟨rest, hs, hd, hw⟩
  detached h := by
    rw [hr] at h
    cases h
  closed h := by
    rw [hr] at h
    rcases h with h | h <;> cases h

/-- A loop that was cut short is faithful when what it acted on is. -/
theorem Faithful.of_cut {codec : MessageCodec} {sent : List AttachClientMsg}
    {s : AttachStream} {received : List UInt8}
    (hc : s.ended = some .exited ∨ s.ended = some .writeFailed)
    (hh : s.handled <+: beforeDetach sent) : Faithful codec sent s received where
  handled := hh
  running h := by
    rw [h] at hc
    rcases hc with hc | hc <;> cases hc
  detached h := by
    rw [h] at hc
    rcases hc with hc | hc <;> cases hc
  closed h := by
    rcases h with h | h <;>
    · rw [h] at hc
      rcases hc with hc | hc <;> cases hc

/-- The tick branch loses nothing when nothing is held. -/
theorem tickBranch_faithful {codec : MessageCodec} {sent : List AttachClientMsg}
    {s : AttachStream} {received : List UInt8} (hf : Faithful codec sent s received)
    (hr : s.ended = none) (hheld : s.held = []) (hsock : s.socket = []) (d : Drain) :
    Faithful codec sent (tickBranch s d) received := by
  obtain ⟨rest, hs, hd, hw⟩ := hf.running hr
  unfold tickBranch
  dsimp only
  split_ifs
  · exact Faithful.of_cut (.inr rfl) hf.handled
  · -- the loop goes on with a fresh read
    refine Faithful.of_running hr hs hd ?_
    rw [← hw, hheld]
    show wire codec s.handled ++ ([] ++ s.socket) = _
    rw [hsock, List.append_nil]
  · exact Faithful.of_cut (.inl rfl) hf.handled
  · exact Faithful.of_cut (.inr rfl) hf.handled

/-- **One poll of the `select!` keeps the state faithful**, when a tick only comes between
frames. -/
theorem select_faithful {codec : MessageCodec} {sent : List AttachClientMsg}
    (hsize : ∀ m ∈ sent, (codec.encode m).length ≤ maxFrameBytes) {s : AttachStream}
    {received : List UInt8} (hf : Faithful codec sent s received) (hr : s.ended = none)
    (hp : received <+: wire codec sent) {due : Option Drain}
    (hok : TickBetweenFrames s (.select due)) :
    Faithful codec sent (select codec s due) received := by
  obtain ⟨rest, hs, hd, hw⟩ := hf.running hr
  -- what is held is the start of the messages not acted on yet
  have hheld : s.held <+: wire codec rest := by
    rw [hs, wire_append, ← hw] at hp
    exact (List.prefix_append_right_inj _).mp hp
  have hsize' : ∀ m ∈ rest, (codec.encode m).length ≤ maxFrameBytes := fun m hm =>
    hsize m (hs ▸ List.mem_append_right _ hm)
  have hpoll : s.reading.poll s.socket = Reading.fresh.poll s.held := Reading.poll_eq _ _
  unfold select
  rcases poll_prefix hsize' hheld with ⟨m, rest', left, hrest, hbytes, hready⟩ |
    ⟨r, hpend, hbytes, hall⟩
  · rw [hpoll, hready]
    show Faithful codec sent (frameBranch codec s (codec.encode m) left) received
    have hw' : wire codec (s.handled ++ [m]) ++ left = received := by
      rw [← hw, hbytes, wire_append, List.append_assoc]
      simp [wire]
    unfold frameBranch
    rw [codec.decode_encode]
    have hmore : m ≠ .detach → Faithful codec sent
        { s with socket := left, reading := .fresh, handled := s.handled ++ [m] } received := by
      intro hm
      have hsent : sent = (s.handled ++ [m]) ++ rest' := by
        rw [hs, hrest, List.append_assoc]
        rfl
      refine Faithful.of_running hr hsent ?_ hw'
      simpa [hd] using Ne.symm hm
    cases m with
    | input data => exact hmore (by simp)
    | resize rows cols => exact hmore (by simp)
    | detach =>
        have hdone : s.handled = beforeDetach sent := by
          rw [hs, hrest, beforeDetach_append hd]
          exact (List.append_nil _).symm
        exact ⟨hf.handled, (fun h => nomatch h), (fun _ => hdone), (fun h => by
          rcases h with h | h <;> cases h)⟩
  · rw [hpoll, hpend]
    dsimp only
    have hkeep : Faithful codec sent { s with reading := r, socket := [] } received := by
      refine Faithful.of_running hr hs hd ?_
      rw [← hw, ← hbytes]
      show wire codec s.handled ++ (r.bytes ++ []) = _
      rw [List.append_nil]
    split
    · next heof =>
      -- the client has closed its end: everything that will arrive has arrived
      refine ⟨hf.handled, (fun h => nomatch h), fun h => ?_, fun _ => ⟨heof, fun hrecv => ?_⟩⟩
      · cases r <;> cases h
      · rw [hs, wire_append, ← hw, List.append_cancel_left_eq] at hrecv
        rw [hs, hall hrecv, beforeDetach_append hd]
        exact (List.append_nil _).symm
    · cases due with
      | none => exact hkeep
      | some d =>
          have hnone : s.held = [] := hok (by rw [hpoll, hpend]; rfl)
          refine tickBranch_faithful hkeep hr ?_ rfl d
          show r.bytes ++ [] = []
          rw [List.append_nil, hbytes, hnone]

/-- One event keeps the state faithful. -/
theorem step_faithful {codec : MessageCodec} {sent : List AttachClientMsg}
    (hsize : ∀ m ∈ sent, (codec.encode m).length ≤ maxFrameBytes) {s : AttachStream}
    {received : List UInt8} (hf : Faithful codec sent s received) {e : AttachEvent}
    (hp : received ++ newBytes s e <+: wire codec sent) (hok : TickBetweenFrames s e) :
    Faithful codec sent (step codec s e) (received ++ newBytes s e) := by
  cases e with
  | arrive bytes =>
      cases heof : s.eof with
      -- nothing arrives after the end of the stream
      | true => simpa [step, newBytes, heof] using hf
      | false =>
          have hnew : newBytes s (.arrive bytes) = bytes := by simp [newBytes, heof]
          have hstep : step codec s (.arrive bytes) = { s with socket := s.socket ++ bytes } := by
            simp [step, heof]
          rw [hnew, hstep]
          refine ⟨hf.handled, fun hr => ?_, hf.detached, fun hc => ?_⟩
          · obtain ⟨rest, hs, hd, hw⟩ := hf.running hr
            refine ⟨rest, hs, hd, ?_⟩
            rw [← hw, List.append_assoc]
            show _ ++ (s.reading.bytes ++ (s.socket ++ bytes)) =
              _ ++ (s.reading.bytes ++ s.socket ++ bytes)
            rw [List.append_assoc]
          · have htrue := (hf.closed hc).1
            rw [heof] at htrue
            cases htrue
  | close =>
      show Faithful codec sent { s with eof := true } (received ++ [])
      rw [List.append_nil]
      exact ⟨hf.handled, hf.running, hf.detached, fun hc => ⟨rfl, (hf.closed hc).2⟩⟩
  | select due =>
      show Faithful codec sent (match s.ended with | some _ => s | none => select codec s due)
        (received ++ [])
      rw [List.append_nil]
      split
      · exact hf
      · next hr => exact select_faithful hsize hf hr ((List.append_nil received) ▸ hp) hok

/-- A run keeps the state faithful, by induction on its events. -/
theorem run_faithful {codec : MessageCodec} {sent : List AttachClientMsg}
    (hsize : ∀ m ∈ sent, (codec.encode m).length ≤ maxFrameBytes) {es : List AttachEvent} :
    ∀ {s : AttachStream} {received : List UInt8}, Faithful codec sent s received →
      received ++ stillToCome s es <+: wire codec sent →
      Run.Allowed (step codec) TickBetweenFrames s es →
      Faithful codec sent (Run.run (step codec) s es) (received ++ stillToCome s es) := by
  induction es with
  | nil =>
      intro s received hf hp ha
      have hnil : stillToCome s [] = [] := by simp [stillToCome, arrivals]
      rw [hnil, List.append_nil]
      exact hf
  | cons e es ih =>
      intro s received hf hp ha
      rw [stillToCome_cons codec, ← List.append_assoc] at hp ⊢
      have hhead : received ++ newBytes s e <+: wire codec sent :=
        (List.prefix_append _ _).trans hp
      exact ih (step_faithful hsize hf hhead ha.1) hp ha.2

/-- Where everything arrived and nothing is left to read, a faithful loop has acted on everything. -/
theorem Faithful.settled {codec : MessageCodec} {sent : List AttachClientMsg}
    (hsize : ∀ m ∈ sent, (codec.encode m).length ≤ maxFrameBytes) {s : AttachStream}
    (hf : Faithful codec sent s (wire codec sent)) (hdrained : s.ended = none → s.socket = [])
    (hexit : s.ended ≠ some .exited) (hwrite : s.ended ≠ some .writeFailed) :
    s.handled = beforeDetach sent := by
  cases hend : s.ended with
  | none =>
      obtain ⟨rest, hs, hd, hw⟩ := hf.running hend
      have hheld : s.reading.bytes = wire codec rest := by
        have hw' : wire codec s.handled ++ s.held = wire codec s.handled ++ wire codec rest := by
          rw [hw, ← wire_append, ← hs]
        rw [← List.append_cancel_left hw', held, hdrained hend, List.append_nil]
      have hsize' : ∀ m ∈ rest, (codec.encode m).length ≤ maxFrameBytes := fun m hm =>
        hsize m (hs ▸ List.mem_append_right _ hm)
      -- what a read holds is never a whole frame, so it holds nothing
      have hpend := Reading.poll_bytes s.reading
      have hpre : s.reading.bytes <+: wire codec rest := ⟨[], by rw [List.append_nil, hheld]⟩
      rcases poll_prefix hsize' hpre with ⟨m, rest', left, -, -, hready⟩ | ⟨r, -, -, hempty⟩
      · rw [hready] at hpend
        cases hpend
      · rw [hs, hempty hheld, beforeDetach_append hd]
        exact (List.append_nil _).symm
  | some cause =>
      cases cause with
      | detached => exact hf.detached hend
      | disconnected => exact (hf.closed (.inl hend)).2 rfl
      | readFailed => exact (hf.closed (.inr hend)).2 rfl
      | exited => exact absurd hend hexit
      | writeFailed => exact absurd hend hwrite

/-- **Attach input is delivered exactly as long as no tick comes in the middle of a frame.** -/
theorem attach_delivers (codec : MessageCodec) (sent : List AttachClientMsg)
    (hsize : ∀ m ∈ sent, (codec.encode m).length ≤ maxFrameBytes) (es : List AttachEvent)
    (harr : arrivals es <+: wire codec sent)
    (hticks : Run.Allowed (step codec) TickBetweenFrames begin es) :
    DeliversExactly codec sent es := by
  have hf : Faithful codec sent (Run.run (step codec) begin es) (arrivals es) :=
    run_faithful hsize (Faithful.begin codec sent) harr hticks
  refine ⟨hf.handled, hf.detached, fun hall => ?_⟩
  rw [hall] at hf
  exact hf.settled hsize

/-- A keystroke, with a tick before its first byte and after its last. -/
theorem attach_delivers_keystroke :
    DeliversExactly clientJson [.input [97], .detach]
      [.select (some ⟨[104, 105], true, true⟩),
        .arrive (writeFrame (clientJson.encode (.input [97]))), .select none,
        .select (some ⟨[], true, true⟩), .arrive (writeFrame (clientJson.encode .detach)),
        .select none] := by
  refine attach_delivers clientJson _ ?_ _ ?_ ?_
  · decide +kernel
  · decide +kernel
  · decide +kernel

/-- **A tick between a header and its body loses the header**, and the body is read as one. -/
theorem tick_loses_header :
    ¬ DeliversExactly clientJson [.input [97]]
      [.arrive ((writeFrame (clientJson.encode (.input [97]))).take 4),
        .select (some ⟨[], true, true⟩),
        .arrive (clientJson.encode (.input [97])), .select none] := by
  decide +kernel

end MemMux
