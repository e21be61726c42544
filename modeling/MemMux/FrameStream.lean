/-
MemMux/FrameStream.lean

Frames on a stream that ends (`read_frame` in `memmuxd/src/frame.rs`, `recv_frame` in
`memmux/src/pane.rs`, `handle_conn` in `memmuxd/src/server.rs`).

Writer and reader disagree twice.  The writer takes bodies of any length, the reader refuses those
above the maximum (`readsBack_iff`).  And `read_exact` reports the end of the stream in the same way
whether it found nothing or part of a header, so that a stream that was cut there ends cleanly
(`honest_iff`).
-/
import MemMux.Frame

namespace MemMux

/-! ### One call -/

/-- What a call returns, with the bytes it leaves in the stream. -/
inductive FrameRead
  /-- `Ok(Some(body))` -/
  | frame (body rest : List UInt8)
  /-- `Ok(None)` -/
  | eof
  /-- the length is not accepted -/
  | tooLarge (len : Nat)
  /-- the stream ended inside the body -/
  | truncated
  deriving DecidableEq, Repr

/-- `Err(_)`. -/
def FrameRead.isError : FrameRead → Bool
  | .frame _ _ | .eof => false
  | .tooLarge _ | .truncated => true

/-- `read_exact`: `none` for `UnexpectedEof`, whatever was found before the end. -/
def readExact (n : Nat) (stream : List UInt8) : Option (List UInt8 × List UInt8) :=
  if stream.length < n then none else some (stream.take n, stream.drop n)

/-- A frame of an accepted length. -/
def readFrameWith (accepted : Nat → Bool) (stream : List UInt8) : FrameRead :=
  match readExact 4 stream with
  | none => .eof
  | some (header, rest) =>
      if !accepted (ofBE header) then .tooLarge (ofBE header)
      else
        match readExact (ofBE header) rest with
        | none => .truncated
        | some (body, rest) => .frame body rest

/-- `read_frame` of the server. -/
def readFrame : List UInt8 → FrameRead := readFrameWith (· ≤ maxFrameBytes)

/-- `recv_frame` of the pane, and `read_frame` of the client: any length is accepted. -/
def recvFrame : List UInt8 → FrameRead := readFrameWith fun _ => true

/-- The bodies that a loop of calls gets, and the call that ends it; `n` calls at most. -/
def readFrames (read : List UInt8 → FrameRead) :
    Nat → List UInt8 → List (List UInt8) × Option FrameRead
  | 0, _ => ([], none)
  | n + 1, stream =>
      match read stream with
      | .frame body rest => ((readFrames read n rest).1.cons body, (readFrames read n rest).2)
      | ending => ([], some ending)

/-- The polled `read_frame`, when nothing more arrives, is the call. -/
theorem readFrame_eq_poll (stream : List UInt8) :
    readFrame stream = match Reading.fresh.poll stream with
      | .ready body rest => .frame body rest
      | .tooLarge len => .tooLarge len
      | .pending (.header ..) => .eof
      | .pending (.body ..) => .truncated := by
  unfold readFrame readFrameWith readExact Reading.fresh Reading.poll
  simp only [List.nil_append]
  by_cases hshort : stream.length < 4
  · simp only [hshort, if_true, dite_true]
  · simp only [hshort, if_false, dite_false]
    by_cases hlen : ofBE (stream.take 4) ≤ maxFrameBytes
    · simp only [hlen, decide_true, Bool.not_true, Bool.false_eq_true, if_false, dite_true,
        Reading.pollBody]
      by_cases hbody : (stream.drop 4).length < ofBE (stream.take 4)
      · simp only [hbody, if_true, dite_true]
      · simp only [hbody, if_false, dite_false]
    · simp only [hlen, decide_false, Bool.not_false, if_true, dite_false]

/-! ### Writing and reading back -/

/-- What a writer sends. -/
def framesOf (bodies : List (List UInt8)) : List UInt8 := bodies.flatMap writeFrame

/-- **The round trip**: the bodies come back in order, and then a clean end. -/
def ReadsBack (bodies : List (List UInt8)) : Prop :=
  ∀ n, bodies.length < n → readFrames readFrame n (framesOf bodies) = (bodies, some .eof)

/-- The prefix holds the length modulo `2^32`. -/
theorem ofBE_toBE_mod (n : Nat) : ofBE (toBE n) = n % 2 ^ 32 := by
  simp only [ofBE, toBE, List.foldl_cons, List.foldl_nil, UInt8.toNat_ofNat']
  omega

theorem readExact_append {n : Nat} {part rest : List UInt8} (h : part.length = n) :
    readExact n (part ++ rest) = some (part, rest) := by
  subst h
  unfold readExact
  rw [if_neg (by rw [List.length_append]; omega), List.take_left, List.drop_left]

/-- A frame, as it is read. -/
theorem readFrameWith_writeFrame (accepted : Nat → Bool) (body rest : List UInt8) :
    readFrameWith accepted (writeFrame body ++ rest)
      = if accepted (body.length % 2 ^ 32) then
          .frame ((body ++ rest).take (body.length % 2 ^ 32))
            ((body ++ rest).drop (body.length % 2 ^ 32))
        else .tooLarge (body.length % 2 ^ 32) := by
  unfold readFrameWith
  rw [writeFrame, List.append_assoc, readExact_append (length_toBE _)]
  simp only [ofBE_toBE_mod]
  cases accepted (body.length % 2 ^ 32) with
  | false => rfl
  | true =>
      have hlong : ¬ (body ++ rest).length < body.length % 2 ^ 32 := by
        have := Nat.mod_le body.length (2 ^ 32)
        rw [List.length_append]
        omega
      simp only [readExact, hlong, if_false, if_true, Bool.not_true, Bool.false_eq_true]

/-- A body that the length prefix can carry, of an accepted length, comes back. -/
theorem readFrameWith_of_accepted {accepted : Nat → Bool} {body : List UInt8}
    (hlen : body.length < 2 ^ 32) (ha : accepted body.length = true) (rest : List UInt8) :
    readFrameWith accepted (writeFrame body ++ rest) = .frame body rest := by
  rw [readFrameWith_writeFrame, Nat.mod_eq_of_lt hlen, if_pos ha, List.take_left, List.drop_left]

/-- A body that comes back was not larger than accepted. -/
theorem le_maxFrameBytes_of_readFrame {body rest rest' : List UInt8}
    (h : readFrame (writeFrame body ++ rest) = .frame body rest') :
    body.length ≤ maxFrameBytes := by
  unfold readFrame at h
  rw [readFrameWith_writeFrame] at h
  split at h
  · next ha =>
    have hlen := congrArg List.length (FrameRead.frame.inj h).1
    have hle : body.length % 2 ^ 32 ≤ maxFrameBytes := of_decide_eq_true ha
    have := Nat.mod_le body.length (2 ^ 32)
    rw [List.length_take, List.length_append] at hlen
    omega
  · cases h

/-- A body within the limit comes back, and the reader goes on behind it. -/
theorem readFrame_of_le {body : List UInt8} (hle : body.length ≤ maxFrameBytes)
    (rest : List UInt8) :
    readFrame (writeFrame body ++ rest) = .frame body rest :=
  readFrameWith_of_accepted (lt_of_le_maxFrameBytes hle) (decide_eq_true hle) rest

/-- A loop that gets a body first got a frame. -/
theorem readFrame_of_readFrames {read : List UInt8 → FrameRead} {n : Nat} {stream body : List UInt8}
    {bodies : List (List UInt8)} {ending : Option FrameRead}
    (h : readFrames read (n + 1) stream = (body :: bodies, ending)) :
    ∃ rest, read stream = .frame body rest ∧ readFrames read n rest = (bodies, ending) := by
  rw [readFrames] at h
  split at h
  · next body' rest hread =>
    obtain ⟨hcons, hend⟩ := Prod.mk.inj h
    obtain ⟨rfl, hbodies⟩ := List.cons.inj hcons
    exact ⟨rest, hread, Prod.ext hbodies hend⟩
  · cases (Prod.mk.inj h).1

theorem readFrames_of_frame {read : List UInt8 → FrameRead} {stream body rest : List UInt8}
    (h : read stream = .frame body rest) (n : Nat) :
    readFrames read (n + 1) stream
      = (body :: (readFrames read n rest).1, (readFrames read n rest).2) := by
  rw [readFrames, h]

theorem readsBack_nil : ReadsBack [] := by
  intro n hn
  cases n with
  | zero => omega
  | succ n => rfl

theorem readsBack_cons (body : List UInt8) (bodies : List (List UInt8)) :
    ReadsBack (body :: bodies) ↔ body.length ≤ maxFrameBytes ∧ ReadsBack bodies := by
  have hsplit : framesOf (body :: bodies) = writeFrame body ++ framesOf bodies := rfl
  unfold ReadsBack
  rw [hsplit]
  constructor
  · intro h
    obtain ⟨_, hread, -⟩ := readFrame_of_readFrames (h (bodies.length + 2) (by simp))
    have hle := le_maxFrameBytes_of_readFrame hread
    refine ⟨hle, fun n hn => ?_⟩
    obtain ⟨rest, hread, hrest⟩ := readFrame_of_readFrames (h (n + 1) (by simpa using hn))
    rw [readFrame_of_le hle] at hread
    rw [(FrameRead.frame.inj hread).2]
    exact hrest
  · rintro ⟨hle, hrest⟩ n hn
    cases n with
    | zero => omega
    | succ n => rw [readFrames_of_frame (readFrame_of_le hle _), hrest n (by simpa using hn)]

/-- **What was written comes back exactly if no body is larger than accepted.** -/
theorem readsBack_iff (bodies : List (List UInt8)) :
    ReadsBack bodies ↔ ∀ b ∈ bodies, b.length ≤ maxFrameBytes := by
  induction bodies with
  | nil => exact iff_of_true readsBack_nil (by simp)
  | cons body bodies ih => rw [readsBack_cons, ih, List.forall_mem_cons]

/-- **A body of 16 MiB and one byte is written, and not read.** -/
theorem large_body_not_read : ¬ ReadsBack [List.replicate (16777216 + 1) 0] := by
  intro h
  have hle := ((readsBack_cons _ _).mp h).1
  rw [List.length_replicate] at hle
  unfold maxFrameBytes at hle
  omega

/-! ### Streams that end -/

/-- Part of a frame: what is left when a stream is cut inside of it. -/
def PartOfFrame (stream : List UInt8) : Prop :=
  stream ≠ [] ∧ ∃ body : List UInt8, body.length < 2 ^ 32 ∧ stream <+: writeFrame body ∧
    stream ≠ writeFrame body

/-- **An honest end**: clean exactly if nothing was left; and a stream that ends with part of a
frame, whatever frames came before, yields an error. -/
def Honest (read : List UInt8 → FrameRead) (stream : List UInt8) : Prop :=
  (read stream = .eof ↔ stream = []) ∧
    (PartOfFrame stream → ∀ bodies : List (List UInt8), (∀ b ∈ bodies, b.length ≤ maxFrameBytes) →
      ∀ n, bodies.length < n → ∃ ending, ending.isError = true ∧
        readFrames read n (framesOf bodies ++ stream) = (bodies, some ending))

/-- Less than a header ends the stream cleanly, and nothing else does. -/
theorem readFrameWith_eq_eof {accepted : Nat → Bool} {stream : List UInt8} :
    readFrameWith accepted stream = .eof ↔ stream.length < 4 := by
  unfold readFrameWith readExact
  by_cases hshort : stream.length < 4
  · simp only [hshort, if_true]
  · simp only [hshort, if_false, iff_false]
    split
    · exact nofun
    · split <;> exact nofun

/-- A stream that is cut behind the header of a frame ends with an error. -/
theorem isError_of_cut {accepted : Nat → Bool} {body stream : List UInt8}
    (hlen : body.length < 2 ^ 32) (hpart : stream <+: writeFrame body)
    (hne : stream ≠ writeFrame body)
    (hheader : 4 ≤ stream.length) : (readFrameWith accepted stream).isError = true := by
  obtain ⟨tail, htail⟩ := hpart
  have hcut : stream.length < 4 + body.length := by
    have hpos : 0 < tail.length := by
      refine List.length_pos_iff.mpr ?_
      rintro rfl
      exact hne (by rw [← htail, List.append_nil])
    have htotal := congrArg List.length htail
    rw [writeFrame, List.length_append, List.length_append, length_toBE] at htotal
    omega
  have htake : stream.take 4 = toBE body.length := by
    have h4 := congrArg (List.take 4) htail
    rw [List.take_append_of_le_length hheader, writeFrame] at h4
    exact h4.trans (List.take_left' (length_toBE _))
  have hrest : (stream.drop 4).length < body.length := by
    rw [List.length_drop]
    omega
  unfold readFrameWith
  simp only [readExact, Nat.not_lt.mpr hheader, if_false, htake, ofBE_toBE hlen, hrest, if_true]
  split <;> rfl

/-- A loop reads the frames it finds, and ends with what is behind them. -/
theorem readFrames_framesOf {accepted : Nat → Bool} {bodies : List (List UInt8)}
    (hbodies : ∀ b ∈ bodies, b.length < 2 ^ 32 ∧ accepted b.length = true) {stream : List UInt8}
    {ending : FrameRead} (hread : readFrameWith accepted stream = ending)
    (hend : ∀ body rest, ending ≠ .frame body rest) (n : Nat) (hn : bodies.length < n) :
    readFrames (readFrameWith accepted) n (framesOf bodies ++ stream) = (bodies, some ending) := by
  induction bodies generalizing n with
  | nil =>
      obtain ⟨n, rfl⟩ := Nat.exists_eq_succ_of_ne_zero (Nat.ne_of_gt hn)
      show readFrames (readFrameWith accepted) (n + 1) stream = _
      rw [readFrames, hread]
      split
      · next body rest => exact absurd rfl (hend body rest)
      · rfl
  | cons body bodies ih =>
      have hpos : 0 < n := Nat.lt_of_le_of_lt (Nat.zero_le _) hn
      obtain ⟨n, rfl⟩ := Nat.exists_eq_succ_of_ne_zero (Nat.ne_of_gt hpos)
      obtain ⟨⟨hlen, ha⟩, hrest⟩ := List.forall_mem_cons.mp hbodies
      have hsplit : framesOf (body :: bodies) ++ stream
          = writeFrame body ++ (framesOf bodies ++ stream) := List.append_assoc _ _ _
      rw [hsplit, readFrames_of_frame (readFrameWith_of_accepted hlen ha _),
        ih hrest n (Nat.lt_of_succ_lt_succ hn)]

/-- **The end of a stream is told honestly exactly if no one to three bytes are left.** -/
theorem honest_iff {accepted : Nat → Bool}
    (ha : ∀ n, n ≤ maxFrameBytes → accepted n = true) (stream : List UInt8) :
    Honest (readFrameWith accepted) stream ↔ stream.length = 0 ∨ 4 ≤ stream.length := by
  constructor
  · rintro ⟨heof, -⟩
    rw [readFrameWith_eq_eof, ← List.length_eq_zero_iff] at heof
    omega
  · intro hlen
    constructor
    · rw [readFrameWith_eq_eof, ← List.length_eq_zero_iff]
      omega
    · rintro ⟨hne, body, hbody, hpart, hcut⟩ bodies hbodies n hn
      have hheader : 4 ≤ stream.length :=
        hlen.resolve_left fun h => hne (List.length_eq_zero_iff.mp h)
      have herr := @isError_of_cut accepted body stream hbody hpart hcut hheader
      refine ⟨_, herr, readFrames_framesOf (fun b hb => ?_) rfl (fun body rest h => ?_) n hn⟩
      · exact ⟨lt_of_le_maxFrameBytes (hbodies b hb), ha _ (hbodies b hb)⟩
      · rw [h] at herr
        cases herr

/-- **Both decoders tell the end of a stream honestly exactly if no one to three bytes are
left.** -/
theorem truncation_seen_iff (stream : List UInt8) :
    (Honest readFrame stream ↔ stream.length = 0 ∨ 4 ≤ stream.length) ∧
      (Honest recvFrame stream ↔ stream.length = 0 ∨ 4 ≤ stream.length) :=
  ⟨honest_iff (fun _ h => decide_eq_true h) stream, honest_iff (fun _ _ => rfl) stream⟩

/-- **A stream cut inside a header ends cleanly.** -/
theorem cut_header_ends_cleanly :
    readFrame [0] = .eof ∧ recvFrame [0] = .eof ∧
      ¬ Honest readFrame [0] ∧ ¬ Honest recvFrame [0] := by
  have hread : readFrame [0] = .eof := by decide
  have hrecv : recvFrame [0] = .eof := by decide
  exact ⟨hread, hrecv, fun h => absurd (h.1.mp hread) (by decide),
    fun h => absurd (h.1.mp hrecv) (by decide)⟩

end MemMux
