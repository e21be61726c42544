/-
MemMux/Frame.lean

The length-prefixed frame codec (`memmuxd/src/frame.rs`): a `u32` big-endian length and a body.

`read_frame` is a future that is polled whenever bytes arrive, and keeps what it has consumed so
far.  `Reading` is that partial state; its constructors carry the bounds that hold while it
waits.  How the bytes were cut into arrivals makes no difference (`Reading.poll_eq`): polling a
half-finished read is polling a fresh one on everything it has consumed so far, followed
by what arrives.
-/
import Mathlib.Algebra.Group.Nat.Defs
import Mathlib.Data.List.Basic
import Mathlib.Tactic.Common

namespace MemMux

/-! ### Lengths -/

/-- Maximum accepted frame size (16 MiB). -/
def maxFrameBytes : Nat := 16 * 1024 * 1024

/-- `(n as u32).to_be_bytes()`. -/
def toBE (n : Nat) : List UInt8 :=
  [UInt8.ofNat (n / 2 ^ 24), UInt8.ofNat (n / 2 ^ 16), UInt8.ofNat (n / 2 ^ 8), UInt8.ofNat n]

/-- `u32::from_be_bytes`. -/
def ofBE (bytes : List UInt8) : Nat := bytes.foldl (fun n b => n * 256 + b.toNat) 0

@[simp] theorem length_toBE (n : Nat) : (toBE n).length = 4 := rfl

theorem ofBE_toBE {n : Nat} (h : n < 2 ^ 32) : ofBE (toBE n) = n := by
  simp only [ofBE, toBE, List.foldl_cons, List.foldl_nil, UInt8.toNat_ofNat']
  omega

theorem lt_of_le_maxFrameBytes {n : Nat} (h : n ≤ maxFrameBytes) : n < 2 ^ 32 := by
  unfold maxFrameBytes at h
  omega

/-! ### Writing and reading -/

/-- `write_frame`, and `send_frame` of the client: the length, then the body. -/
def writeFrame (body : List UInt8) : List UInt8 := toBE body.length ++ body

/-- What a `read_frame` future has consumed while it waits for more. -/
inductive Reading
  /-- part of the header -/
  | header (got : List UInt8) (h : got.length < 4)
  /-- the header, which announced `len` bytes, and part of the body -/
  | body (len : Nat) (got : List UInt8) (hlen : len ≤ maxFrameBytes) (h : got.length < len)

/-- The outcome of polling the future. -/
inductive Poll
  /-- a frame, and what is left in the socket -/
  | ready (frame rest : List UInt8)
  /-- the frame is larger than accepted -/
  | tooLarge (len : Nat)
  /-- everything was consumed, and it waits for more -/
  | pending (r : Reading)

/-- The future is not ready. -/
def Poll.waits : Poll → Bool
  | .pending _ => true
  | _ => false

namespace Reading

/-- A future that has not consumed anything. -/
def fresh : Reading := .header [] (by decide)

/-- The bytes the future has taken from the socket. -/
def bytes : Reading → List UInt8
  | header got _ => got
  | body len got _ _ => toBE len ++ got

@[simp] theorem bytes_fresh : fresh.bytes = [] := rfl

/-- `read_exact` on the body. -/
def pollBody (len : Nat) (hlen : len ≤ maxFrameBytes) (got : List UInt8) : Poll :=
  if h : got.length < len then .pending (.body len got hlen h)
  else .ready (got.take len) (got.drop len)

/-- Poll the future on what is in the socket. -/
def poll : Reading → List UInt8 → Poll
  | header got _, socket =>
      if h : (got ++ socket).length < 4 then .pending (.header (got ++ socket) h)
      else if hlen : ofBE ((got ++ socket).take 4) ≤ maxFrameBytes then
        pollBody _ hlen ((got ++ socket).drop 4)
      else .tooLarge (ofBE ((got ++ socket).take 4))
  | body len got hlen _, socket => pollBody len hlen (got ++ socket)

/-- **Polling does not depend on how the bytes were cut.** -/
theorem poll_eq (r : Reading) (socket : List UInt8) :
    r.poll socket = fresh.poll (r.bytes ++ socket) := by
  cases r with
  | header got h => rfl
  | body len got hlen h =>
      have htake : (toBE len ++ got ++ socket).take 4 = toBE len := by
        rw [List.append_assoc]
        exact List.take_left' rfl
      have hdrop : (toBE len ++ got ++ socket).drop 4 = got ++ socket := by
        rw [List.append_assoc]
        exact List.drop_left' rfl
      have hlong : ¬ (toBE len ++ got ++ socket).length < 4 := by
        simp only [List.length_append, length_toBE]
        omega
      have hval : ofBE (toBE len) = len := ofBE_toBE (lt_of_le_maxFrameBytes hlen)
      show pollBody len hlen (got ++ socket) = fresh.poll (toBE len ++ got ++ socket)
      unfold poll fresh
      simp only [List.nil_append, hlong, dite_false, htake, hdrop, hval, hlen, dite_true]

/-- Without new bytes the future stays as it is. -/
theorem poll_nil (r : Reading) : r.poll [] = .pending r := by
  cases r with
  | header got h => simp [poll, h]
  | body len got hlen h => simp [poll, pollBody, h]

/-- What a future holds is not a whole frame. -/
theorem poll_bytes (r : Reading) : fresh.poll r.bytes = .pending r := by
  have h := poll_eq r []
  rwa [poll_nil, List.append_nil, eq_comm] at h

/-- A whole frame is read. -/
theorem poll_writeFrame {body : List UInt8} (hb : body.length ≤ maxFrameBytes)
    (rest : List UInt8) : fresh.poll (writeFrame body ++ rest) = .ready body rest := by
  have htake : (writeFrame body ++ rest).take 4 = toBE body.length := by
    rw [writeFrame, List.append_assoc]
    exact List.take_left' rfl
  have hdrop : (writeFrame body ++ rest).drop 4 = body ++ rest := by
    rw [writeFrame, List.append_assoc]
    exact List.drop_left' rfl
  have hlong : ¬ (writeFrame body ++ rest).length < 4 := by
    simp only [writeFrame, List.length_append, length_toBE]
    omega
  have hval : ofBE (toBE body.length) = body.length := ofBE_toBE (lt_of_le_maxFrameBytes hb)
  unfold poll fresh
  simp only [List.nil_append, hlong, dite_false, htake, hdrop, hval, hb, dite_true, pollBody]
  simp

/-- Part of a frame leaves the future waiting, with everything consumed. -/
theorem poll_part {body part : List UInt8} (hb : body.length ≤ maxFrameBytes)
    (hp : part <+: writeFrame body) (hne : part ≠ writeFrame body) :
    ∃ r, fresh.poll part = .pending r ∧ r.bytes = part := by
  obtain ⟨tail, ht⟩ := hp
  have hlt : part.length < (writeFrame body).length := by
    rw [← ht, List.length_append]
    have htail : tail ≠ [] := by
      rintro rfl
      exact hne (by rw [← ht, List.append_nil])
    have := List.length_pos_iff.mpr htail
    omega
  by_cases hshort : part.length < 4
  · refine ⟨.header part hshort, ?_, rfl⟩
    unfold poll fresh
    simp only [List.nil_append, hshort, dite_true]
  · -- the header is complete, so the future is inside the body
    have htake : part.take 4 = toBE body.length := by
      have h4 := congrArg (List.take 4) ht
      rw [writeFrame, List.take_append_of_le_length (by omega)] at h4
      exact h4.trans (List.take_left' rfl)
    have hval : ofBE (toBE body.length) = body.length := ofBE_toBE (lt_of_le_maxFrameBytes hb)
    have hgot : (part.drop 4).length < body.length := by
      simp only [writeFrame, List.length_append, length_toBE] at hlt
      rw [List.length_drop]
      omega
    refine ⟨.body body.length (part.drop 4) hb hgot, ?_, ?_⟩
    · unfold poll fresh
      simp only [List.nil_append, hshort, dite_false, htake, hval, hb, dite_true, pollBody, hgot]
    · show toBE body.length ++ part.drop 4 = part
      rw [← htake]
      exact List.take_append_drop 4 part

end Reading

end MemMux
