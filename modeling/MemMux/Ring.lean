/-
MemMux/Ring.lean

The bounded line buffer (`memmux-pty/src/line.rs`, `ring.rs`).

Only a recent window of lines stays resident; what a cap drives out is kept aside until it
is drained.  A line equal to the one before it is folded into a counted run.

A Rust string is a list of characters here and its length is the number of bytes of its UTF-8
encoding; `usize` and `u64` counters are natural numbers.
-/
import Mathlib.Algebra.BigOperators.Group.List.Basic
import Mathlib.Algebra.GroupWithZero.Nat
import Mathlib.Algebra.Order.BigOperators.Group.List
import Mathlib.Tactic.Common
import MemMux.Run

namespace MemMux

/-- `str::len`. -/
def byteLen (text : List Char) : Nat := (text.map Char.utf8Size).sum

@[simp] theorem byteLen_append (s t : List Char) : byteLen (s ++ t) = byteLen s + byteLen t := by
  simp [byteLen]

/-! ### Stored lines -/

/-- Fixed per-entry bookkeeping overhead. -/
def lineOverheadBytes : Nat := 24

/-- One logical line held in the bounded buffer. -/
inductive StoredLine
  /-- a normal line of text -/
  | text (text : List Char)
  /-- a run of `count` identical lines collapsed to one entry -/
  | repeated (text : List Char) (count : Nat)
  /-- the head of a line over the size cap; the rest is in an artifact -/
  | truncated (head : List Char) (fullBytes : Nat) (artifactRef : String)
  deriving DecidableEq, Repr

namespace StoredLine

/-- Approximate resident memory this entry occupies. -/
def residentBytes : StoredLine → Nat
  | text t => byteLen t + lineOverheadBytes
  | repeated t _ => byteLen t + lineOverheadBytes
  | truncated head _ artifactRef => byteLen head + artifactRef.utf8ByteSize + lineOverheadBytes

/-- How many terminal rows this entry represents. -/
def renderedRows : StoredLine → Nat
  | text _ => 1
  | repeated _ count => count
  | truncated _ _ _ => 1

/-- The text used to compare two lines for collapse purposes; truncated lines never collapse. -/
def collapseKey : StoredLine → Option (List Char)
  | text t => some t
  | repeated t _ => some t
  | truncated _ _ _ => none

/-- The run that `last` becomes when one more line with the same key follows it. -/
def fold : StoredLine → StoredLine
  | text t => repeated t 2
  | repeated t count => repeated t (count + 1)
  | truncated head full ref => truncated head full ref

/-- The lines an entry stands for, one by one. -/
def unroll : StoredLine → List StoredLine
  | text t => [text t]
  | repeated t count => List.replicate count (text t)
  | truncated head full ref => [truncated head full ref]

@[simp] theorem residentBytes_fold (l : StoredLine) : l.fold.residentBytes = l.residentBytes := by
  cases l <;> rfl

@[simp] theorem length_unroll (l : StoredLine) : l.unroll.length = l.renderedRows := by
  cases l <;> simp [unroll, renderedRows]

/-- **A folded entry stands for one line more.** -/
theorem unroll_fold {last line : StoredLine} {key : List Char} (hlast : last.collapseKey = some key)
    (hline : line = text key) : last.fold.unroll = last.unroll ++ line.unroll := by
  subst hline
  cases last with
  | text t =>
      obtain rfl := Option.some.inj hlast
      rfl
  | repeated t count =>
      obtain rfl := Option.some.inj hlast
      exact List.replicate_succ'
  | truncated head full ref => cases hlast

end StoredLine

/-! ### The ring -/

/-- Caps governing the resident buffer. -/
structure RingCaps where
  maxLines : Nat
  maxBytes : Nat
  deriving DecidableEq, Repr

/-- `RingCaps::default()`. -/
def RingCaps.default : RingCaps := ⟨4096, 8 * 1024 * 1024⟩

/-- A bounded, collapse-aware buffer of terminal lines, oldest first. -/
structure BoundedBuffer where
  caps : RingCaps
  lines : List StoredLine
  residentBytes : Nat
  totalIngested : Nat
  evicted : List StoredLine
  deriving DecidableEq, Repr

namespace BoundedBuffer

def new (caps : RingCaps) : BoundedBuffer := ⟨caps, [], 0, 0, []⟩

/-- Whether one of the caps is exceeded. -/
def overCaps (b : BoundedBuffer) : Bool :=
  b.caps.maxLines < b.lines.length || (b.caps.maxBytes < b.residentBytes && 1 < b.lines.length)

/-- Evict the oldest entry. -/
def popFront (b : BoundedBuffer) : BoundedBuffer :=
  match b.lines with
  | [] => b
  | old :: rest =>
      { b with
          lines := rest
          residentBytes := b.residentBytes - old.residentBytes
          evicted := b.evicted ++ [old] }

/-- At most `n` rounds of the eviction loop. -/
def evictWhile : Nat → BoundedBuffer → BoundedBuffer
  | 0, b => b
  | n + 1, b => if b.overCaps then evictWhile n b.popFront else b

/-- Evict oldest entries until both caps are satisfied; every round takes one entry. -/
def enforceCaps (b : BoundedBuffer) : BoundedBuffer := evictWhile b.lines.length b

/-- Add an entry of its own. -/
def append (line : StoredLine) (b : BoundedBuffer) : BoundedBuffer :=
  enforceCaps { b with
    residentBytes := b.residentBytes + line.residentBytes, lines := b.lines ++ [line] }

/-- Push an already-prepared line. -/
def push (line : StoredLine) (b : BoundedBuffer) : BoundedBuffer :=
  let b := { b with totalIngested := b.totalIngested + 1 }
  match b.lines.getLast?, line.collapseKey with
  | some last, some key =>
      if last.collapseKey = some key then { b with lines := b.lines.dropLast ++ [last.fold] }
      else b.append line
  | _, _ => b.append line

/-- Take the entries evicted since the last drain. -/
def drainEvicted (b : BoundedBuffer) : List StoredLine × BoundedBuffer :=
  (b.evicted, { b with evicted := [] })

/-- Everything that was pushed since the last drain or is still resident, in order. -/
def entries (b : BoundedBuffer) : List StoredLine := b.evicted ++ b.lines

/-! ### Eviction -/

theorem popFront_entries (b : BoundedBuffer) : b.popFront.entries = b.entries := by
  unfold popFront entries
  cases h : b.lines <;> simp [h]

/-- Eviction keeps every entry, in order. -/
theorem evictWhile_entries (n : Nat) (b : BoundedBuffer) : (evictWhile n b).entries = b.entries := by
  induction n generalizing b with
  | zero => rfl
  | succ n ih =>
      rw [evictWhile]
      split_ifs
      · rw [ih, popFront_entries]
      · rfl

/-- What every eviction keeps, the eviction loop keeps. -/
theorem evictWhile_keeps {P : BoundedBuffer → Prop} (hpop : ∀ b, P b → P b.popFront) (n : Nat)
    {b : BoundedBuffer} (h : P b) : P (evictWhile n b) := by
  induction n generalizing b with
  | zero => exact h
  | succ n ih =>
      rw [evictWhile]
      split_ifs
      · exact ih (hpop b h)
      · exact h

/-- **The loop stops with both caps satisfied.** -/
theorem evictWhile_over {n : Nat} {b : BoundedBuffer} (h : b.lines.length ≤ n) :
    (evictWhile n b).overCaps = false := by
  induction n generalizing b with
  | zero =>
      have hnil : b.lines.length = 0 := Nat.le_zero.mp h
      simp [evictWhile, overCaps, hnil]
  | succ n ih =>
      rw [evictWhile]
      split_ifs with hover
      · apply ih
        unfold popFront
        cases hl : b.lines with
        | nil => simp [hl]
        | cons old rest =>
            rw [hl] at h
            exact Nat.le_of_succ_le_succ h
      · exact eq_false_of_ne_true hover

@[simp] theorem entries_append (line : StoredLine) (b : BoundedBuffer) :
    (b.append line).entries = b.entries ++ [line] := by
  rw [append, enforceCaps, evictWhile_entries]
  simp [entries]

/-! ### What a push does -/

/-- **A push folds the line into the last entry or adds one of its own.** -/
theorem push_cases (line : StoredLine) (b : BoundedBuffer) :
    (∃ init last key, b.lines = init ++ [last] ∧ line.collapseKey = some key
      ∧ last.collapseKey = some key
      ∧ push line b
        = { b with totalIngested := b.totalIngested + 1, lines := init ++ [last.fold] })
      ∨ push line b = append line { b with totalIngested := b.totalIngested + 1 } := by
  unfold push
  dsimp only
  split
  · rename_i last key hlast hkey
    split_ifs with heq
    · obtain ⟨init, hinit⟩ := List.getLast?_eq_some_iff.mp hlast
      refine .inl ⟨init, last, key, hinit, hkey, heq, ?_⟩
      rw [hinit, List.dropLast_concat]
    · exact .inr rfl
  · exact .inr rfl

/-- **Pushing a line adds exactly that line**, however it is stored. -/
theorem unroll_push {line : StoredLine} (b : BoundedBuffer)
    (hline : ∀ key, line.collapseKey = some key → line = .text key) :
    (push line b).entries.flatMap StoredLine.unroll
      = b.entries.flatMap StoredLine.unroll ++ line.unroll := by
  rcases push_cases line b with ⟨init, last, key, hinit, hkey, hlast, heq⟩ | heq
  · rw [heq]
    simp [entries, hinit, StoredLine.unroll_fold hlast (hline key hkey)]
  · rw [heq, entries_append]
    simp [entries]

/-! ### The byte count and the caps -/

@[simp] theorem popFront_caps (b : BoundedBuffer) : b.popFront.caps = b.caps := by
  unfold popFront
  split <;> rfl

@[simp] theorem popFront_lines (b : BoundedBuffer) : b.popFront.lines = b.lines.tail := by
  unfold popFront
  cases h : b.lines <;> simp [h]

/-- An eviction takes the first entry, and its bytes are counted no more. -/
theorem popFront_counted {b : BoundedBuffer}
    (h : b.residentBytes = (b.lines.map StoredLine.residentBytes).sum) :
    b.popFront.residentBytes = (b.popFront.lines.map StoredLine.residentBytes).sum := by
  unfold popFront
  cases hl : b.lines with
  | nil =>
      dsimp only
      rw [hl] at h ⊢
      exact h
  | cons old rest =>
      rw [hl, List.map_cons, List.sum_cons] at h
      exact Nat.sub_eq_of_eq_add' h

/-- **A ring in order**: it keeps its caps, its byte count is the sum of its entries' sizes, and
neither cap is exceeded. -/
structure Sound (caps : RingCaps) (b : BoundedBuffer) : Prop where
  caps_eq : b.caps = caps
  counted : b.residentBytes = (b.lines.map StoredLine.residentBytes).sum
  capped : b.overCaps = false

variable {caps : RingCaps} {b : BoundedBuffer}

theorem sound_new (caps : RingCaps) : Sound caps (new caps) := by
  refine ⟨rfl, rfl, ?_⟩
  simp [overCaps, new]

theorem Sound.append (h : Sound caps b) (line : StoredLine) : Sound caps (b.append line) := by
  have hadded : b.residentBytes + line.residentBytes
      = ((b.lines ++ [line]).map StoredLine.residentBytes).sum := by simp [h.counted]
  have hkept := @evictWhile_keeps
    (fun b => b.caps = caps ∧ b.residentBytes = (b.lines.map StoredLine.residentBytes).sum)
    (fun b hb => ⟨(popFront_caps b).trans hb.1, popFront_counted hb.2⟩) (b.lines ++ [line]).length
    { b with residentBytes := b.residentBytes + line.residentBytes, lines := b.lines ++ [line] }
    ⟨h.caps_eq, hadded⟩
  exact ⟨hkept.1, hkept.2, evictWhile_over (Nat.le_refl _)⟩

/-- **A push keeps the ring in order.**  Folding a line into a run takes no memory. -/
theorem Sound.push (h : Sound caps b) (line : StoredLine) : Sound caps (b.push line) := by
  rcases push_cases line b with ⟨init, last, key, hinit, -, -, heq⟩ | heq
  · have hcounted := h.counted
    have hcapped := h.capped
    rw [hinit] at hcounted
    rw [overCaps, hinit] at hcapped
    rw [heq]
    exact ⟨h.caps_eq, by simpa using hcounted, by simpa [overCaps] using hcapped⟩
  · rw [heq]
    have hsame : Sound caps { b with totalIngested := b.totalIngested + 1 } :=
      ⟨h.caps_eq, h.counted, h.capped⟩
    exact hsame.append line

theorem push_caps (line : StoredLine) (b : BoundedBuffer) : (b.push line).caps = b.caps := by
  have hpop (b' : BoundedBuffer) (h : b'.caps = b.caps) : b'.popFront.caps = b.caps := by
    rw [popFront_caps, h]
  rcases push_cases line b with ⟨init, last, key, -, -, -, heq⟩ | heq
  · rw [heq]
  · rw [heq]
    exact @evictWhile_keeps (fun b' => b'.caps = b.caps) hpop _ _ rfl

theorem Sound.length_le (h : Sound caps b) : b.lines.length ≤ caps.maxLines := by
  have hcapped := h.capped
  rw [overCaps, h.caps_eq, Bool.or_eq_false_iff] at hcapped
  exact Nat.le_of_not_lt (of_decide_eq_false hcapped.1)

/-- Over the cap on bytes only one entry is left. -/
theorem Sound.residentBytes_le (h : Sound caps b) :
    b.residentBytes ≤ caps.maxBytes ∨ b.lines.length = 1 := by
  have hcapped := h.capped
  rw [overCaps, h.caps_eq, Bool.or_eq_false_iff, Bool.and_eq_false_iff] at hcapped
  rcases hcapped.2 with hbytes | hone
  · exact .inl (Nat.le_of_not_lt (of_decide_eq_false hbytes))
  · rcases Nat.le_one_iff_eq_zero_or_eq_one.mp (Nat.le_of_not_lt (of_decide_eq_false hone))
      with hzero | hone
    · refine .inl ?_
      rw [h.counted, List.eq_nil_of_length_eq_zero hzero]
      exact Nat.zero_le _
    · exact .inr hone

end BoundedBuffer

/-! ### Runs of the ring -/

/-- A line that stands for itself alone. -/
def StoredLine.IsSingle : StoredLine → Prop
  | repeated _ _ => False
  | _ => True

theorem StoredLine.IsSingle.unroll {line : StoredLine} (h : line.IsSingle) : line.unroll = [line] := by
  cases line with
  | text t => rfl
  | repeated t count => exact h.elim
  | truncated head full ref => rfl

/-- Only a text line has a key to collapse by. -/
theorem StoredLine.IsSingle.eq_text {line : StoredLine} (h : line.IsSingle) {key : List Char}
    (hkey : line.collapseKey = some key) : line = .text key := by
  cases line with
  | text t => rw [← Option.some.inj hkey]
  | repeated t count => exact h.elim
  | truncated head full ref => cases hkey

/-- What is done to a ring. -/
inductive RingCall
  | push (line : StoredLine)
  | drainEvicted
  deriving DecidableEq, Repr

/-- The pushed line stands for itself. -/
def RingCall.IsSingle : RingCall → Prop
  | push line => line.IsSingle
  | drainEvicted => True

/-- The line that a call pushes. -/
def RingCall.line? : RingCall → Option StoredLine
  | push line => some line
  | drainEvicted => none

/-- A ring, and everything that was drained from it. -/
structure DrainedRing where
  ring : BoundedBuffer
  drained : List StoredLine
  deriving DecidableEq, Repr

namespace DrainedRing

def new (caps : RingCaps) : DrainedRing := ⟨.new caps, []⟩

def step (r : DrainedRing) : RingCall → DrainedRing
  | .push line => { r with ring := r.ring.push line }
  | .drainEvicted => ⟨r.ring.drainEvicted.2, r.drained ++ r.ring.drainEvicted.1⟩

/-- All entries, oldest first: the drained ones, the evicted ones, and the resident ones. -/
def entries (r : DrainedRing) : List StoredLine := r.drained ++ r.ring.evicted ++ r.ring.lines

theorem sound_step {caps : RingCaps} {r : DrainedRing} (h : r.ring.Sound caps) (c : RingCall) :
    (r.step c).ring.Sound caps := by
  cases c with
  | push line => exact h.push line
  | drainEvicted => exact ⟨h.caps_eq, h.counted, h.capped⟩

/-- **A call adds the line it pushes**, and a drain moves entries only. -/
theorem unroll_step (r : DrainedRing) {c : RingCall} (hc : c.IsSingle) :
    (r.step c).entries.flatMap StoredLine.unroll
      = r.entries.flatMap StoredLine.unroll ++ c.line?.toList := by
  cases c with
  | push line =>
      have hpush := BoundedBuffer.unroll_push r.ring fun key hkey => hc.eq_text hkey
      rw [hc.unroll, BoundedBuffer.entries, BoundedBuffer.entries] at hpush
      simp only [entries, step, List.append_assoc]
      rw [List.flatMap_append, hpush, ← List.append_assoc, ← List.flatMap_append]
      rfl
  | drainEvicted => simp [entries, step, BoundedBuffer.drainEvicted, RingCall.line?]

/-- The lines pushed by any calls are added in order. -/
theorem unroll_run (r : DrainedRing) {calls : List RingCall} (hcalls : ∀ c ∈ calls, c.IsSingle) :
    (Run.run step r calls).entries.flatMap StoredLine.unroll
      = r.entries.flatMap StoredLine.unroll ++ calls.filterMap RingCall.line? := by
  induction calls generalizing r with
  | nil => simp
  | cons c calls ih =>
      rw [List.forall_mem_cons] at hcalls
      rw [Run.run_cons, ih (r.step c) hcalls.2, unroll_step r hcalls.1, List.append_assoc]
      cases c <;> rfl

/-- **The ring loses, duplicates and reorders nothing.**  After any calls that push single lines the
byte count is exact, the caps hold, and the entries, unrolled, are the pushed lines in order. -/
theorem run_conserves (caps : RingCaps) {calls : List RingCall} (hcalls : ∀ c ∈ calls, c.IsSingle) :
    let r := Run.run step (new caps) calls
    r.ring.residentBytes = (r.ring.lines.map StoredLine.residentBytes).sum
      ∧ r.ring.lines.length ≤ caps.maxLines
      ∧ (r.ring.residentBytes ≤ caps.maxBytes ∨ r.ring.lines.length = 1)
      ∧ (r.drained ++ r.ring.evicted ++ r.ring.lines).flatMap StoredLine.unroll
          = calls.filterMap RingCall.line? := by
  have hsound : (Run.run step (new caps) calls).ring.Sound caps :=
    Run.always (I := fun r : DrainedRing => r.ring.Sound caps) (fun _ c h => sound_step h c)
      (BoundedBuffer.sound_new caps) calls
  exact ⟨hsound.counted, hsound.length_le, hsound.residentBytes_le, unroll_run (new caps) hcalls⟩

/-- Two equal lines, a drain, a third and a line that does not fit beside them. -/
theorem run_conserves_collapsed :
    let r := Run.run step (new ⟨2, 60⟩) [.push (.text ['a']), .push (.text ['a']), .drainEvicted,
      .push (.text ['a']), .push (.text ['b']), .push (.text ['c'])]
    r.ring.residentBytes = (r.ring.lines.map StoredLine.residentBytes).sum
      ∧ r.ring.lines.length ≤ 2
      ∧ (r.ring.residentBytes ≤ 60 ∨ r.ring.lines.length = 1)
      ∧ (r.drained ++ r.ring.evicted ++ r.ring.lines).flatMap StoredLine.unroll
          = [.text ['a'], .text ['a'], .text ['a'], .text ['b'], .text ['c']] :=
  run_conserves ⟨2, 60⟩ fun c hc => by
    simp only [List.mem_cons, List.not_mem_nil, or_false] at hc
    rcases hc with rfl | rfl | rfl | rfl | rfl | rfl <;> trivial

end DrainedRing

end MemMux
