/-
MemMux/Journal.lean

A durable state as the replay of the effects that reached it.

A `Journal` keeps the state it started from and the list of effects since; its current state is
their replay.  A crash cuts the list at some point, so the states a crash can leave behind
are the replays of the prefixes, and there are no others.
-/
import Mathlib.Data.List.Induction
import Mathlib.Tactic.Common

/-- What one effect does to a durable state. -/
class Replay (δ ε : Type) where
  apply : δ → ε → δ

/-- A durable state, given by where it started and what has reached it. -/
structure Journal (δ ε : Type) where
  start : δ
  log : List ε

namespace Journal

variable {δ ε : Type}

/-- One more effect reaches the durable state. -/
def write (j : Journal δ ε) (e : ε) : Journal δ ε := { j with log := j.log ++ [e] }

/-- Several effects reach the durable state, in order. -/
def writeAll (j : Journal δ ε) (es : List ε) : Journal δ ε := { j with log := j.log ++ es }

/-- What is left when only the first `k` effects reached the durable state. -/
def cut (j : Journal δ ε) (k : Nat) : Journal δ ε := { j with log := j.log.take k }

@[simp] theorem write_start (j : Journal δ ε) (e : ε) : (j.write e).start = j.start := rfl

@[simp] theorem write_log (j : Journal δ ε) (e : ε) : (j.write e).log = j.log ++ [e] := rfl

@[simp] theorem cut_start (j : Journal δ ε) (k : Nat) : (j.cut k).start = j.start := rfl

@[simp] theorem writeAll_start (j : Journal δ ε) (es : List ε) :
    (j.writeAll es).start = j.start := rfl

@[simp] theorem writeAll_log (j : Journal δ ε) (es : List ε) :
    (j.writeAll es).log = j.log ++ es := rfl

@[simp] theorem writeAll_nil (j : Journal δ ε) : j.writeAll [] = j := by
  simp [writeAll]

/-- Effects cut after the first `k` of them. -/
theorem cut_writeAll (j : Journal δ ε) (es : List ε) (k : Nat) :
    (j.writeAll es).cut (j.log.length + k) = j.writeAll (es.take k) := by
  simp [cut, writeAll, List.take_length_add_append]

theorem writeAll_cons (j : Journal δ ε) (e : ε) (es : List ε) :
    j.writeAll (e :: es) = (j.write e).writeAll es := by
  simp [writeAll, write]

variable [Replay δ ε]

/-- The state after replaying `es` on `d`. -/
def replay (d : δ) (es : List ε) : δ := es.foldl Replay.apply d

/-- The current state. -/
def state (j : Journal δ ε) : δ := replay j.start j.log

@[simp] theorem replay_nil (d : δ) : replay d ([] : List ε) = d := rfl

theorem replay_append (d : δ) (es fs : List ε) :
    replay d (es ++ fs) = replay (replay d es) fs :=
  List.foldl_append

theorem replay_snoc (d : δ) (es : List ε) (e : ε) :
    replay d (es ++ [e]) = Replay.apply (replay d es) e := by
  rw [replay_append]
  rfl

@[simp] theorem state_write (j : Journal δ ε) (e : ε) :
    (j.write e).state = Replay.apply j.state e :=
  replay_snoc j.start j.log e

theorem state_writeAll (j : Journal δ ε) (es : List ε) :
    (j.writeAll es).state = replay j.state es :=
  replay_append j.start j.log es

end Journal
