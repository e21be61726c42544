/-
MemMux/Pairing.lean

Pairing the openings of a stream with its closings, key by key.

A closing is served when the nearest marked event of its key before it is an opening; an opening is
settled when the nearest marked event of its key after it is a closing.  There are as many of the one
kind as of the other (`served_eq_settled`), so counting openings counts served closings exactly when
every opening is settled (`served_eq_countP_iff`).
-/
import Mathlib.Data.List.Induction
import Mathlib.Tactic.Common

namespace Pairing

variable {α κ : Type} [DecidableEq κ] (key : α → κ) (opens closes : α → Bool)

/-! ### Served closings and settled openings -/

/-- An opening or a closing of the key. -/
def marks (k : κ) (a : α) : Bool := key a == k && (opens a || closes a)

/-- The nearest mark before a point is an opening. -/
def openBefore (k : κ) (before : List α) : Bool :=
  (before.reverse.find? (marks key opens closes k)).any opens

/-- The nearest mark after a point is a closing. -/
def closedAfter (k : κ) (after : List α) : Bool :=
  (after.find? (marks key opens closes k)).any closes

/-- How many closings of the rest of the stream are served. -/
def served : List α → List α → Nat
  | _, [] => 0
  | before, a :: rest =>
      (if closes a && openBefore key opens closes (key a) before then 1 else 0)
        + served (before ++ [a]) rest

/-- How many openings are settled. -/
def settled : List α → Nat
  | [] => 0
  | a :: rest => (if opens a && closedAfter key opens closes (key a) rest then 1 else 0) + settled rest

/-- Every opening is settled. -/
def allSettled : List α → Bool
  | [] => true
  | a :: rest => (!opens a || closedAfter key opens closes (key a) rest) && allSettled rest

/-! ### There are as many of both -/

theorem ite_le_one {p : Prop} [Decidable p] : (if p then 1 else 0) ≤ 1 := by
  split <;> decide

section Counting

variable {key opens closes}

theorem served_append (before as : List α) (x : α) :
    served key opens closes before (as ++ [x]) = served key opens closes before as
      + if closes x && openBefore key opens closes (key x) (before ++ as) then 1 else 0 := by
  induction as generalizing before with
  | nil => simp [served]
  | cons a as ih =>
      rw [List.cons_append, served, ih, served, List.append_assoc, List.singleton_append,
        Nat.add_assoc]

theorem openBefore_cons_of_marked {k : κ} {as : List α} {e : α} (he : e ∈ as)
    (hm : marks key opens closes k e) (a : α) :
    openBefore key opens closes k (a :: as) = openBefore key opens closes k as := by
  have hsome : ((as.reverse.find? (marks key opens closes k))).isSome :=
    List.find?_isSome.mpr ⟨e, List.mem_reverse.mpr he, hm⟩
  rw [openBefore, openBefore, List.reverse_cons, List.find?_append, Option.or_of_isSome hsome]

theorem openBefore_cons_of_ne {k : κ} {a : α} (h : key a ≠ k) (as : List α) :
    openBefore key opens closes k (a :: as) = openBefore key opens closes k as := by
  have hm : marks key opens closes k a = false := by simp [marks, h]
  rw [openBefore, openBefore, List.reverse_cons, List.find?_append, List.find?_singleton, hm]
  simp

/-- A mark that is there already is not overtaken by one at the end. -/
theorem closedAfter_append_of_some {k : κ} {as : List α} {e : α}
    (h : as.find? (marks key opens closes k) = some e) (x : α) :
    closedAfter key opens closes k (as ++ [x]) = closedAfter key opens closes k as := by
  rw [closedAfter, closedAfter, List.find?_append, h, Option.some_or]

/-- Without a mark so far, the one at the end decides. -/
theorem closedAfter_append_of_none {k : κ} {as : List α}
    (h : as.find? (marks key opens closes k) = none) (x : α) :
    closedAfter key opens closes k (as ++ [x]) = (key x == k && closes x) := by
  rw [closedAfter, List.find?_append, h, Option.none_or, List.find?_singleton]
  by_cases hk : key x = k
  · cases hc : closes x <;> cases ho : opens x <;> simp [marks, hk, hc, ho]
  · simp [marks, hk]

theorem openBefore_cons_of_none {k : κ} {as : List α}
    (h : as.find? (marks key opens closes k) = none) (a : α) :
    openBefore key opens closes k as = false ∧
      openBefore key opens closes k (a :: as) = (key a == k && opens a) := by
  have hrev : as.reverse.find? (marks key opens closes k) = none := by
    rw [List.find?_eq_none] at h ⊢
    exact fun e he => h e (List.mem_reverse.mp he)
  refine ⟨by rw [openBefore, hrev, Option.any_none], ?_⟩
  rw [openBefore, List.reverse_cons, List.find?_append, hrev, Option.none_or, List.find?_singleton]
  by_cases hk : key a = k
  · cases hc : closes a <;> cases ho : opens a <;> simp [marks, hk, hc, ho]
  · simp [marks, hk]

/-- One event more at the end settles an opening exactly when it is a closing that is served. -/
theorem settled_append (as : List α) (x : α) :
    settled key opens closes (as ++ [x]) = settled key opens closes as
      + if closes x && openBefore key opens closes (key x) as then 1 else 0 := by
  induction as with
  | nil => simp [settled, openBefore, closedAfter]
  | cons a as ih =>
      rw [List.cons_append, settled, ih, settled]
      rcases hfind : as.find? (marks key opens closes (key a)) with - | e
      · rw [closedAfter_append_of_none hfind]
        have hopen : closedAfter key opens closes (key a) as = false := by
          rw [closedAfter, hfind, Option.any_none]
        by_cases hk : key a = key x
        · -- the event at the end meets the opening at the front
          rw [hk] at hfind
          obtain ⟨hbefore, hcons⟩ := openBefore_cons_of_none hfind a
          rw [hopen, hbefore, hcons]
          cases ho : opens a <;> cases hc : closes x <;> simp [hk, Nat.add_comm]
        · rw [hopen, openBefore_cons_of_ne hk, beq_false_of_ne (Ne.symm hk)]
          simp
      · -- the opening at the front is settled or not before the end comes into sight
        rw [closedAfter_append_of_some hfind]
        have hsame : openBefore key opens closes (key x) (a :: as)
            = openBefore key opens closes (key x) as := by
          by_cases hk : key a = key x
          · exact openBefore_cons_of_marked (List.mem_of_find?_eq_some hfind)
              (hk ▸ List.find?_some hfind) a
          · exact openBefore_cons_of_ne hk as
        rw [hsame, Nat.add_assoc]

/-- **Served closings and settled openings are as many.** -/
theorem served_eq_settled (as : List α) :
    served key opens closes [] as = settled key opens closes as := by
  induction as using List.reverseRecOn with
  | nil => rfl
  | append_singleton as x ih => rw [served_append, settled_append, ih, List.nil_append]

/-- The openings that are settled are openings. -/
theorem settled_le (as : List α) : settled key opens closes as ≤ as.countP opens := by
  induction as with
  | nil => exact Nat.le_refl 0
  | cons a as ih =>
      rw [settled, List.countP_cons, Nat.add_comm]
      refine Nat.add_le_add ih ?_
      cases opens a with
      | false => exact Nat.le_refl 0
      | true => exact ite_le_one

/-- The closings that are served are closings. -/
theorem served_le (before as : List α) :
    served key opens closes before as ≤ as.countP closes := by
  induction as generalizing before with
  | nil => exact Nat.le_refl 0
  | cons a as ih =>
      rw [served, List.countP_cons, Nat.add_comm]
      refine Nat.add_le_add (ih _) ?_
      cases closes a with
      | false => exact Nat.le_refl 0
      | true => exact ite_le_one

/-- **Counting openings counts served closings** exactly when every opening is settled. -/
theorem served_eq_countP_iff (as : List α) :
    as.countP opens = served key opens closes [] as ↔ allSettled key opens closes as := by
  rw [served_eq_settled]
  induction as with
  | nil => exact iff_of_true rfl rfl
  | cons a as ih =>
      have hle := @settled_le _ _ _ key opens closes as
      rw [settled, List.countP_cons, allSettled]
      cases ho : opens a with
      | false => simpa using ih
      | true =>
          cases hc : closedAfter key opens closes (key a) as with
          | false =>
              simp
              omega
          | true =>
              simp only [Bool.and_self, if_true, Bool.not_true, Bool.false_or, Bool.true_and]
              rw [Nat.add_comm, Nat.add_left_cancel_iff]
              exact ih

end Counting

end Pairing
