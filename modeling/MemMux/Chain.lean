/-
MemMux/Chain.lean

Chains of labelled steps.

A step leads from one state to another and emits a list of labels.  A chain is a sequence of
steps with the labels of all of them.  What every step keeps, as long as its labels are
admitted, a chain keeps (`Chain.keeps`).  When a step can be cut after any of its labels, so
can a chain (`Chain.cut`): this is what reduces a crash in the middle of an operation to the
steps of the operation.
-/
import Mathlib.Data.List.Basic
import Mathlib.Tactic.Common

/-- Steps of `act` lead from `s` to the last state, and emit the labels in order. -/
inductive Chain {σ ε : Type} (act : σ → List ε → σ → Prop) (s : σ) : List ε → σ → Prop
  | nil : Chain act s [] s
  | snoc {es fs : List ε} {t u : σ} : Chain act s es t → act t fs u → Chain act s (es ++ fs) u

namespace Chain

variable {σ ε : Type} {act : σ → List ε → σ → Prop} {s t u : σ} {es fs : List ε}

theorem single (h : act s es t) : Chain act s es t := by
  rw [← List.nil_append es]
  exact .snoc .nil h

theorem trans (h : Chain act s es t) (h' : Chain act t fs u) : Chain act s (es ++ fs) u := by
  induction h' with
  | nil =>
      rw [List.append_nil]
      exact h
  | snoc _ hstep ih =>
      rw [← List.append_assoc]
      exact .snoc ih hstep

/-- **What every admitted step keeps, a chain of admitted steps keeps.** -/
theorem keeps {ok : ε → Prop} {P : σ → Prop}
    (hstep : ∀ s es t, act s es t → (∀ e ∈ es, ok e) → P s → P t) (h : Chain act s es t)
    (hok : ∀ e ∈ es, ok e) (hs : P s) : P t := by
  induction h with
  | nil => exact hs
  | snoc _ hlast ih =>
      have hboth := List.forall_mem_append.mp hok
      exact hstep _ _ _ hlast hboth.2 (ih hboth.1)

/-- **A chain of steps that can be cut can be cut.** -/
theorem cut (hcut : ∀ {s t : σ} {es : List ε}, act s es t → ∀ k, ∃ u, Chain act s (es.take k) u)
    (h : Chain act s es t) (k : Nat) : ∃ u, Chain act s (es.take k) u := by
  induction h with
  | nil =>
      rw [List.take_nil]
      exact ⟨s, .nil⟩
  | @snoc es fs t u hrest hlast ih =>
      rw [List.take_append]
      by_cases hk : k ≤ es.length
      · rw [Nat.sub_eq_zero_of_le hk, List.take_zero, List.append_nil]
        exact ih
      · obtain ⟨v, hv⟩ := hcut hlast (k - es.length)
        rw [List.take_of_length_le (by omega)]
        exact ⟨v, hrest.trans hv⟩

end Chain
