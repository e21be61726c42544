/-
MemMux/Retelling.lean

Logs from which the state can be told.

A system keeps a log.  A reader who has the log and not the system folds its entries into an account.
`Tells log read P Q s s'` says that what was written between `s` and `s'` takes every account that
`P` relates to `s` to one that `Q` relates to `s'`.  Such statements compose, so that a relation of
accounts and states that every step retells holds after every run (`account`).
-/
import Mathlib.Tactic.Common

namespace Retelling

variable {σ ε ν : Type} {log : σ → List ε} {read : ν → ε → ν} {P Q R : ν → σ → Prop}

/-- What was written between `s` and `s'` takes the accounts of `s` to accounts of `s'`. -/
def Tells (log : σ → List ε) (read : ν → ε → ν) (P Q : ν → σ → Prop) (s s' : σ) : Prop :=
  ∃ es, log s' = log s ++ es ∧ ∀ a, P a s → Q (es.foldl read a) s'

/-- Entries that a reader passes over leave every account as it was. -/
theorem foldl_silent {es : List ε} (hes : ∀ e ∈ es, ∀ a, read a e = a) (a : ν) :
    es.foldl read a = a := by
  induction es with
  | nil => rfl
  | cons e es ih =>
      obtain ⟨he, hrest⟩ := List.forall_mem_cons.mp hes
      rw [List.foldl_cons, he a]
      exact ih hrest

theorem Tells.silent {s s' : σ} {es : List ε} (hlog : log s' = log s ++ es)
    (hes : ∀ e ∈ es, ∀ a, read a e = a) (h : ∀ a, P a s → Q a s') : Tells log read P Q s s' := by
  refine ⟨es, hlog, fun a ha => ?_⟩
  rw [foldl_silent hes a]
  exact h a ha

/-- Nothing was written. -/
theorem Tells.of_eq {s s' : σ} (hlog : log s' = log s) (h : ∀ a, P a s → Q a s') :
    Tells log read P Q s s' :=
  ⟨[], by rw [hlog, List.append_nil], h⟩

theorem Tells.refl (s : σ) : Tells log read P P s s := .of_eq rfl fun _ ha => ha

theorem Tells.trans {s s' s'' : σ} (h₁ : Tells log read P Q s s')
    (h₂ : Tells log read Q R s' s'') : Tells log read P R s s'' := by
  obtain ⟨es, hes, hp⟩ := h₁
  obtain ⟨fs, hfs, hq⟩ := h₂
  refine ⟨es ++ fs, by rw [hfs, hes, List.append_assoc], fun a ha => ?_⟩
  rw [List.foldl_append]
  exact hq _ (hp a ha)

/-- **The account of the whole log.** -/
theorem Tells.account {s s' : σ} (h : Tells log read P Q s s') {a : ν}
    (ha : P ((log s).foldl read a) s) : Q ((log s').foldl read a) s' := by
  obtain ⟨es, hes, hp⟩ := h
  rw [hes, List.foldl_append]
  exact hp _ ha

end Retelling
