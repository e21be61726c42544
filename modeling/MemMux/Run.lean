/-
MemMux/Run.lean

Runs of a deterministic system: a state, a list of events, and a function that says what one
event does.  Everything that is not determined by the state (the answers of the
environment, the place of a crash) is part of the event.

A condition on runs is a predicate `ok s e` on a state and the event about to happen in it;
`Allowed step ok s es` says that every event of `es` meets it where it happens.
`invariant` turns a preservation lemma for one step into a statement about every
prefix of an allowed run, and `forall_prefix_iff_of_allowed` turns an exact condition for one
step into an exact condition for the run.
-/
import Mathlib.Tactic.Common

namespace Run

variable {σ ε : Type} (step : σ → ε → σ)

/-- The state after the events `es`, from `s`. -/
def run (s : σ) (es : List ε) : σ := es.foldl step s

@[simp] theorem run_nil (s : σ) : run step s [] = s := rfl

@[simp] theorem run_cons (s : σ) (e : ε) (es : List ε) :
    run step s (e :: es) = run step (step s e) es := rfl

theorem run_append (s : σ) (es fs : List ε) :
    run step s (es ++ fs) = run step (run step s es) fs :=
  List.foldl_append

/-- Every event of the run meets the condition `ok` in the state it happens in. -/
def Allowed (ok : σ → ε → Prop) : σ → List ε → Prop
  | _, [] => True
  | s, e :: es => ok s e ∧ Allowed ok (step s e) es

/-- A condition that can be checked can be checked along a run. -/
instance {ok : σ → ε → Prop} [∀ s e, Decidable (ok s e)] :
    ∀ (s : σ) (es : List ε), Decidable (Allowed step ok s es)
  | _, [] => inferInstanceAs (Decidable True)
  | s, e :: es =>
      have : Decidable (Allowed step ok (step s e) es) := instDecidableAllowed (step s e) es
      inferInstanceAs (Decidable (ok s e ∧ Allowed step ok (step s e) es))

variable {step} {ok : σ → ε → Prop}

theorem allowed_append {s : σ} {es fs : List ε} :
    Allowed step ok s (es ++ fs) ↔ Allowed step ok s es ∧ Allowed step ok (run step s es) fs := by
  induction es generalizing s with
  | nil => simp [Allowed]
  | cons e es ih =>
      show (ok s e ∧ Allowed step ok (step s e) (es ++ fs)) ↔ _
      rw [ih]
      exact and_assoc.symm

/-- A condition that implies another allows fewer runs. -/
theorem Allowed.mono {ok' : σ → ε → Prop} (h : ∀ s e, ok s e → ok' s e) {s : σ} {es : List ε}
    (ha : Allowed step ok s es) : Allowed step ok' s es := by
  induction es generalizing s with
  | nil => exact trivial
  | cons e es ih => exact ⟨h s e ha.1, ih ha.2⟩

/-- Two conditions that allow a run allow it together. -/
theorem Allowed.and {ok' : σ → ε → Prop} {s : σ} {es : List ε} (h : Allowed step ok s es)
    (h' : Allowed step ok' s es) : Allowed step (fun s e => ok s e ∧ ok' s e) s es := by
  induction es generalizing s with
  | nil => exact trivial
  | cons e es ih => exact ⟨⟨h.1, h'.1⟩, ih h.2 h'.2⟩

/-- **Run induction.**  What holds at the start and is preserved by every allowed event holds
at the end of every allowed run. -/
theorem invariant {P : σ → Prop} (hstep : ∀ s e, P s → ok s e → P (step s e)) {s : σ}
    {es : List ε} (hs : P s) (ha : Allowed step ok s es) : P (run step s es) := by
  induction es generalizing s with
  | nil => exact hs
  | cons e es ih => exact ih (hstep s e hs ha.1) ha.2

/-- What every event preserves holds at the end of every run. -/
theorem always {I : σ → Prop} (hI : ∀ s e, I s → I (step s e)) {s : σ} (hs : I s) (es : List ε) :
    I (run step s es) := by
  induction es generalizing s with
  | nil => exact hs
  | cons e es ih => exact ih (hI s e hs)

/-- **Exact conditions lift to runs.**  Along a run that `may` allows: if, from a good state, an
event leads to a good state exactly when it meets `ok`, then all states of the run are good
exactly when all its events meet `ok`.  The step may use an invariant of the allowed events. -/
theorem forall_prefix_iff_of_allowed {I P : σ → Prop} {may : σ → ε → Prop}
    (hI : ∀ s e, I s → may s e → I (step s e))
    (hstep : ∀ s e, I s → may s e → P s → (P (step s e) ↔ ok s e)) {s : σ} (hi : I s) (hs : P s)
    {es : List ε} (hmay : Allowed step may s es) :
    (∀ p, p <+: es → P (run step s p)) ↔ Allowed step ok s es := by
  induction es generalizing s with
  | nil =>
      refine ⟨fun _ => trivial, fun _ p hp => ?_⟩
      rw [List.prefix_nil.mp hp]
      exact hs
  | cons e es ih =>
      have hi' := hI s e hi hmay.1
      constructor
      · intro h
        have he : P (step s e) := h [e] ⟨es, rfl⟩
        refine ⟨(hstep s e hi hmay.1 hs).mp he, (ih hi' he hmay.2).mp fun p hp => ?_⟩
        exact h (e :: p) (List.cons_prefix_cons.mpr ⟨rfl, hp⟩)
      · rintro ⟨hok, ha⟩ p hp
        have he : P (step s e) := (hstep s e hi hmay.1 hs).mpr hok
        cases p with
        | nil => exact hs
        | cons e' p =>
            obtain ⟨heq, htl⟩ := List.cons_prefix_cons.mp hp
            subst heq
            exact (ih hi' he hmay.2).mpr ha p htl

/-- Conditions that agree in the states of an invariant allow the same runs from there. -/
theorem allowed_iff_of_invariant {I : σ → Prop} {ok' : σ → ε → Prop}
    (hI : ∀ s e, I s → I (step s e)) (h : ∀ s e, I s → (ok s e ↔ ok' s e)) {s : σ} (hi : I s)
    (es : List ε) : Allowed step ok s es ↔ Allowed step ok' s es := by
  induction es generalizing s with
  | nil => exact Iff.rfl
  | cons e es ih => exact and_congr (h s e hi) (ih (hI s e hi))

/-- The same for an invariant that the allowed events preserve. -/
theorem allowed_iff_of_allowed {I : σ → Prop} {ok' : σ → ε → Prop}
    (hI : ∀ s e, I s → ok s e → I (step s e)) (h : ∀ s e, I s → (ok s e ↔ ok' s e)) {s : σ}
    (hi : I s) (es : List ε) : Allowed step ok s es ↔ Allowed step ok' s es := by
  induction es generalizing s with
  | nil => exact Iff.rfl
  | cons e es ih =>
      show ok s e ∧ _ ↔ ok' s e ∧ _
      rw [← h s e hi]
      exact and_congr_right fun hok => ih (hI s e hi hok)

theorem allowed_of_forall (h : ∀ s e, ok s e) (s : σ) (es : List ε) : Allowed step ok s es := by
  induction es generalizing s with
  | nil => exact trivial
  | cons e es ih => exact ⟨h s e, ih _⟩

/-- A run is allowed if each of its events is, after those before it. -/
theorem allowed_iff_forall_prefix {s : σ} {es : List ε} :
    Allowed step ok s es ↔ ∀ p e, p ++ [e] <+: es → ok (run step s p) e := by
  induction es generalizing s with
  | nil =>
      refine iff_of_true trivial fun p e hp => ?_
      exact absurd (List.append_eq_nil_iff.mp (List.prefix_nil.mp hp)).2 (List.cons_ne_nil e [])
  | cons e es ih =>
      show ok s e ∧ Allowed step ok (step s e) es ↔ _
      rw [ih]
      constructor
      · rintro ⟨he, hes⟩ p e' hp
        cases p with
        | nil =>
            obtain ⟨rfl, -⟩ := List.cons_prefix_cons.mp hp
            exact he
        | cons e₁ p =>
            obtain ⟨rfl, htl⟩ := List.cons_prefix_cons.mp hp
            exact hes p e' htl
      · intro h
        refine ⟨h [] e ⟨es, rfl⟩, fun p e' hp => ?_⟩
        exact h (e :: p) e' (List.cons_prefix_cons.mpr ⟨rfl, hp⟩)

/-- A condition on events alone can be asked of each event. -/
theorem allowed_of_mem {s : σ} {es : List ε} (h : ∀ e ∈ es, ∀ s, ok s e) :
    Allowed step ok s es := by
  induction es generalizing s with
  | nil => exact trivial
  | cons e es ih =>
      exact ⟨h e List.mem_cons_self s, ih fun e' he' => h e' (List.mem_cons_of_mem _ he')⟩

/-- The same, for an invariant that every event preserves. -/
theorem forall_prefix_iff_of_invariant {I P : σ → Prop} (hI : ∀ s e, I s → I (step s e))
    (hstep : ∀ s e, I s → P s → (P (step s e) ↔ ok s e)) {s : σ} (hi : I s) (hs : P s)
    (es : List ε) :
    (∀ p, p <+: es → P (run step s p)) ↔ Allowed step ok s es := by
  have hmay : Allowed step (fun _ _ => True) s es := allowed_of_forall (fun _ _ => trivial) s es
  exact forall_prefix_iff_of_allowed (fun s e h _ => hI s e h) (fun s e h _ => hstep s e h) hi hs hmay

end Run
