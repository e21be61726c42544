/-
MemMux/Prompt.lean

The confirmation prompt of the terminal interface: no task is terminated or forgotten unless the
user asked for it and confirmed.

All that matters of an event is what it does to the view and to the pending action, and there are
four things it can do (`Turn`): ask for a confirmation, confirm, cancel, or leave the prompt as it
is.  The trace of a confirmed action is read off a run with these (`asked`), and so is the number
of actions a request leads to (`spent_le`).
-/
import Mathlib.Data.List.Induction
import MemMux.Run
import MemMux.Tui

namespace MemMux.Tui

/-! ### What an event does to the prompt -/

/-- An effect that terminates or forgets a task. -/
def Effect.destructive : Effect → Bool
  | .terminateTask _ | .forgetTask _ => true
  | _ => false

theorem PendingAction.destructive_effect (a : PendingAction) : a.effect.destructive = true := by
  cases a <;> rfl

theorem PendingAction.effect_inj {a b : PendingAction} (h : a.effect = b.effect) : a = b := by
  cases a <;> cases b <;> cases h <;> rfl

/-- The keys that answer the prompt. -/
def Event.answers : Event → Bool
  | .key .esc | .key (.char 'n') | .key .enter | .key (.char 'y') => true
  | _ => false

/-- The prompt is as it was, and nothing destructive is asked for. -/
structure Untouched (m : Model) (r : Model × List Effect) : Prop where
  pending : r.1.pending = m.pending
  view : r.1.view = .confirm ↔ m.view = .confirm
  effects : ∀ fx ∈ r.2, fx.destructive = false

/-- **What an event can do to the prompt.** -/
inductive Turn (m : Model) (e : Event) (r : Model × List Effect) : Prop
  /-- `x` on the home view asks to close the selected agent -/
  | ask (t : TaskView) (he : e = .key (.char 'x')) (hv : m.view = .home)
      (ht : m.selectedAgent = some t)
      (hr : r = ({ m with pending := some (closeAction t), view := .confirm }, []))
  /-- the prompt is confirmed -/
  | confirm (hv : m.view = .confirm) (he : e = .key .enter ∨ e = .key (.char 'y'))
      (hpending : r.1.pending = none) (hview : r.1.view = .home)
      (hfx : r.2 = match m.pending with
        | some a => [a.effect, .refresh]
        | none => [])
  /-- the prompt is cancelled -/
  | cancel (hv : m.view = .confirm) (he : e = .key .esc ∨ e = .key (.char 'n'))
      (hr : r = ({ m with pending := none, view := .home }, []))
  /-- any other event leaves the prompt as it is -/
  | leave (hno : m.view = .confirm → e.answers = false) (hu : Untouched m r)

/-- A handler that keeps the view leaves the prompt alone. -/
theorem Untouched.stay {m m' : Model} {fxs : List Effect} (hp : m'.pending = m.pending)
    (hv : m'.view = m.view) (hfx : ∀ fx ∈ fxs, fx.destructive = false) : Untouched m (m', fxs) :=
  ⟨hp, by rw [hv], hfx⟩

/-- So does one that goes from another view to another. -/
theorem Untouched.leave {m m' : Model} {fxs : List Effect} (hno : m.view ≠ .confirm)
    (hp : m'.pending = m.pending) (hv : m'.view ≠ .confirm)
    (hfx : ∀ fx ∈ fxs, fx.destructive = false) : Untouched m (m', fxs) :=
  ⟨hp, iff_of_false hv hno, hfx⟩

theorem Untouched.same (m : Model) : Untouched m (m, []) := .stay rfl rfl (by simp)

theorem Untouched.home {m : Model} {fxs : List Effect} (hno : m.view ≠ .confirm)
    (hfx : ∀ fx ∈ fxs, fx.destructive = false) : Untouched m ({ m with view := .home }, fxs) :=
  .leave hno rfl (by simp) hfx

/-! ### The handlers -/

theorem updateForm_untouched {m : Model} (hno : m.view ≠ .confirm) (key : Key) :
    Untouched m (updateForm key m) := by
  cases key with
  | esc => exact .home hno (by simp)
  | enter =>
      simp only [updateForm]
      cases m.form.toRequest with
      | none => exact .stay rfl rfl (by simp)
      | some req => exact .leave hno rfl (by simp) (by simp [Effect.destructive])
  | left =>
      simp only [updateForm]
      split
      · exact .same m
      · split <;> exact .stay rfl rfl (by simp)
  | right =>
      simp only [updateForm]
      split
      · exact .same m
      · exact .stay rfl rfl (by simp)
  | quit => exact .same m
  | up | down | tab | backspace => exact .stay rfl rfl (by simp)
  | char c => exact .stay rfl rfl (by simp)

theorem pick_untouched {m : Model} (hno : m.view ≠ .confirm) (idx : Nat) :
    Untouched m (pick idx m) := by
  unfold pick
  split
  · exact .same m
  · split
    · exact .leave hno rfl (by simp) (by simp)
    · exact .home hno (by simp [Effect.destructive])

theorem updateLaunch_untouched {m : Model} (hno : m.view ≠ .confirm) (key : Key) :
    Untouched m (updateLaunch key m) := by
  unfold updateLaunch
  split
  · exact .home hno (by simp)
  -- the highlight moves
  · exact .stay rfl rfl (by simp)
  · exact .stay rfl rfl (by simp)
  · exact .stay rfl rfl (by simp)
  · exact .stay rfl rfl (by simp)
  -- an entry is picked, by its number or by Enter
  · exact pick_untouched hno _
  · exact pick_untouched hno _
  · exact pick_untouched hno _
  · exact pick_untouched hno _
  · exact pick_untouched hno _
  · exact pick_untouched hno _
  · exact .same m

theorem updateOpenFolder_untouched {m : Model} (hno : m.view ≠ .confirm) (key : Key) :
    Untouched m (updateOpenFolder key m) := by
  have hlist : ∀ path, Untouched m (m, [.listDir path]) :=
    fun path => .stay rfl rfl (by simp [Effect.destructive])
  have hmove : ∀ i, Untouched m ({ m with browseSelected := i }, []) :=
    fun i => .stay rfl rfl (by simp)
  unfold updateOpenFolder
  split
  · exact .home hno (by simp)
  · exact hmove _
  · exact hmove _
  · exact hmove _
  · exact hmove _
  -- three keys open the selected entry
  iterate 3
    · split
      · exact hlist _
      · exact .same m
  · exact hlist _
  · exact hlist _
  · exact hlist _
  · split
    · exact .same m
    · exact .leave hno rfl (by simp) (by simp [Effect.destructive])
  · exact .same m

theorem openLaunch_untouched {m : Model} (hno : m.view ≠ .confirm) (repo : String) :
    Untouched m (m.openLaunch repo, []) :=
  .leave hno rfl (by simp [Model.openLaunch]) (by simp)

theorem activateSelection_untouched {m : Model} (hno : m.view ≠ .confirm) :
    Untouched m (activateSelection m) := by
  unfold activateSelection
  cases m.sidebar with
  | workspaces => exact openLaunch_untouched hno _
  | agents =>
      dsimp only
      cases m.selectedAgent with
      | none => exact .same m
      | some t =>
          dsimp only
          split
          · exact .stay rfl rfl (by simp)
          · exact .stay rfl rfl (by simp [Effect.destructive])

theorem updateHome_turn {m : Model} (hv : m.view = .home) (key : Key) :
    Turn m (.key key) (updateHome key m) := by
  have hno : m.view ≠ .confirm := by simp [hv]
  have leave : ∀ {r}, Untouched m r → Turn m (.key key) r :=
    fun hu => .leave (fun hc => absurd hc hno) hu
  have move : ∀ delta, Untouched m (m.moveSelection delta, []) := fun delta =>
    .stay (moveSelection_keeps delta m).pending (moveSelection_keeps delta m).view (by simp)
  unfold updateHome
  split
  · exact leave (.stay rfl rfl (by simp))
  · exact leave (.stay rfl rfl (by simp))
  · exact leave (.leave hno rfl (by simp) (by simp))
  · exact leave (.leave hno rfl (by simp) (by simp [Effect.destructive]))
  · exact leave (openLaunch_untouched hno _)
  · exact leave (.leave hno rfl (by simp) (by simp))
  · -- `x` asks about the selected agent, if there is one
    cases ht : m.selectedAgent with
    | none => exact leave (.same m)
    | some t => exact .ask t rfl hv ht rfl
  · exact leave (.stay rfl rfl (by simp))
  · exact leave (move _)
  · exact leave (move _)
  · exact leave (move _)
  · exact leave (move _)
  · exact leave (activateSelection_untouched hno)
  · exact leave (.same m)

theorem updateConfirm_turn {m : Model} (hv : m.view = .confirm) (key : Key) :
    Turn m (.key key) (updateConfirm key m) := by
  -- `Enter` and `y` are answered alike
  have hconfirm : ∀ k, k = .enter ∨ k = .char 'y' → key = k →
      Turn m (.key key) (match m.pending with
        | some action =>
            ({ m with view := .home, pending := none }, [action.effect, .refresh])
        | none => ({ m with view := .home }, [])) := by
    rintro k hk rfl
    have he : Event.key key = .key .enter ∨ Event.key key = .key (.char 'y') := by
      rcases hk with rfl | rfl
      · exact .inl rfl
      · exact .inr rfl
    cases hp : m.pending with
    | none => exact .confirm hv he rfl rfl (by rw [hp])
    | some a => exact .confirm hv he rfl rfl (by rw [hp])
  unfold updateConfirm
  split
  · exact .cancel hv (.inl rfl) rfl
  · exact .cancel hv (.inr rfl) rfl
  · exact hconfirm _ (.inl rfl) rfl
  · exact hconfirm _ (.inr rfl) rfl
  · -- no other key is an answer
    next hesc hn henter hy =>
    refine .leave (fun _ => ?_) (.same m)
    unfold Event.answers
    split
    · next heq => exact absurd (Event.key.inj heq) hesc
    · next heq => exact absurd (Event.key.inj heq) hn
    · next heq => exact absurd (Event.key.inj heq) henter
    · next heq => exact absurd (Event.key.inj heq) hy
    · rfl

/-- **Every event is one of the four turns.** -/
theorem turn (m : Model) (e : Event) : Turn m e (step m e) := by
  -- events that are no keys answer nothing
  have stay : ∀ (e : Event) (m' : Model), e.answers = false → m'.pending = m.pending →
      m'.view = m.view → Turn m e (m', []) :=
    fun e m' he hp hv => .leave (fun _ => he) (.stay hp hv (by simp))
  cases e with
  | key k =>
      show Turn m (.key k) (update k m)
      have other : m.view ≠ .confirm → ∀ {r}, Untouched m r → Turn m (.key k) r :=
        fun hno _ hu => .leave (fun hv => absurd hv hno) hu
      unfold update
      cases hv : m.view with
      | newTask => exact other (by simp [hv]) (updateForm_untouched (by simp [hv]) k)
      | launch => exact other (by simp [hv]) (updateLaunch_untouched (by simp [hv]) k)
      | openFolder => exact other (by simp [hv]) (updateOpenFolder_untouched (by simp [hv]) k)
      | confirm => exact updateConfirm_turn hv k
      | home => exact updateHome_turn hv k
      | help =>
          refine other (by simp [hv]) ?_
          dsimp only
          split
          · exact .home (by simp [hv]) (by simp)
          · exact .home (by simp [hv]) (by simp)
          · exact .home (by simp [hv]) (by simp)
          · exact .same m
  | setData data => exact stay _ _ rfl (setData_keeps data m).pending (setData_keeps data m).view
  | openPane id => exact stay _ _ rfl rfl rfl
  | closePane id =>
      obtain ⟨-, hp, hv⟩ := closePane_fields id m
      exact stay _ _ rfl hp hv
  | moveSelection delta =>
      exact stay _ _ rfl (moveSelection_keeps delta m).pending (moveSelection_keeps delta m).view
  | toggleSection => exact stay _ _ rfl rfl rfl
  | syncActiveWs =>
      exact stay _ _ rfl (syncActiveWs_keeps m).pending (syncActiveWs_keeps m).view

/-! ### Runs -/

/-- The effects a run asks for. -/
def emitted : Model → List Event → List Effect
  | _, [] => []
  | m, e :: es => (step m e).2 ++ emitted (next m e) es

/-- `x` is pressed on the home view. -/
def PressesX (m : Model) (e : Event) : Prop := m.view = .home ∧ e = .key (.char 'x')

/-- The prompt stays open: the event is none of its answers. -/
def Holds (m : Model) (e : Event) : Prop := m.view = .confirm ∧ e.answers = false

/-- An action is pending exactly while its prompt is open. -/
def Guarded (m : Model) : Prop := m.pending.isSome = true ↔ m.view = .confirm

theorem Guarded.next (m : Model) (e : Event) (hg : Guarded m) : Guarded (next m e) := by
  show (step m e).1.pending.isSome = true ↔ (step m e).1.view = .confirm
  cases turn m e with
  | ask t he hv ht hr =>
      rw [hr]
      simp
  | confirm hv he hpending hview hfx =>
      rw [hpending, hview]
      simp
  | cancel hv he hr =>
      rw [hr]
      simp
  | leave hno hu =>
      rw [hu.pending, hu.view]
      exact hg

/-- No pending action outlives its prompt, and no prompt is without one. -/
theorem pending_iff_prompt (cwd cwdRepo : Option String) (es : List Event) :
    Guarded (Run.run next (start cwd cwdRepo) es) :=
  Run.always Guarded.next (by simp [Guarded, start]) es

/-- **Where an open prompt comes from**: `x` was pressed on the home view, the agent selected then is
the one in question, and the prompt was held since. -/
theorem asked (m₀ : Model) (hstart : m₀.view ≠ .confirm) (es : List Event)
    (hv : (Run.run next m₀ es).view = .confirm) :
    ∃ before between t, es = before ++ .key (.char 'x') :: between ∧
      (Run.run next m₀ before).view = .home ∧
      (Run.run next m₀ before).selectedAgent = some t ∧
      (Run.run next m₀ es).pending = some (closeAction t) ∧
      Run.Allowed next Holds (Run.run next m₀ (before ++ [.key (.char 'x')])) between := by
  induction es using List.reverseRecOn with
  | nil => exact absurd hv hstart
  | append_singleton es e ih =>
      rw [Run.run_append] at hv ⊢
      generalize hm : Run.run next m₀ es = m at hv ih ⊢
      have hv' : (step m e).1.view = .confirm := hv
      show ∃ before between t, es ++ [e] = before ++ .key (.char 'x') :: between ∧ _ ∧ _ ∧
        (step m e).1.pending = some (closeAction t) ∧ _
      cases turn m e with
      | ask t he hhome ht hr =>
          subst he hm
          exact ⟨es, [], t, rfl, hhome, ht, by rw [hr], trivial⟩
      | confirm hc he hpending hview hfx => exact absurd (hview.symm.trans hv') nofun
      | cancel hc he hr =>
          rw [hr] at hv'
          cases hv'
      | leave hno hu =>
          -- the prompt was open before, and stays
          have hopen := hu.view.mp hv'
          obtain ⟨before, between, t, rfl, hhome, ht, hp, hheld⟩ := ih hopen
          refine ⟨before, between ++ [e], t, List.append_assoc _ _ _, hhome, ht,
            hu.pending.trans hp, Run.allowed_append.mpr ⟨hheld, ?_, trivial⟩⟩
          rw [← Run.run_append, List.append_assoc]
          exact hm ▸ ⟨hopen, hno hopen⟩

/-- A task is forgotten only in a terminal state. -/
theorem closeAction_cases (t : TaskView) :
    closeAction t = .terminate t.id ∨
      closeAction t = .forget t.id ∧ (t.state = "TERMINATED" ∨ t.state = "FAILED") := by
  unfold closeAction
  split
  · next hs => exact .inr ⟨rfl, of_decide_eq_true hs⟩
  · exact .inl rfl

/-- The destructive effects of a run. -/
def spent (m : Model) (es : List Event) : Nat :=
  ((emitted m es).filter Effect.destructive).length

theorem spent_cons (m : Model) (e : Event) (es : List Event) :
    spent m (e :: es)
      = ((step m e).2.filter Effect.destructive).length + spent (next m e) es := by
  rw [spent, emitted, List.filter_append, List.length_append]
  rfl

/-- **What is pending is all that can be spent** before `x` is pressed again. -/
theorem spent_le (m : Model) (es : List Event)
    (hno : Run.Allowed next (fun m e => ¬ PressesX m e) m es) :
    spent m es ≤ if m.pending.isSome then 1 else 0 := by
  induction es generalizing m with
  | nil => exact Nat.zero_le _
  | cons e es ih =>
      have hrest := ih (next m e) hno.2
      rw [spent_cons]
      change spent (next m e) es ≤ if (step m e).1.pending.isSome then 1 else 0 at hrest
      cases turn m e with
      | ask t he hv ht hr => exact absurd ⟨hv, he⟩ hno.1
      -- what is confirmed is the one destructive effect, and nothing is pending any more
      | confirm hv he hpending hview hfx =>
          rw [hpending] at hrest
          rw [hfx]
          cases m.pending with
          | none => simpa using hrest
          | some a =>
              have hone : ([a.effect, Effect.refresh].filter Effect.destructive).length = 1 := by
                rw [List.filter_cons_of_pos a.destructive_effect]
                rfl
              rw [hone]
              simpa using hrest
      | cancel hv he hr =>
          rw [hr] at hrest ⊢
          have hzero : spent (next m e) es = 0 := Nat.le_zero.mp (by simpa using hrest)
          rw [hzero]
          exact Nat.zero_le _
      | leave hno hu =>
          have hzero : (step m e).2.filter Effect.destructive = [] :=
            List.filter_eq_nil_iff.mpr fun fx hfx => by simp [hu.effects fx hfx]
          rw [hu.pending] at hrest
          rw [hzero]
          simpa using hrest

/-- **No task is closed without a confirmation.**  In any sequence of keys and of whatever else
changes the model, a terminate or forget effect comes from `Enter` or `y` in the prompt that
`x` opened on the home view for the agent selected then; since then the prompt was held, so
neither `Esc`, nor `n`, nor another `x` on the home view came between.  A task is forgotten only
if it was terminated or had failed, and each `x` leads to at most one such effect. -/
theorem close_confirmed (cwd cwdRepo : Option String) (es : List Event) :
    (∀ e a, a.effect ∈ (step (Run.run next (start cwd cwdRepo) es) e).2 →
      (e = .key .enter ∨ e = .key (.char 'y')) ∧
      (Run.run next (start cwd cwdRepo) es).view = .confirm ∧
      (Run.run next (start cwd cwdRepo) es).pending = some a ∧
      ∃ before between t, es = before ++ .key (.char 'x') :: between ∧
        (Run.run next (start cwd cwdRepo) before).view = .home ∧
        (Run.run next (start cwd cwdRepo) before).selectedAgent = some t ∧
        (a = .terminate t.id ∨
          a = .forget t.id ∧ (t.state = "TERMINATED" ∨ t.state = "FAILED")) ∧
        Run.Allowed next Holds
          (Run.run next (start cwd cwdRepo) (before ++ [.key (.char 'x')])) between) ∧
    ∀ before between, es = before ++ .key (.char 'x') :: between →
      (Run.run next (start cwd cwdRepo) before).view = .home →
      Run.Allowed next (fun m e => ¬ PressesX m e)
        (Run.run next (start cwd cwdRepo) (before ++ [.key (.char 'x')])) between →
      spent (Run.run next (start cwd cwdRepo) before) (.key (.char 'x') :: between) ≤ 1 := by
  constructor
  · intro e a ha
    generalize hm : Run.run next (start cwd cwdRepo) es = m at ha
    have hquiet : ∀ fxs : List Effect, (∀ fx ∈ fxs, fx.destructive = false) → a.effect ∉ fxs := by
      intro fxs hfxs hin
      exact absurd (a.destructive_effect.symm.trans (hfxs _ hin)) (by decide)
    cases turn m e with
    | ask t he hv ht hr =>
        rw [hr] at ha
        exact absurd ha List.not_mem_nil
    | cancel hv he hr =>
        rw [hr] at ha
        exact absurd ha List.not_mem_nil
    | leave hno hu => exact absurd ha (hquiet _ hu.effects)
    | confirm hv he hpending hview hfx =>
        obtain ⟨before, between, t, hes, hhome, ht, hp, hheld⟩ :=
          asked (start cwd cwdRepo) (by simp [start]) es (by rw [hm, hv])
        rw [hm] at hp
        rw [hfx, hp] at ha
        have heq : a = closeAction t := by
          rcases List.mem_cons.mp ha with heq | hrefresh
          · exact PendingAction.effect_inj heq
          · exact absurd hrefresh (hquiet [.refresh] (by simp [Effect.destructive]))
        refine ⟨he, hv, heq ▸ hp, before, between, t, hes, hhome, ht, ?_, hheld⟩
        rw [heq]
        exact closeAction_cases t
  · intro before between _ hv hno
    have hx : spent (Run.run next (start cwd cwdRepo) (before ++ [.key (.char 'x')])) between ≤ 1 :=
      (spent_le _ _ hno).trans (by split <;> decide)
    rw [Run.run_append] at hx
    rw [spent_cons]
    generalize Run.run next (start cwd cwdRepo) before = m at hv hx ⊢
    -- asking is not acting
    have hzero : (step m (.key (.char 'x'))).2.filter Effect.destructive = [] := by
      refine List.filter_eq_nil_iff.mpr fun fx hfx => ?_
      cases turn m (.key (.char 'x')) with
      | ask t he hhome ht hr => exact absurd (hr ▸ hfx) List.not_mem_nil
      | confirm hc => exact absurd (hc.symm.trans hv) nofun
      | cancel hc => exact absurd (hc.symm.trans hv) nofun
      | leave hno hu => simp [hu.effects fx hfx]
    rw [hzero]
    simpa using hx

/-- The agent is terminated by `x` and `y`, with a refresh in between. -/
theorem close_confirmed_once :
    let asked : List Event := [.setData oneAgent, .key (.char 'x'), .setData oneAgent]
    .terminateTask "t1" ∈ (step (Run.run next (start none none) asked) (.key (.char 'y'))).2 ∧
      (Run.run next (start none none) asked).view = .confirm ∧
      spent (Run.run next (start none none) [.setData oneAgent])
        [.key (.char 'x'), .setData oneAgent] ≤ 1 := by
  intro asked
  have hfx : (PendingAction.terminate "t1").effect
      ∈ (step (Run.run next (start none none) asked) (.key (.char 'y'))).2 := by decide
  obtain ⟨hconfirmed, honce⟩ := close_confirmed none none asked
  refine ⟨hfx, (hconfirmed _ _ hfx).2.1, honce [.setData oneAgent] [.setData oneAgent] rfl rfl ?_⟩
  exact ⟨fun hx => absurd hx.1 (by decide), trivial⟩

end MemMux.Tui
