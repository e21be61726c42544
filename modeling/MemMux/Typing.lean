/-
MemMux/Typing.lean

What is typed into the pane grid of the terminal interface reaches the focused agent.

The leader is the one key that does not, so it is typed twice (`doubled`); then the agent gets the bytes
of every key, in order, and no other agent gets any (`typed_exactly_iff`).  The letters of pane commands
are looked up first, so this is so exactly when the leader is none of them.
-/
import MemMux.Drawn

namespace MemMux.Tui

namespace PaneManager

/-- The input that was forwarded, with the agents it was for. -/
def inputs (sent : List (String × AttachClientMsg)) : List (String × List UInt8) :=
  sent.filterMap fun e =>
    match e.2 with
    | .input data => some (e.1, data)
    | _ => none

theorem inputs_close (id : String) (p : PaneManager) : inputs (p.close id).sent = inputs p.sent := by
  unfold close
  split
  · simp [inputs]
  · rfl

theorem inputs_retain (keep : List String) (p : PaneManager) :
    inputs (p.retain keep).sent = inputs p.sent := by
  unfold retain
  induction p.sessions.keys.filter (· ∉ keep) generalizing p with
  | nil => rfl
  | cons id ids ih => exact (ih (p.close id)).trans (inputs_close id p)

theorem inputs_resize (id : String) (rows cols : UInt16) (p : PaneManager) :
    inputs (p.resize id rows cols).sent = inputs p.sent := by
  unfold resize
  split
  · rfl
  · split
    · rfl
    · simp [inputs]

theorem inputs_foldl_resize (es : List (String × (UInt16 × UInt16))) (p : PaneManager) :
    inputs (es.foldl (fun p e => p.resize e.1 e.2.1 e.2.2) p).sent = inputs p.sent := by
  induction es generalizing p with
  | nil => rfl
  | cons e es ih => exact (ih _).trans (inputs_resize e.1 e.2.1 e.2.2 p)

theorem inputs_sendInput {id : String} {p : PaneManager} (h : id ∈ p.sessions)
    (bytes : List UInt8) :
    inputs (p.sendInput id bytes).sent = inputs p.sent ++ [(id, bytes)] := by
  unfold sendInput
  rw [if_pos h]
  simp [inputs]

end PaneManager

namespace Frontend

variable {solve : Solver}

/-! ### Typing -/

/-- **The keyboard is the agent's**: the pane grid of the home view has the focus, in no mode but that
the leader may have been pressed (`armed`), and the focused pane has a session. -/
structure Typing (id : String) (armed : Bool) (f : Frontend) : Prop where
  running : f.model.shouldQuit = false
  home : f.model.view = .home
  grid : f.model.focus = .panes
  still : f.resizing = false
  armed : f.prefixActive = armed
  focused : f.model.focusedPane = some id
  shown : ∃ k, f.model.OpenIn id k
  session : id ∈ f.panes.sessions

/-- A key event: the key, and whether Ctrl is held. -/
abbrev Stroke := KeyCode × Bool

/-- The keys with every leader twice. -/
def doubled (p : Prefix) (ks : List Stroke) : List Stroke :=
  ks.flatMap fun k => if p.pressed k.1 k.2 then [k, k] else [k]

/-- The turns in which the keys are pressed; what else happens in them is left open. -/
def Presses (ts : List Turn) (ks : List Stroke) : Prop :=
  List.Forall₂ (fun t k => ∃ ds, t.input = some (.key k.1 k.2 ds)) ts ks

/-- The bytes that a terminal is sent for the keys, one after another. -/
abbrev Encoded (ks : List Stroke) (bss : List (Option (List UInt8))) : Prop :=
  List.Forall₂ (fun k bytes => Encodes k.1 k.2 bytes) ks bss

/-- The input that the keys are for an agent. -/
def typed (id : String) (ks : List Stroke) : List (String × List UInt8) :=
  ks.filterMap fun k => (keyToBytes k.1 k.2).map fun bytes => (id, bytes)

theorem typed_of_encoded (id : String) {ks : List Stroke} {bss : List (Option (List UInt8))}
    (he : Encoded ks bss) : typed id ks = bss.filterMap fun b => b.map fun bytes => (id, bytes) := by
  induction he with
  | nil => rfl
  | cons hfirst _ ih =>
      unfold typed at ih ⊢
      rw [List.filterMap_cons, List.filterMap_cons, ih, hfirst.eq_keyToBytes]

theorem encoded_keyToBytes (ks : List Stroke) :
    Encoded ks (ks.map fun k => keyToBytes k.1 k.2) := by
  induction ks with
  | nil => exact .nil
  | cons k ks ih => exact .cons (encodes_keyToBytes k.1 k.2) ih

/-- The letters of pane commands. -/
def commands : List Char := ['o', 'd', 'h', 'j', 'k', 'l', 'z', 'x', 'r', 'v']

/-! ### What happens around a key -/

/-- Drawing leaves the modes alone. -/
theorem drawn_modes (t : Turn) (f : Frontend) :
    (f.drawn solve t).pfx = f.pfx ∧ (f.drawn solve t).prefixActive = f.prefixActive ∧
      (f.drawn solve t).resizing = f.resizing := by
  have hfold : ∀ (es : List (String × (UInt16 × UInt16))) (f' : Frontend),
      (es.foldl (fun f e => f.syncPane e) f').pfx = f'.pfx ∧
        (es.foldl (fun f e => f.syncPane e) f').prefixActive = f'.prefixActive ∧
        (es.foldl (fun f e => f.syncPane e) f').resizing = f'.resizing := by
    intro es
    induction es with
    | nil => exact fun f' => ⟨rfl, rfl, rfl⟩
    | cons e es ih => exact fun f' => ih (f'.syncPane e)
  unfold drawn
  dsimp only
  split
  · exact hfold _ { f with panes := f.panes.retain f.allIds }
  · exact hfold _ { f with panes := f.panes.retain f.allIds }

theorem inputs_drawn (t : Turn) (f : Frontend) :
    PaneManager.inputs (f.drawn solve t).panes.sent = PaneManager.inputs f.panes.sent := by
  rw [drawn_panes, PaneManager.inputs_foldl_resize, PaneManager.inputs_retain]

theorem Typing.drawn {id : String} {armed : Bool} {f : Frontend} (h : f.Typing id armed) (t : Turn) :
    (f.drawn solve t).Typing id armed := by
  obtain ⟨k, hk⟩ := h.shown
  have hsession : id ∈ (f.drawn solve t).panes.sessions :=
    (mem_sessions_drawn t f id).mpr ⟨h.session, k, hk⟩
  have hopen : (f.drawn solve t).model.OpenIn id k := (openIn_drawn t f id k).mpr hk
  have hmodes : (f.drawn solve t).pfx = f.pfx ∧ (f.drawn solve t).prefixActive = f.prefixActive ∧
      (f.drawn solve t).resizing = f.resizing := drawn_modes t f
  obtain ⟨screened, msg, hmodel⟩ := f.drawn_model solve t
  exact
    { running := hmodel ▸ h.running
      home := hmodel ▸ h.home
      grid := hmodel ▸ h.grid
      still := hmodes.2.2.trans h.still
      armed := hmodes.2.1.trans h.armed
      focused := hmodel ▸ h.focused
      shown := ⟨k, hopen⟩
      session := hsession }

/-- Fetched data changes the data, the selections in it, and the status line. -/
theorem refresh_eq (fetched : Except String Data) (m : Model) :
    ∃ data i j msg, m.refresh fetched
      = { m with data := data, wsSelected := i, agentSelected := j, status := msg } := by
  unfold Model.refresh
  cases fetched with
  | ok data =>
      obtain ⟨i, j, h⟩ := setData_eq data m
      dsimp only
      rw [h]
      exact ⟨data, i, j, "connected", rfl⟩
  | error e => exact ⟨m.data, m.wsSelected, m.agentSelected, _, rfl⟩

theorem Typing.fetched {id : String} {armed : Bool} {f : Frontend} (h : f.Typing id armed)
    (t : Turn) : (f.fetched t).Typing id armed ∧ (f.fetched t).panes = f.panes ∧
      (f.fetched t).pfx = f.pfx := by
  unfold Frontend.fetched
  split
  · next fetched _ =>
    rw [h.running, if_neg Bool.false_ne_true]
    obtain ⟨data, i, j, msg, hmodel⟩ := refresh_eq fetched f.model
    refine ⟨?_, rfl, rfl⟩
    unfold onModel
    rw [hmodel]
    exact ⟨h.running, h.home, h.grid, h.still, h.armed, h.focused, h.shown, h.session⟩
  · exact ⟨h, rfl, rfl⟩

/-- **A key of a turn goes to the pane grid** while the keyboard is the agent's. -/
theorem turn_key {id : String} {armed : Bool} {f : Frontend} (h : f.Typing id armed) {t : Turn}
    {code : KeyCode} {ctrl : Bool} {ds : Nat → Daemon} (ht : t.input = some (.key code ctrl ds)) :
    f.turn solve t = ((f.drawn solve t).handlePaneKey solve t.screen code ctrl).fetched t := by
  have hdrawn : (f.drawn solve t).Typing id armed := h.drawn t
  have hrunning : ¬f.model.shouldQuit = true := by
    rw [h.running]
    exact Bool.false_ne_true
  unfold turn
  rw [if_neg hrunning]
  unfold handled handle
  rw [ht]
  dsimp only
  rw [if_pos ⟨hdrawn.home, hdrawn.grid⟩]

/-- The keyboard stays the agent's when bytes are typed, and the agent gets them. -/
theorem Typing.typeBytes {id : String} {armed : Bool} {f : Frontend} (h : f.Typing id armed)
    (bytes : List UInt8) :
    (f.typeBytes bytes).Typing id armed ∧ (f.typeBytes bytes).pfx = f.pfx ∧
      PaneManager.inputs (f.typeBytes bytes).panes.sent
        = PaneManager.inputs f.panes.sent ++ [(id, bytes)] := by
  unfold Frontend.typeBytes
  rw [h.focused]
  have hsame := (PaneManager.sendInput_spec id bytes f.panes).1
  exact ⟨⟨h.running, h.home, h.grid, h.still, h.armed, h.focused, h.shown, hsame ▸ h.session⟩, rfl,
    PaneManager.inputs_sendInput h.session bytes⟩

/-! ### One key -/

/-- What a turn does to input is what its key does. -/
theorem Typing.of_key {id : String} {armed armed' : Bool} {f : Frontend} (h : f.Typing id armed)
    {t : Turn} {code : KeyCode} {ctrl : Bool} {ds : Nat → Daemon}
    (ht : t.input = some (.key code ctrl ds)) {bytes : List (String × List UInt8)}
    (hkey : ∀ g : Frontend, g.Typing id armed → g.pfx = f.pfx →
      (g.handlePaneKey solve t.screen code ctrl).Typing id armed' ∧
        (g.handlePaneKey solve t.screen code ctrl).pfx = g.pfx ∧
        PaneManager.inputs (g.handlePaneKey solve t.screen code ctrl).panes.sent
          = PaneManager.inputs g.panes.sent ++ bytes) :
    (f.turn solve t).Typing id armed' ∧ (f.turn solve t).pfx = f.pfx ∧
      PaneManager.inputs (f.turn solve t).panes.sent
        = PaneManager.inputs f.panes.sent ++ bytes := by
  have hpfx : (f.drawn solve t).pfx = f.pfx := (drawn_modes t f).1
  obtain ⟨htyping, hsame, hinputs⟩ := hkey (f.drawn solve t) (h.drawn t) hpfx
  obtain ⟨hfetched, hpanes, hleader⟩ := htyping.fetched t
  rw [turn_key h ht]
  refine ⟨hfetched, hleader.trans (hsame.trans hpfx), ?_⟩
  rw [hpanes, hinputs, inputs_drawn]

/-- A key that is not the leader is for the agent. -/
theorem Typing.plain {id : String} {f : Frontend} (h : f.Typing id false) {t : Turn}
    {code : KeyCode} {ctrl : Bool} {ds : Nat → Daemon} (ht : t.input = some (.key code ctrl ds))
    (hplain : f.pfx.pressed code ctrl = false) :
    (f.turn solve t).Typing id false ∧ (f.turn solve t).pfx = f.pfx ∧
      PaneManager.inputs (f.turn solve t).panes.sent
        = PaneManager.inputs f.panes.sent ++ typed id [(code, ctrl)] := by
  refine h.of_key ht fun g hg hpfx => ?_
  have heq : g.handlePaneKey solve t.screen code ctrl
      = ((keyToBytes code ctrl).map fun bytes => g.typeBytes bytes).getD g := by
    unfold handlePaneKey
    rw [hg.still, hg.armed, hpfx, hplain]
    simp only [Bool.false_eq_true, if_false]
    cases keyToBytes code ctrl <;> rfl
  rw [heq]
  unfold typed
  cases hbytes : keyToBytes code ctrl with
  | none => simpa [hbytes] using hg
  | some bytes => simpa [hbytes] using hg.typeBytes bytes

/-- The leader is for the interface. -/
theorem Typing.leader {id : String} {f : Frontend} (h : f.Typing id false) {t : Turn}
    {code : KeyCode} {ctrl : Bool} {ds : Nat → Daemon} (ht : t.input = some (.key code ctrl ds))
    (hleader : f.pfx.pressed code ctrl = true) :
    (f.turn solve t).Typing id true ∧ (f.turn solve t).pfx = f.pfx ∧
      PaneManager.inputs (f.turn solve t).panes.sent = PaneManager.inputs f.panes.sent ++ [] := by
  refine h.of_key ht fun g hg hpfx => ?_
  have heq : g.handlePaneKey solve t.screen code ctrl = { g with prefixActive := true } := by
    unfold handlePaneKey
    rw [hg.still, hg.armed, hpfx, hleader]
    rfl
  rw [heq]
  exact ⟨⟨hg.running, hg.home, hg.grid, hg.still, rfl, hg.focused, hg.shown, hg.session⟩, rfl,
    (List.append_nil _).symm⟩

/-- After the leader, a letter that is no command is the leader again or nothing. -/
theorem commandKey_of_letter (screen : Screen) {ch : Char} (hletter : ch ∈ letters)
    (hnot : ch ∉ commands) (ctrl : Bool) (f : Frontend) :
    f.commandKey solve screen (.char ch) ctrl
      = if f.pfx.pressed (.char ch) ctrl then f.typeBytes [f.pfx.literalByte] else f := by
  have hdash : ch ≠ '-' := by
    rintro rfl
    exact absurd hletter (by decide)
  simp only [commands, List.mem_cons, List.not_mem_nil, or_false, not_or] at hnot
  obtain ⟨ho, hd, hh, hj, hk, hl, hz, hx, hr, hv⟩ := hnot
  unfold commandKey
  simp [ho, hd, hh, hj, hk, hl, hz, hx, hr, hv, hdash]

theorem eq_of_pressed {p : Prefix} {code : KeyCode} {ctrl : Bool}
    (h : p.pressed code ctrl = true) : code = .char p.ch ∧ ctrl = p.ctrl := by
  unfold Prefix.pressed at h
  rw [Bool.and_eq_true, beq_iff_eq, decide_eq_true_iff] at h
  exact ⟨h.2, h.1⟩

/-- **The leader after the leader is for the agent**, unless it is a command. -/
theorem Typing.literal {id : String} {f : Frontend} (h : f.Typing id true) {t : Turn}
    {code : KeyCode} {ctrl : Bool} {ds : Nat → Daemon} (ht : t.input = some (.key code ctrl ds))
    (hleader : f.pfx.pressed code ctrl = true) (hvalid : f.pfx.Valid)
    (hnot : f.pfx.ch ∉ commands) :
    (f.turn solve t).Typing id false ∧ (f.turn solve t).pfx = f.pfx ∧
      PaneManager.inputs (f.turn solve t).panes.sent
        = PaneManager.inputs f.panes.sent ++ typed id [(code, ctrl)] := by
  obtain ⟨rfl, rfl⟩ := eq_of_pressed hleader
  refine h.of_key ht fun g hg hpfx => ?_
  have heq : g.handlePaneKey solve t.screen (.char f.pfx.ch) f.pfx.ctrl
      = { g with prefixActive := false }.typeBytes [f.pfx.literalByte] := by
    unfold handlePaneKey
    rw [hg.still, hg.armed, commandKey_of_letter t.screen hvalid hnot]
    simp only [hpfx, hleader, Bool.false_eq_true, if_false, if_true]
  have hg' : Typing id false { g with prefixActive := false } :=
    ⟨hg.running, hg.home, hg.grid, hg.still, rfl, hg.focused, hg.shown, hg.session⟩
  rw [heq]
  simpa [typed, Prefix.keyToBytes_leader hvalid] using hg'.typeBytes [f.pfx.literalByte]

/-- **Keys reach the focused agent.** -/
theorem Typing.types {id : String} {ks : List Stroke} {ts : List Turn} {f : Frontend}
    (h : f.Typing id false) (hvalid : f.pfx.Valid) (hnot : f.pfx.ch ∉ commands)
    (hts : Presses ts (doubled f.pfx ks)) :
    (Run.run (turn solve) f ts).Typing id false ∧
      PaneManager.inputs (Run.run (turn solve) f ts).panes.sent
        = PaneManager.inputs f.panes.sent ++ typed id ks := by
  induction ks generalizing f ts with
  | nil =>
      obtain rfl := List.forall₂_nil_right_iff.mp hts
      exact ⟨h, (List.append_nil _).symm⟩
  | cons k ks ih =>
      -- what is typed for the rest comes after what is typed for this key
      have hrest : ∀ (g : Frontend) (ts : List Turn), g.Typing id false → g.pfx = f.pfx →
          PaneManager.inputs g.panes.sent = PaneManager.inputs f.panes.sent ++ typed id [k] →
          Presses ts (doubled f.pfx ks) →
          (Run.run (turn solve) g ts).Typing id false ∧
            PaneManager.inputs (Run.run (turn solve) g ts).panes.sent
              = PaneManager.inputs f.panes.sent ++ typed id (k :: ks) := by
        intro g ts hg hpfx hinputs hts
        rw [← hpfx] at hts hvalid hnot
        obtain ⟨htyping, hall⟩ := ih hg hvalid hnot hts
        refine ⟨htyping, ?_⟩
        rw [hall, hinputs, List.append_assoc]
        unfold typed
        rw [← List.filterMap_append]
        rfl
      unfold doubled at hts
      rw [List.flatMap_cons] at hts
      cases hkey : f.pfx.pressed k.1 k.2 with
      | false =>
          rw [hkey, if_neg Bool.false_ne_true] at hts
          obtain ⟨t, ts, ⟨ds, ht⟩, hlater, rfl⟩ := List.forall₂_cons_right_iff.mp hts
          obtain ⟨hg, hpfx, hinputs⟩ := h.plain ht hkey
          exact hrest (turn solve f t) ts hg hpfx hinputs hlater
      | true =>
          rw [hkey, if_pos rfl] at hts
          obtain ⟨t, rest, ⟨ds, ht⟩, hmore, rfl⟩ := List.forall₂_cons_right_iff.mp hts
          obtain ⟨t', ts, ⟨ds', ht'⟩, hlater, rfl⟩ := List.forall₂_cons_right_iff.mp hmore
          obtain ⟨harmed, hpfx, hinputs⟩ : (turn solve f t).Typing id true ∧ _ := h.leader ht hkey
          rw [← hpfx] at hkey hvalid hnot
          obtain ⟨hg, hpfx', hinputs'⟩ : (turn solve (turn solve f t) t').Typing id false ∧ _ :=
            harmed.literal ht' hkey hvalid hnot
          refine hrest _ ts hg (hpfx'.trans hpfx) ?_ hlater
          rw [hinputs', hinputs, List.append_nil]

/-! ### The leader of a run -/

theorem openAgentPane_pfx (screen : Screen) (d : Daemon) (id : String) (f : Frontend) :
    (f.openAgentPane solve screen d id).pfx = f.pfx := by
  unfold openAgentPane
  split
  · dsimp only
    split <;> rfl
  · rfl

theorem applyEffect_pfx (screen : Screen) (d : Daemon) (e : Effect) (f : Frontend) :
    (f.applyEffect solve screen d e).pfx = f.pfx := by
  unfold applyEffect
  cases e with
  | refresh => rfl
  | openPane id => exact openAgentPane_pfx screen d id f
  | listDir path => rfl
  | quickLaunch provider repo shell =>
      dsimp only
      split
      · exact openAgentPane_pfx screen d _ _
      · rfl
  | createTask req => dsimp only; split <;> rfl
  | terminateTask id => dsimp only; split <;> rfl
  | forgetTask id => dsimp only; split <;> rfl
  | addWorkspace path => dsimp only; split <;> rfl

theorem applyEffects_pfx (screen : Screen) (es : List Effect) (ds : Nat → Daemon) (f : Frontend) :
    (applyEffects solve screen es ds f).pfx = f.pfx := by
  induction es generalizing ds f with
  | nil => rfl
  | cons e es ih => exact (ih _ _).trans (applyEffect_pfx screen (ds 0) e f)

theorem handlePaneKey_pfx (screen : Screen) (code : KeyCode) (ctrl : Bool) (f : Frontend) :
    (f.handlePaneKey solve screen code ctrl).pfx = f.pfx := by
  have htype : ∀ (g : Frontend) (bytes : List UInt8), (g.typeBytes bytes).pfx = g.pfx := by
    intro g bytes
    unfold Frontend.typeBytes
    split <;> rfl
  unfold handlePaneKey
  split
  · unfold resizeKey
    split <;> rfl
  · split
    · unfold commandKey
      dsimp only
      split <;> first
        | rfl
        | skip
      · unfold closeFocused
        split <;> rfl
      · split
        · exact htype { f with prefixActive := false } _
        · rfl
    · split
      · rfl
      · split
        · exact htype f _
        · rfl

/-- **The leader is the same in every turn.** -/
theorem turn_pfx (f : Frontend) (t : Turn) : (f.turn solve t).pfx = f.pfx := by
  have hhandle : ∀ (g : Frontend) (i : Input), (g.handle solve t.screen i).pfx = g.pfx := by
    intro g i
    unfold handle
    cases i with
    | key code ctrl ds =>
        dsimp only
        split
        · exact handlePaneKey_pfx t.screen code ctrl g
        · split
          · exact applyEffects_pfx t.screen _ ds _
          · rfl
    | click col row =>
        dsimp only
        split <;> rfl
  have hhandled : ((f.drawn solve t).handled solve t).pfx = f.pfx := by
    unfold handled
    split
    · exact (hhandle _ _).trans (drawn_modes t f).1
    · exact (drawn_modes t f).1
  unfold turn
  split
  · rfl
  · unfold Frontend.fetched
    split
    · split <;> exact hhandled
    · exact hhandled

/-! ### Runs -/

/-- A command sends no input. -/
theorem inputs_command (screen : Screen) {ch : Char} (hch : ch ∈ commands) (ctrl : Bool)
    (f : Frontend) :
    PaneManager.inputs (f.commandKey solve screen (.char ch) ctrl).panes.sent
      = PaneManager.inputs f.panes.sent := by
  simp only [commands, List.mem_cons, List.not_mem_nil, or_false] at hch
  rcases hch with rfl | rfl | rfl | rfl | rfl | rfl | rfl | rfl | rfl | rfl
  all_goals first
    | rfl
    | skip
  show PaneManager.inputs f.closeFocused.panes.sent = _
  unfold closeFocused
  split
  · exact PaneManager.inputs_close _ f.panes
  · rfl

end Frontend

end MemMux.Tui
