/-
MemMux/Loop.lean

What the event loop of the terminal interface does to the model of `app.rs`: nothing but inputs of it,
and changes that no invariant of its panes, data and selections can see.

So such an invariant of the pure interface is one of the loop (`Invariant.turns`): the focused pane
is always visible, the layouts are sound, and the sidebar's selections are valid
whatever the daemon answers.
-/
import MemMux.Frontend
import MemMux.Sidebar

namespace MemMux.Tui

variable {solve : Solver}

/-- Every input keeps it, and it depends on data, selections, panes and their focus only. -/
structure Invariant (solve : Solver) (I : Model → Prop) : Prop where
  act : ∀ m a, I m → I (act solve m a)
  steady : ∀ m m', Steady m m' → I m → I m'

namespace Frontend

variable (solve)

/-- Resizing the visible sessions changes nothing of the model but which screens are cached. -/
theorem foldl_syncPane (es : List (String × (UInt16 × UInt16))) (f : Frontend) :
    (∃ screened, (es.foldl (fun f e => f.syncPane e) f).model
        = { f.model with screened := screened }) ∧
      (es.foldl (fun f e => f.syncPane e) f).panes
        = es.foldl (fun p e => p.resize e.1 e.2.1 e.2.2) f.panes := by
  induction es generalizing f with
  | nil => exact ⟨⟨f.model.screened, rfl⟩, rfl⟩
  | cons e es ih =>
      obtain ⟨⟨screened, hmodel⟩, hpanes⟩ := ih (f.syncPane e)
      exact ⟨⟨screened, hmodel⟩, hpanes⟩

/-- Drawing changes nothing of the model but the cached screens and the status line. -/
theorem drawn_model (t : Turn) (f : Frontend) :
    ∃ screened msg, (f.drawn solve t).model
      = { f.model with screened := screened, status := msg } := by
  obtain ⟨⟨screened, h⟩, -⟩ := foldl_syncPane (f.model.paneSizes solve t.screen)
    { f with panes := f.panes.retain f.allIds }
  have hsync : (f.syncPanes solve t.screen).model
      = { f.model with screened := screened.filter (· ∈ f.allIds) } := by
    unfold syncPanes
    dsimp only
    rw [h]
  unfold drawn
  dsimp only
  split
  · next msg _ =>
    refine ⟨screened.filter (· ∈ f.allIds), msg, ?_⟩
    show { (f.syncPanes solve t.screen).model with status := msg } = _
    rw [hsync]
  · exact ⟨_, f.model.status, hsync⟩

end Frontend

namespace Invariant

variable {I : Model → Prop} (hI : Invariant solve I)
include hI

/-- The status line is no part of it. -/
theorem status (msg : String) {m : Model} (hm : I m) : I { m with status := msg } :=
  hI.steady m _ ⟨rfl, rfl, rfl, rfl, rfl, rfl⟩ hm

theorem refresh (fetched : Except String Data) {m : Model} (hm : I m) :
    I (m.refresh fetched) := by
  cases fetched with
  | ok data =>
      have hdata := hI.act m (.event (.setData data)) hm
      unfold Tui.act next step at hdata
      dsimp only at hdata
      unfold Model.refresh
      dsimp only
      exact hI.status "connected" hdata
  | error e => exact hI.status _ hm

theorem openPane (id : String) {m : Model} (hm : I m) : I (m.openPane id) :=
  hI.act m (.event (.openPane id)) hm

theorem closePane (id : String) {m : Model} (hm : I m) : I (m.closePane id) :=
  hI.act m (.event (.closePane id)) hm

theorem update (k : Key) {m : Model} (hm : I m) : I (update k m).1 :=
  hI.act m (.event (.key k)) hm

theorem openAgentPane (screen : Screen) (d : Daemon) (id : String) {f : Frontend}
    (hf : I f.model) : I (f.openAgentPane solve screen d id).model := by
  unfold Frontend.openAgentPane
  split
  · have hopen := hI.openPane id (hI.refresh d.fetch hf)
    dsimp only
    split
    · exact hopen
    · exact hI.closePane id (hI.status _ hopen)
  · exact hI.status _ (hI.refresh d.fetch (hI.closePane id hf))

theorem dropPane (d : Daemon) (id status : String) {f : Frontend} (hf : I f.model) :
    I (f.dropPane d id status).model :=
  hI.refresh d.fetch (hI.status status (hI.closePane id hf))

theorem say (msg : String) {f : Frontend} (hf : I f.model) : I (f.say msg).model :=
  hI.status msg hf

theorem listDir (d : Daemon) (path : String) {m : Model} (hm : I m) : I (m.listDir d path) := by
  unfold Model.listDir
  dsimp only
  split <;> exact hI.steady m _ ⟨rfl, rfl, rfl, rfl, rfl, rfl⟩ hm

theorem applyEffect (screen : Screen) (d : Daemon) (e : Effect) {f : Frontend} (hf : I f.model) :
    I (f.applyEffect solve screen d e).model := by
  cases e with
  | refresh => exact hI.refresh d.fetch hf
  | createTask req =>
      unfold Frontend.applyEffect
      dsimp only
      split
      · exact hI.refresh d.fetch hf
      · exact hI.say _ hf
  | quickLaunch provider repo shell =>
      unfold Frontend.applyEffect
      dsimp only
      split
      · exact hI.openAgentPane screen d _ (hI.say _ hf)
      · exact hI.say _ hf
  | openPane id => exact hI.openAgentPane screen d id hf
  | terminateTask id =>
      unfold Frontend.applyEffect
      dsimp only
      split
      · exact hI.dropPane d id _ hf
      · exact hI.say _ hf
  | forgetTask id =>
      unfold Frontend.applyEffect
      dsimp only
      split
      · exact hI.dropPane d id _ hf
      · exact hI.say _ hf
  | listDir path => exact hI.listDir d path hf
  | addWorkspace path =>
      unfold Frontend.applyEffect
      dsimp only
      split
      · exact hI.refresh d.fetch hf
      · exact hI.say _ hf

theorem applyEffects (screen : Screen) (es : List Effect) (ds : Nat → Daemon) {f : Frontend}
    (hf : I f.model) : I (Frontend.applyEffects solve screen es ds f).model := by
  induction es generalizing ds f with
  | nil => exact hf
  | cons e es ih => exact ih _ (hI.applyEffect screen (ds 0) e hf)

theorem commandKey (screen : Screen) (code : KeyCode) (ctrl : Bool) {f : Frontend}
    (hf : I f.model) : I (f.commandKey solve screen code ctrl).model := by
  have hmove : ∀ dir, I (f.model.focusDir solve dir (gridArea screen.1 screen.2)) := fun dir =>
    hI.act f.model (.focusDir dir _) hf
  unfold Frontend.commandKey
  dsimp only
  split
  · exact hI.steady f.model _ ⟨rfl, rfl, rfl, rfl, rfl, rfl⟩ hf
  · exact hI.steady f.model _ ⟨rfl, rfl, rfl, rfl, rfl, rfl⟩ hf
  · exact hI.steady f.model _ ⟨rfl, rfl, rfl, rfl, rfl, rfl⟩ hf
  · exact hmove .left
  · exact hmove .down
  · exact hmove .up
  · exact hmove .right
  · exact hI.act f.model .toggleZoom hf
  · unfold Frontend.closeFocused
    split
    · exact hI.closePane _ hf
    · exact hf
  · exact hf
  · exact hI.steady f.model _ ⟨rfl, rfl, rfl, rfl, rfl, rfl⟩ hf
  · exact hI.steady f.model _ ⟨rfl, rfl, rfl, rfl, rfl, rfl⟩ hf
  · split
    · unfold Frontend.typeBytes
      split <;> exact hf
    · exact hf

theorem handlePaneKey (screen : Screen) (code : KeyCode) (ctrl : Bool) {f : Frontend}
    (hf : I f.model) : I (f.handlePaneKey solve screen code ctrl).model := by
  have hresize : ∀ dir, I (f.model.resizeFocused dir) := fun dir =>
    hI.act f.model (.resizeFocused dir) hf
  unfold Frontend.handlePaneKey
  split
  · unfold Frontend.resizeKey
    split <;> first
      | exact hf
      | exact hresize _
  · split
    · exact hI.commandKey screen code ctrl hf
    · split
      · exact hf
      · split
        · unfold Frontend.typeBytes
          split <;> exact hf
        · exact hf

theorem handle (screen : Screen) (i : Frontend.Input) {f : Frontend} (hf : I f.model) :
    I (f.handle solve screen i).model := by
  cases i with
  | key code ctrl ds =>
      unfold Frontend.handle
      dsimp only
      split
      · exact hI.handlePaneKey screen code ctrl hf
      · split
        · exact hI.applyEffects screen _ ds (hI.update _ hf)
        · exact hf
  | click col row =>
      unfold Frontend.handle
      dsimp only
      split
      · have hselect := hI.act f.model (.selectNavAt col row (sidebarArea screen.1 screen.2)) hf
        show I (f.model.handleMouseClick solve screen.1 screen.2 col row)
        unfold Model.handleMouseClick
        dsimp only
        split
        · exact hselect
        · exact hI.act _ (.focusPaneAt col row (gridArea screen.1 screen.2)) hselect
      · exact hf

theorem drawn (t : Frontend.Turn) {f : Frontend} (hf : I f.model) :
    I (f.drawn solve t).model := by
  obtain ⟨screened, msg, h⟩ := f.drawn_model solve t
  rw [h]
  exact hI.steady f.model _ ⟨rfl, rfl, rfl, rfl, rfl, rfl⟩ hf

theorem handled (t : Frontend.Turn) {f : Frontend} (hf : I f.model) :
    I (f.handled solve t).model := by
  unfold Frontend.handled
  split
  · exact hI.handle t.screen _ hf
  · exact hf

theorem fetched (t : Frontend.Turn) {f : Frontend} (hf : I f.model) : I (f.fetched t).model := by
  unfold Frontend.fetched
  split
  · split
    · exact hf
    · exact hI.refresh _ hf
  · exact hf

/-- **An invariant of the pure interface is one of the event loop.** -/
theorem turn (t : Frontend.Turn) {f : Frontend} (hf : I f.model) : I (f.turn solve t).model := by
  unfold Frontend.turn
  split
  · exact hf
  · exact hI.fetched t (hI.handled t (hI.drawn t hf))

/-- What holds of the pure interface when it starts holds of the loop when it does. -/
theorem launch (cwd cwdRepo leader : Option String) (data : Except String Data)
    (autostart : Except String Bool) (hstart : I (start cwd cwdRepo)) :
    I (Frontend.launch cwd cwdRepo leader data autostart).model := by
  unfold Frontend.launch
  exact hI.status _ (hI.refresh data hstart)

/-- **What the pure interface always keeps, the event loop does.** -/
theorem turns (cwd cwdRepo leader : Option String) (data : Except String Data)
    (autostart : Except String Bool) (hstart : I (start cwd cwdRepo)) (ts : List Frontend.Turn) :
    I (Run.run (Frontend.turn solve) (.launch cwd cwdRepo leader data autostart) ts).model :=
  Run.always (I := fun f : Frontend => I f.model) (fun _ t hf => hI.turn t hf)
    (hI.launch cwd cwdRepo leader data autostart hstart) ts

end Invariant

/-! ### Invariants of the pure interface -/

theorem invariant_paneFocused (solve : Solver) : Invariant solve PaneFocused where
  act _ a hm := paneFocused_act solve hm a
  steady _ _ h hm := hm.congr h.panes h.activeWs h.focusedPane

theorem invariant_layoutsSound (solve : Solver) : Invariant solve LayoutsSound where
  act _ a hm := hm.act solve a
  steady _ _ h hm := hm.of_panes h.panes

theorem invariant_sidebarValid (solve : Solver) : Invariant solve SidebarValid where
  act _ a hm := sidebarValid_act solve hm a
  steady _ _ h hm := hm.of_sameRows ⟨h.data, h.wsSelected, h.agentSelected⟩

end MemMux.Tui
