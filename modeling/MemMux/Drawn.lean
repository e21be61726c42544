/-
MemMux/Drawn.lean

What the sessions of the terminal interface owe the panes whenever the screen is drawn.

A session belongs to an open pane; the size that its agent was told last is the one the session has; and
the session of a drawn pane has the size of the pane's inside (`drawn_sized`).  An open pane has
a session as long as tasks stay in the groups their panes were opened in (`sessions_iff_open`): a pane
is opened and closed in the group that the data of the moment names.
-/
import MemMux.Loop

namespace MemMux.Tui

namespace PaneManager

/-! ### Sizes -/

/-- The size that the agent `id` was told last. -/
def lastSize (id : String) (sent : List (String × AttachClientMsg)) : Option (UInt16 × UInt16) :=
  (sent.filterMap fun e =>
    match e.2 with
    | .resize rows cols => if e.1 = id then some (rows, cols) else none
    | _ => none).getLast?

theorem lastSize_resize (id i : String) (sent : List (String × AttachClientMsg))
    (rows cols : UInt16) :
    lastSize id (sent ++ [(i, .resize rows cols)])
      = if i = id then some (rows, cols) else lastSize id sent := by
  unfold lastSize
  rw [List.filterMap_append]
  split
  · next h => simp [h]
  · next h => simp [h]

theorem lastSize_input (id i : String) (sent : List (String × AttachClientMsg))
    (data : List UInt8) : lastSize id (sent ++ [(i, .input data)]) = lastSize id sent := by
  simp [lastSize]

theorem lastSize_detach (id i : String) (sent : List (String × AttachClientMsg)) :
    lastSize id (sent ++ [(i, .detach)]) = lastSize id sent := by
  simp [lastSize]

/-- **Agents know their sizes**: the size of a session is the one its agent was told last. -/
def Told (p : PaneManager) : Prop :=
  ∀ id size, p.sessions.lookup id = some size → lastSize id p.sent = some size

/-! ### Operations -/

/-- What closing a session does. -/
theorem close_spec (id : String) (p : PaneManager) :
    (∀ k, (p.close id).sessions.lookup k = if k = id then none else p.sessions.lookup k) ∧
      ∀ k, lastSize k (p.close id).sent = lastSize k p.sent := by
  unfold close
  split
  · exact ⟨fun k => KeyMap.lookup_erase_ite p.sessions id k, fun k => lastSize_detach k id p.sent⟩
  · next h =>
    refine ⟨fun k => ?_, fun k => rfl⟩
    split
    · next hk => rw [hk, KeyMap.not_mem_iff_lookup.mp h]
    · rfl

/-- What forwarding input does: nothing to the sessions. -/
theorem sendInput_spec (id : String) (bytes : List UInt8) (p : PaneManager) :
    (p.sendInput id bytes).sessions = p.sessions ∧
      ∀ k, lastSize k (p.sendInput id bytes).sent = lastSize k p.sent := by
  unfold sendInput
  split
  · exact ⟨rfl, fun k => lastSize_input k id p.sent bytes⟩
  · exact ⟨rfl, fun k => rfl⟩

/-- What opening a session does: if there was none, there is one then, of the size its agent is told. -/
theorem openSession_spec {id : String} {rows cols : UInt16} {attach : Except String Unit}
    {p p' : PaneManager} (h : p.openSession id rows cols attach = .ok p') :
    (id ∈ p.sessions ∧ p' = p) ∨
      (id ∉ p.sessions ∧ p' = { sessions := p.sessions.insert id (rows, cols)
                                sent := p.sent ++ [(id, .resize rows cols)] }) := by
  unfold openSession at h
  split at h
  · next hin => exact .inl ⟨hin, (Except.ok.inj h).symm⟩
  · next hin =>
    split at h
    · exact .inr ⟨hin, (Except.ok.inj h).symm⟩
    · cases h

/-- What resizing does: a session gets the size, unless that is empty. -/
theorem lookup_resize (id : String) (rows cols : UInt16) (p : PaneManager) (k : String) :
    (p.resize id rows cols).sessions.lookup k
      = if k = id ∧ rows ≠ 0 ∧ cols ≠ 0 then (p.sessions.lookup k).map fun _ => (rows, cols)
        else p.sessions.lookup k := by
  unfold resize
  cases hsize : p.sessions.lookup id with
  | none =>
      dsimp only
      split
      · next hk => rw [hk.1, hsize, Option.map_none]
      · rfl
  | some size =>
      dsimp only
      split
      · next hsame =>
        split
        · next hk =>
          have hsize' := hsame.resolve_right (by simp [hk.2.1, hk.2.2])
          rw [hk.1, hsize, Option.map_some, hsize']
        · rfl
      · next hnew =>
        obtain ⟨-, hrows, hcols⟩ : _ ∧ rows ≠ 0 ∧ cols ≠ 0 := by simpa using hnew
        rw [KeyMap.lookup_insert_ite]
        by_cases hk : k = id
        · rw [if_pos hk, if_pos ⟨hk, hrows, hcols⟩, hk, hsize, Option.map_some]
        · rw [if_neg hk, if_neg (fun h => hk h.1)]

namespace Told

variable {p : PaneManager}

theorem close (h : p.Told) (id : String) : (p.close id).Told := by
  obtain ⟨hsessions, hsent⟩ := close_spec id p
  intro k size hk
  rw [hsessions] at hk
  rw [hsent]
  split at hk
  · cases hk
  · exact h k size hk

theorem sendInput (h : p.Told) (id : String) (bytes : List UInt8) : (p.sendInput id bytes).Told := by
  obtain ⟨hsessions, hsent⟩ := sendInput_spec id bytes p
  intro k size hk
  rw [hsessions] at hk
  rw [hsent]
  exact h k size hk

/-- Giving a session a size and telling its agent. -/
theorem insert (h : p.Told) (id : String) (rows cols : UInt16) :
    Told { sessions := p.sessions.insert id (rows, cols)
           sent := p.sent ++ [(id, .resize rows cols)] } := by
  intro k size hk
  rw [KeyMap.lookup_insert_ite] at hk
  rw [lastSize_resize]
  split at hk
  · next hkid => rw [if_pos hkid.symm, hk]
  · next hkid =>
    rw [if_neg (Ne.symm hkid)]
    exact h k size hk

theorem openSession (h : p.Told) {id : String} {rows cols : UInt16} {attach : Except String Unit}
    {p' : PaneManager} (hopen : p.openSession id rows cols attach = .ok p') : p'.Told := by
  rcases openSession_spec hopen with ⟨-, rfl⟩ | ⟨-, rfl⟩
  · exact h
  · exact h.insert id rows cols

theorem resize (h : p.Told) (id : String) (rows cols : UInt16) : (p.resize id rows cols).Told := by
  unfold PaneManager.resize
  split
  · exact h
  · split
    · exact h
    · exact h.insert id rows cols

theorem retain (h : p.Told) (keep : List String) : (p.retain keep).Told := by
  unfold PaneManager.retain
  induction p.sessions.keys.filter (· ∉ keep) generalizing p with
  | nil => exact h
  | cons id ids ih => exact ih (h.close id)

end Told

/-- What dropping sessions does. -/
theorem lookup_retain (keep : List String) (p : PaneManager) (k : String) :
    (p.retain keep).sessions.lookup k = if k ∈ keep then p.sessions.lookup k else none := by
  have hfold : ∀ (ids : List String) (p : PaneManager),
      (ids.foldl (fun p id => p.close id) p).sessions.lookup k
        = if k ∈ ids then none else p.sessions.lookup k := by
    intro ids
    induction ids with
    | nil => exact fun p => rfl
    | cons id ids ih =>
        intro p
        rw [List.foldl_cons, ih, (close_spec id p).1]
        by_cases hk : k = id <;> by_cases hin : k ∈ ids <;> simp [hk, hin]
  unfold retain
  rw [hfold]
  simp only [List.mem_filter, decide_eq_true_iff]
  by_cases hkeep : k ∈ keep
  · simp [hkeep]
  · by_cases hin : k ∈ p.sessions.keys
    · simp [hkeep, hin]
    · have hnone : p.sessions.lookup k = none := AList.lookup_eq_none.mpr hin
      simp [hkeep, hnone]

end PaneManager

/-! ### Panes on the screen -/

/-- The size of what is inside a border of one cell, rows first. -/
def Rect.inner (r : Rect) : UInt16 × UInt16 := (saturatingSub r.height 2, saturatingSub r.width 2)

/-- Sessions are sized by what is drawn, on a screen that has room for it. -/
theorem paneSizes_eq (solve : Solver) {screen : Screen} {sidebar grid : Rect}
    (h : renderHome screen.1 screen.2 = some (sidebar, grid)) (m : Model) :
    m.paneSizes solve screen = (m.renderPaneGrid solve grid).map fun e => (e.1, e.2.inner) := by
  obtain ⟨-, rfl⟩ := renderHome_areas h
  unfold Model.paneSizes Model.renderPaneGrid
  cases m.activePanes <;> rfl

namespace Frontend

variable {solve : Solver}

/-! ### What is drawn -/

/-- The ids are those of the open panes. -/
theorem mem_allIds {f : Frontend} {id : String} : id ∈ f.allIds ↔ ∃ k, f.model.OpenIn id k := by
  unfold allIds KeyMap.values
  rw [List.mem_flatMap]
  constructor
  · rintro ⟨l, hl, hid⟩
    obtain ⟨e, he, rfl⟩ := List.mem_map.mp hl
    exact ⟨e.1, e.2, AList.mem_lookup_iff.mpr he, hid⟩
  · rintro ⟨k, l, hl, hid⟩
    exact ⟨l, List.mem_map.mpr ⟨⟨k, l⟩, AList.mem_lookup_iff.mp hl, rfl⟩, hid⟩

theorem drawn_panes (t : Turn) (f : Frontend) :
    (f.drawn solve t).panes = (f.model.paneSizes solve t.screen).foldl
      (fun p e => p.resize e.1 e.2.1 e.2.2) (f.panes.retain f.allIds) := by
  obtain ⟨-, h⟩ := foldl_syncPane (f.model.paneSizes solve t.screen)
    { f with panes := f.panes.retain f.allIds }
  rw [← h]
  unfold drawn
  dsimp only
  split <;> rfl

/-- A session that no size is for keeps its own. -/
theorem lookup_foldl_resize_of_notMem {es : List (String × (UInt16 × UInt16))} {k : String}
    (hk : k ∉ es.map (·.1)) (p : PaneManager) :
    (es.foldl (fun p e => p.resize e.1 e.2.1 e.2.2) p).sessions.lookup k
      = p.sessions.lookup k := by
  induction es generalizing p with
  | nil => rfl
  | cons e es ih =>
      rw [List.map_cons, List.mem_cons, not_or] at hk
      rw [List.foldl_cons, ih hk.2, PaneManager.lookup_resize, if_neg fun h => hk.1 h.1]

/-- A session gets the size that is for it, unless that is empty. -/
theorem lookup_foldl_resize_of_mem {es : List (String × (UInt16 × UInt16))}
    (hnodup : (es.map (·.1)).Nodup) {e : String × (UInt16 × UInt16)} (he : e ∈ es)
    (hrows : e.2.1 ≠ 0) (hcols : e.2.2 ≠ 0) (p : PaneManager) :
    (es.foldl (fun p e => p.resize e.1 e.2.1 e.2.2) p).sessions.lookup e.1
      = (p.sessions.lookup e.1).map fun _ => e.2 := by
  induction es generalizing p with
  | nil => cases he
  | cons e' es ih =>
      rw [List.map_cons, List.nodup_cons] at hnodup
      rw [List.foldl_cons]
      rcases List.mem_cons.mp he with rfl | he
      · rw [lookup_foldl_resize_of_notMem hnodup.1, PaneManager.lookup_resize,
          if_pos ⟨rfl, hrows, hcols⟩]
      · have hne : e.1 ≠ e'.1 := fun h => hnodup.1 (h ▸ List.mem_map_of_mem he)
        rw [ih hnodup.2 he, PaneManager.lookup_resize, if_neg fun h => hne h.1]

/-- Resizing opens no session and closes none. -/
theorem mem_foldl_resize (es : List (String × (UInt16 × UInt16))) (p : PaneManager) (k : String) :
    k ∈ (es.foldl (fun p e => p.resize e.1 e.2.1 e.2.2) p).sessions ↔ k ∈ p.sessions := by
  induction es generalizing p with
  | nil => exact Iff.rfl
  | cons e es ih =>
      rw [List.foldl_cons, ih, ← AList.lookup_isSome, ← AList.lookup_isSome,
        PaneManager.lookup_resize]
      split
      · rw [Option.isSome_map]
      · rfl

/-- Every visible pane is visible once. -/
theorem nodup_paneSizes {m : Model} (hs : LayoutsSound m) (screen : Screen) :
    ((m.paneSizes solve screen).map (·.1)).Nodup := by
  unfold Model.paneSizes
  cases hl : m.activePanes with
  | none => exact List.nodup_nil
  | some l =>
      have hnodup : ((l.leafRects solve (gridArea screen.1 screen.2)).map (·.1)).Nodup := by
        obtain ⟨key, -, hkey⟩ := Option.bind_eq_some_iff.mp hl
        rw [l.map_fst_leafRects solve]
        exact (hs key l hkey).distinct
      dsimp only
      rw [List.map_map]
      split
      · split
        · exact List.nodup_singleton _
        · exact hnodup
      · exact hnodup

theorem told_foldl_resize (es : List (String × (UInt16 × UInt16))) {p : PaneManager}
    (hp : p.Told) : (es.foldl (fun p e => p.resize e.1 e.2.1 e.2.2) p).Told := by
  induction es generalizing p with
  | nil => exact hp
  | cons e es ih => exact ih (hp.resize e.1 e.2.1 e.2.2)

/-- **What is drawn**: the focus is on a shown pane; a session belongs to an open pane, the size its agent
was told last is its own, and that is the size of the pane's inside if the pane is drawn, on a screen
with room for it, and its inside is not empty. -/
structure Sized (solve : Solver) (screen : Screen) (f : Frontend) : Prop where
  visible : PaneFocused f.model
  owned : ∀ id ∈ f.panes.sessions, ∃ k, f.model.OpenIn id k
  told : f.panes.Told
  fits : ∀ sidebar grid, renderHome screen.1 screen.2 = some (sidebar, grid) →
    ∀ e ∈ f.model.renderPaneGrid solve grid, e.1 ∈ f.panes.sessions → e.2.inner.1 ≠ 0 →
      e.2.inner.2 ≠ 0 → f.panes.sessions.lookup e.1 = some e.2.inner

/-- A drawn session was there, and belongs to an open pane. -/
theorem mem_sessions_drawn (t : Turn) (f : Frontend) (id : String) :
    id ∈ (f.drawn solve t).panes.sessions
      ↔ id ∈ f.panes.sessions ∧ ∃ k, f.model.OpenIn id k := by
  rw [drawn_panes, mem_foldl_resize, ← mem_allIds, ← AList.lookup_isSome,
    PaneManager.lookup_retain, ← AList.lookup_isSome]
  split
  · next h => simp [h]
  · next h => simp [h]

theorem openIn_drawn (t : Turn) (f : Frontend) (id k : String) :
    (f.drawn solve t).model.OpenIn id k ↔ f.model.OpenIn id k := by
  obtain ⟨screened, msg, h⟩ := f.drawn_model solve t
  rw [h]
  exact Iff.rfl

theorem told_drawn (t : Turn) {f : Frontend} (hp : f.panes.Told) :
    (f.drawn solve t).panes.Told := by
  rw [drawn_panes]
  exact told_foldl_resize _ (hp.retain f.allIds)

theorem sized_drawn (t : Turn) {f : Frontend} (hfocus : PaneFocused f.model)
    (hs : LayoutsSound f.model) (hp : f.panes.Told) :
    (f.drawn solve t).Sized solve t.screen := by
  refine ⟨(invariant_paneFocused solve).drawn t hfocus, fun id hid => ?_, told_drawn t hp,
    fun sidebar grid hhome e he hin hrows hcols => ?_⟩
  · obtain ⟨-, k, hk⟩ := (mem_sessions_drawn t f id).mp hid
    exact ⟨k, (openIn_drawn t f id k).mpr hk⟩
  · have hsame : (f.drawn solve t).model.renderPaneGrid solve grid
        = f.model.renderPaneGrid solve grid := by
      obtain ⟨screened, msg, h⟩ := f.drawn_model solve t
      rw [h]
      rfl
    rw [hsame] at he
    have hsizes : (e.1, e.2.inner) ∈ f.model.paneSizes solve t.screen := by
      rw [paneSizes_eq solve hhome]
      exact List.mem_map_of_mem he
    rw [drawn_panes, mem_foldl_resize, KeyMap.mem_iff_lookup] at hin
    obtain ⟨size, hsize⟩ := hin
    rw [drawn_panes,
      lookup_foldl_resize_of_mem (nodup_paneSizes hs t.screen) hsizes hrows hcols, hsize,
      Option.map_some]

/-! ### What the runtime does to the sessions -/

/-- **What opening an agent's pane does**: the pane and its session are open; or the session could not
be opened, and the pane is closed; or the agent did not come up, and the pane is closed. -/
theorem openAgentPane_cases (screen : Screen) (d : Daemon) (id : String) (f : Frontend) :
    (∃ rows cols, f.panes.openSession id rows cols (d.attach id)
        = .ok (f.openAgentPane solve screen d id).panes ∧
      (f.openAgentPane solve screen d id).model = (f.model.refresh d.fetch).openPane id) ∨
    ((f.openAgentPane solve screen d id).panes = f.panes ∧
      ((∃ status, (f.openAgentPane solve screen d id).model
          = { (f.model.refresh d.fetch).openPane id with status := status }.closePane id) ∨
        ∃ status, (f.openAgentPane solve screen d id).model
          = { (f.model.closePane id).refresh d.fetch with status := status })) := by
  unfold openAgentPane
  split
  · dsimp only
    split
    · next panes hopen => exact .inl ⟨_, _, hopen, rfl⟩
    · exact .inr ⟨rfl, .inl ⟨_, rfl⟩⟩
  · exact .inr ⟨rfl, .inr ⟨_, rfl⟩⟩

theorem told_openAgentPane (screen : Screen) (d : Daemon) (id : String) {f : Frontend}
    (hf : f.panes.Told) : (f.openAgentPane solve screen d id).panes.Told := by
  rcases openAgentPane_cases screen d id f with ⟨rows, cols, hopen, -⟩ | ⟨h, -⟩
  · exact hf.openSession hopen
  · rw [h]
    exact hf

theorem told_applyEffect (screen : Screen) (d : Daemon) (e : Effect) {f : Frontend}
    (hf : f.panes.Told) : (f.applyEffect solve screen d e).panes.Told := by
  cases e with
  | refresh => exact hf
  | createTask req =>
      unfold applyEffect
      dsimp only
      split <;> exact hf
  | quickLaunch provider repo shell =>
      unfold applyEffect
      dsimp only
      split
      · exact told_openAgentPane screen d _ hf
      · exact hf
  | openPane id => exact told_openAgentPane screen d id hf
  | terminateTask id =>
      unfold applyEffect
      dsimp only
      split
      · exact hf.close id
      · exact hf
  | forgetTask id =>
      unfold applyEffect
      dsimp only
      split
      · exact hf.close id
      · exact hf
  | listDir path => exact hf
  | addWorkspace path =>
      unfold applyEffect
      dsimp only
      split <;> exact hf

theorem told_applyEffects (screen : Screen) (es : List Effect) (ds : Nat → Daemon) {f : Frontend}
    (hf : f.panes.Told) : (applyEffects solve screen es ds f).panes.Told := by
  induction es generalizing ds f with
  | nil => exact hf
  | cons e es ih => exact ih _ (told_applyEffect screen (ds 0) e hf)

/-- The data is the same, and the same panes are open in every group. -/
structure SameOpen (m m' : Model) : Prop where
  data : m'.data = m.data
  openIn : ∀ id k, m'.OpenIn id k ↔ m.OpenIn id k

theorem SameOpen.of_panes {m m' : Model} (hdata : m'.data = m.data) (hpanes : m'.panes = m.panes) :
    SameOpen m m' := by
  refine ⟨hdata, fun id k => ?_⟩
  unfold Model.OpenIn
  rw [hpanes]

theorem sameOpen_focusDir (dir : Dir) (area : Rect) (m : Model) :
    SameOpen m (m.focusDir solve dir area) := by
  rcases m.focusDir_cases solve dir area with h | ⟨l, id, -, -, h⟩ <;> rw [h]
  · exact .of_panes rfl rfl
  · exact .of_panes rfl rfl

/-- Moving a boundary opens no pane and closes none. -/
theorem sameOpen_resizeFocused (dir : Dir) (m : Model) : SameOpen m (m.resizeFocused dir) := by
  rcases m.resizeFocused_cases dir with h | ⟨focused, key, l, -, -, hl, h⟩ <;> rw [h]
  · exact .of_panes rfl rfl
  · refine ⟨rfl, fun id k => ?_⟩
    unfold Model.OpenIn
    dsimp only
    rw [KeyMap.lookup_insert_ite]
    split
    · next hk =>
      rw [hk, hl]
      simp [PaneLayout.leaves_resize]
    · rfl

theorem sameOpen_toggleZoom (m : Model) : SameOpen m m.toggleZoom := by
  obtain ⟨z, h⟩ := m.toggleZoom_eq
  rw [h]
  exact .of_panes rfl rfl

theorem typeBytes_cases (bytes : List UInt8) (f : Frontend) :
    SameOpen f.model (f.typeBytes bytes).model ∧ ((f.typeBytes bytes).panes = f.panes ∨
      ∃ id bytes', (f.typeBytes bytes).panes = f.panes.sendInput id bytes') := by
  unfold typeBytes
  split
  · exact ⟨.of_panes rfl rfl, .inr ⟨_, _, rfl⟩⟩
  · exact ⟨.of_panes rfl rfl, .inl rfl⟩

/-- **What a key into the pane grid does**: it closes the focused pane and its session, or opens and
closes nothing, and types into a session at most. -/
theorem handlePaneKey_cases (screen : Screen) (code : KeyCode) (ctrl : Bool) (f : Frontend) :
    (SameOpen f.model (f.handlePaneKey solve screen code ctrl).model ∧
        ((f.handlePaneKey solve screen code ctrl).panes = f.panes ∨
          ∃ id bytes, (f.handlePaneKey solve screen code ctrl).panes
            = f.panes.sendInput id bytes)) ∨
      ∃ id, (f.handlePaneKey solve screen code ctrl).panes = f.panes.close id ∧
        (f.handlePaneKey solve screen code ctrl).model = f.model.closePane id := by
  unfold handlePaneKey
  split
  · -- resize mode
    refine .inl ?_
    unfold resizeKey
    split <;> first
      | exact ⟨.of_panes rfl rfl, .inl rfl⟩
      | exact ⟨sameOpen_resizeFocused _ f.model, .inl rfl⟩
  · split
    · -- a pane command
      unfold commandKey
      dsimp only
      split <;> first
        | exact .inl ⟨.of_panes rfl rfl, .inl rfl⟩
        | exact .inl ⟨sameOpen_focusDir _ _ f.model, .inl rfl⟩
        | exact .inl ⟨sameOpen_toggleZoom f.model, .inl rfl⟩
        | skip
      · unfold closeFocused
        split
        · next id hid => exact .inr ⟨id, rfl, rfl⟩
        · exact .inl ⟨.of_panes rfl rfl, .inl rfl⟩
      · split
        · exact .inl (typeBytes_cases [f.pfx.literalByte] { f with prefixActive := false })
        · exact .inl ⟨.of_panes rfl rfl, .inl rfl⟩
    · split
      · exact .inl ⟨.of_panes rfl rfl, .inl rfl⟩
      · split
        · exact .inl (typeBytes_cases _ f)
        · exact .inl ⟨.of_panes rfl rfl, .inl rfl⟩

theorem told_handle (screen : Screen) (i : Input) {f : Frontend} (hf : f.panes.Told) :
    (f.handle solve screen i).panes.Told := by
  cases i with
  | key code ctrl ds =>
      unfold handle
      dsimp only
      split
      · rcases handlePaneKey_cases screen code ctrl f with ⟨-, h | ⟨id, bytes, h⟩⟩ | ⟨id, h, -⟩
        · rw [h]
          exact hf
        · rw [h]
          exact hf.sendInput id bytes
        · rw [h]
          exact hf.close id
      · split
        · exact told_applyEffects screen _ ds hf
        · exact hf
  | click col row =>
      unfold handle
      dsimp only
      split <;> exact hf

theorem told_turn (t : Turn) {f : Frontend} (hf : f.panes.Told) : (f.turn solve t).panes.Told := by
  unfold turn
  split
  · exact hf
  · have hhandled : ((f.drawn solve t).handled solve t).panes.Told := by
      unfold handled
      split
      · exact told_handle t.screen _ (told_drawn t hf)
      · exact told_drawn t hf
    unfold fetched
    split
    · split <;> exact hhandled
    · exact hhandled

/-! ### Runs -/

/-- **Settled groups**: every open pane is in the group that the data names for its task. -/
def Settled (m : Model) : Prop := ∀ id k, m.OpenIn id k → k = m.wsKey id

theorem settled_iff (m : Model) :
    Settled m ↔ ∀ e ∈ m.panes.entries, ∀ id ∈ e.2.leaves, e.1 = m.wsKey id := by
  constructor
  · intro h e he id hid
    exact h id e.1 ⟨e.2, AList.mem_lookup_iff.mpr he, hid⟩
  · rintro h id k ⟨l, hl, hid⟩
    exact h ⟨k, l⟩ (AList.mem_lookup_iff.mp hl) id hid

instance (m : Model) : Decidable (Settled m) := decidable_of_iff _ (settled_iff m).symm

/-- Every open pane but that of `but` has a session. -/
def Covered (but : Option String) (f : Frontend) : Prop :=
  ∀ id k, f.model.OpenIn id k → some id = but ∨ id ∈ f.panes.sessions

/-- The groups are settled after each of the effects. -/
def EffectsSettle (solve : Solver) (screen : Screen) :
    List Effect → (Nat → Daemon) → Frontend → Prop
  | [], _, _ => True
  | e :: es, ds, f =>
      let f := f.applyEffect solve screen (ds 0) e
      Settled f.model ∧ EffectsSettle solve screen es (fun i => ds (i + 1)) f

/-- The groups are settled before the turn, and after each effect of its key. -/
def Settles (solve : Solver) (f : Frontend) (t : Turn) : Prop :=
  Settled f.model ∧ ∀ code ctrl ds k, t.input = some (.key code ctrl ds) → mapKey code ctrl = some k →
    EffectsSettle solve t.screen (update k (f.drawn solve t).model).2 ds
      { f.drawn solve t with model := (update k (f.drawn solve t).model).1 }

theorem wsKey_congr {m m' : Model} (h : m'.data = m.data) (id : String) :
    m'.wsKey id = m.wsKey id := by
  unfold Model.wsKey Model.registered
  rw [h]

theorem Settled.congr {m m' : Model} (h : SameOpen m m') (hs : Settled m) : Settled m' := by
  intro id k hk
  rw [wsKey_congr h.data]
  exact hs id k ((h.openIn id k).mp hk)

/-- Where the groups are settled, a pane that is closed is open nowhere. -/
theorem not_openIn_closePane {m : Model} (hs : Settled m) (id k : String) :
    ¬(m.closePane id).OpenIn id k :=
  (closed_panesWithout (closePane_fields id m).1).mpr (fun k hk => hs id k hk) k

/-- A pane that is closed is not open in the group that is named for it. -/
theorem not_openIn_closePane_wsKey (m : Model) (id : String) :
    ¬(m.closePane id).OpenIn id ((m.closePane id).wsKey id) := by
  intro h
  rw [wsKey_congr (closePane_sameRows id m).data] at h
  exact (openIn_panesWithout_self (closePane_fields id m).1 h).2 rfl

/-- Closing a pane opens none. -/
theorem openIn_of_closePane {m : Model} {id i k : String} (h : (m.closePane id).OpenIn i k) :
    m.OpenIn i k := by
  have hp := (closePane_fields id m).1
  by_cases hk : k = m.wsKey id
  · subst hk
    exact (openIn_panesWithout_self hp h).1
  · exact (openIn_panesWithout hp i hk).mp h

/-- Fetched data opens no pane and closes none. -/
theorem openIn_refresh (fetched : Except String Data) (m : Model) (id k : String) :
    (m.refresh fetched).OpenIn id k ↔ m.OpenIn id k := by
  have hpanes : (m.refresh fetched).panes = m.panes := by
    unfold Model.refresh
    cases fetched with
    | ok data =>
        dsimp only
        exact (setData_keeps data m).panes
    | error e => rfl
  unfold Model.OpenIn
  rw [hpanes]

theorem openIn_openPane (m : Model) (id i k : String) :
    (m.openPane id).OpenIn i k ↔ m.OpenIn i k ∨ i = id ∧ k = m.wsKey id :=
  openIn_panesWith rfl i k

theorem mem_of_openSession {p p' : PaneManager} {id : String} {rows cols : UInt16}
    {attach : Except String Unit} (h : p.openSession id rows cols attach = .ok p') {i : String} :
    i ∈ p'.sessions ↔ i = id ∨ i ∈ p.sessions := by
  rcases PaneManager.openSession_spec h with ⟨hin, rfl⟩ | ⟨-, rfl⟩
  · exact ⟨.inr, fun h => h.elim (fun h => h ▸ hin) fun h => h⟩
  · exact KeyMap.mem_insert_iff p.sessions id i (rows, cols)

theorem mem_close (p : PaneManager) (id i : String) :
    i ∈ (p.close id).sessions ↔ i ≠ id ∧ i ∈ p.sessions := by
  rw [← AList.lookup_isSome, (PaneManager.close_spec id p).1, ← AList.lookup_isSome]
  split
  · next h => simp [h]
  · next h => simp [h]

/-- **Opening an agent's pane leaves no pane without a session**, if the groups are settled before it
and after it. -/
theorem covered_openAgentPane (screen : Screen) (d : Daemon) {id : String} {f : Frontend}
    (hcov : Covered (some id) f) (hbefore : Settled f.model)
    (hafter : Settled (f.openAgentPane solve screen d id).model) :
    Covered none (f.openAgentPane solve screen d id) := by
  intro i k hopen
  refine .inr ?_
  rcases openAgentPane_cases screen d id f with
    ⟨rows, cols, hsession, hmodel⟩ | ⟨hpanes, ⟨status, hmodel⟩ | ⟨status, hmodel⟩⟩
  · rw [mem_of_openSession hsession]
    rw [hmodel, openIn_openPane, openIn_refresh] at hopen
    rcases hopen with hopen | ⟨rfl, -⟩
    · exact (hcov i k hopen).imp (fun h => Option.some.inj h) fun h => h
    · exact .inl rfl
  · -- no session: the pane is closed again, in the group that it is in
    rw [hpanes]
    have hne : i ≠ id := by
      rintro rfl
      have hkey := hafter i k hopen
      rw [hmodel] at hkey hopen
      rw [hkey] at hopen
      exact not_openIn_closePane_wsKey _ i hopen
    rw [hmodel] at hopen
    have hopen := openIn_of_closePane hopen
    have hopen := (openIn_openPane (f.model.refresh d.fetch) id i k).mp hopen
    rcases hopen with hopen | ⟨heq, -⟩
    · rw [openIn_refresh] at hopen
      exact (hcov i k hopen).resolve_left fun h => hne (Option.some.inj h)
    · exact absurd heq hne
  · -- no agent: the pane is closed where it was opened
    rw [hpanes]
    rw [hmodel] at hopen
    have hopen : (f.model.closePane id).OpenIn i k := (openIn_refresh d.fetch _ i k).mp hopen
    have hne : i ≠ id := by
      rintro rfl
      exact not_openIn_closePane hbefore i k hopen
    exact (hcov i k (openIn_of_closePane hopen)).resolve_left fun h => hne (Option.some.inj h)

/-- Closing a pane together with its session leaves no pane without one. -/
theorem covered_close {f f' : Frontend} {id : String} (hcov : Covered none f)
    (hs : Settled f.model) (hopen : ∀ i k, f'.model.OpenIn i k → (f.model.closePane id).OpenIn i k)
    (hpanes : f'.panes = f.panes.close id) : Covered none f' := by
  intro i k hk
  have hclosed := hopen i k hk
  have hne : i ≠ id := by
    rintro rfl
    exact not_openIn_closePane hs i k hclosed
  rw [hpanes, mem_close]
  exact .inr ⟨hne, (hcov i k (openIn_of_closePane hclosed)).resolve_left (by simp)⟩

theorem openIn_dropPane (d : Daemon) (id status : String) (f : Frontend) (i k : String)
    (h : (f.dropPane d id status).model.OpenIn i k) : (f.model.closePane id).OpenIn i k := by
  unfold dropPane at h
  dsimp only at h
  rw [openIn_refresh] at h
  exact h

/-- The same panes are open, and the same sessions. -/
theorem Covered.congr {but : Option String} {f f' : Frontend} (hcov : Covered but f)
    (hopen : ∀ i k, f'.model.OpenIn i k → f.model.OpenIn i k)
    (hpanes : f'.panes.sessions = f.panes.sessions) : Covered but f' := by
  intro i k hk
  rw [hpanes]
  exact hcov i k (hopen i k hk)

/-- The task whose pane an effect opens. -/
def openedBy : Effect → Option String
  | .openPane id => some id
  | _ => none

/-- **An effect leaves no pane without a session**, if the groups are settled before it and after it. -/
theorem covered_applyEffect (screen : Screen) (d : Daemon) (e : Effect) {f : Frontend}
    (hcov : Covered (openedBy e) f) (hbefore : Settled f.model)
    (hafter : Settled (f.applyEffect solve screen d e).model) :
    Covered none (f.applyEffect solve screen d e) := by
  cases e with
  | refresh => exact hcov.congr (fun i k => (openIn_refresh d.fetch f.model i k).mp) rfl
  | createTask req =>
      unfold applyEffect
      dsimp only
      split
      · exact hcov.congr (fun i k => (openIn_refresh d.fetch f.model i k).mp) rfl
      · exact hcov
  | quickLaunch provider repo shell =>
      unfold applyEffect at hafter ⊢
      dsimp only at hafter ⊢
      split at hafter
      · next id =>
        refine covered_openAgentPane screen d (fun i k hk => ?_) hbefore hafter
        exact (hcov i k hk).imp (fun h => by cases h) fun h => h
      · exact hcov
  | openPane id => exact covered_openAgentPane screen d hcov hbefore hafter
  | terminateTask id =>
      unfold applyEffect
      dsimp only
      split
      · exact covered_close hcov hbefore (openIn_dropPane d id _ f) rfl
      · exact hcov
  | forgetTask id =>
      unfold applyEffect
      dsimp only
      split
      · exact covered_close hcov hbefore (openIn_dropPane d id _ f) rfl
      · exact hcov
  | listDir path =>
      refine hcov.congr (fun i k hk => ?_) rfl
      have hpanes : (f.model.listDir d path).panes = f.model.panes := by
        unfold Model.listDir
        dsimp only
        split <;> rfl
      unfold Model.OpenIn at hk ⊢
      rw [← hpanes]
      exact hk
  | addWorkspace path =>
      unfold applyEffect
      dsimp only
      split
      · exact hcov.congr (fun i k => (openIn_refresh d.fetch f.model i k).mp) rfl
      · exact hcov

theorem Covered.mono {f : Frontend} (hcov : Covered none f) (but : Option String) :
    Covered but f := fun i k hk => .inr ((hcov i k hk).resolve_left (by simp))

/-- **The effects of a key leave no pane without a session**: the one that the key opened gets its own
with the first effect. -/
theorem covered_applyEffects (screen : Screen) {es : List Effect} (ds : Nat → Daemon)
    {but : Option String} {f : Frontend}
    (hbut : ∀ id, but = some id → es.head? = some (.openPane id)) (hcov : Covered but f)
    (hbefore : Settled f.model) (hsettle : EffectsSettle solve screen es ds f) :
    Covered none (applyEffects solve screen es ds f) := by
  induction es generalizing but ds f with
  | nil =>
      cases but with
      | none => exact hcov
      | some id => cases hbut id rfl
  | cons e es ih =>
      obtain ⟨hafter, hrest⟩ := hsettle
      have hopened : Covered (openedBy e) f := by
        cases but with
        | none => exact hcov.mono (openedBy e)
        | some id =>
            obtain rfl := Option.some.inj (hbut id rfl)
            exact hcov
      exact ih _ (fun id h => by cases h)
        (covered_applyEffect screen (ds 0) e hopened hbefore hafter) hafter hrest

/-- A key that opens a pane asks for its session, and for nothing else. -/
theorem update_effects_of_opens {m : Model} {k : Key} {id : String} (h : m.opens k = some id) :
    (update k m).2 = [.openPane id] := by
  unfold Model.opens at h
  split at h
  · next hcond =>
    obtain ⟨hview, rfl, hsidebar⟩ := hcond
    obtain ⟨t, ht, rfl⟩ := Option.map_eq_some_iff.mp h
    obtain ⟨hsel, hstate⟩ := Option.filter_eq_some_iff.mp ht
    unfold update updateHome activateSelection
    rw [hview, hsidebar, hsel]
    have hstate : isTerminatedState t.state = false := by simpa using hstate
    simp [hstate]
  · cases h

theorem update_data (m : Model) (k : Key) : (update k m).1.data = m.data := by
  rcases update_cases k m with h | ⟨delta, h⟩ | ⟨id, h⟩
  · exact h.data
  · rw [h]
    rcases moveSelection_cases delta m with h | ⟨i, -, h⟩ | ⟨i, -, h⟩ <;> rw [h]
    exact (syncActiveWs_sameRows { m with wsSelected := i }).data
  · rw [h]
    rfl

/-- Before the effects of a key are applied, the pane that it opened may lack its session. -/
theorem covered_update {f : Frontend} (k : Key) (hcov : Covered none f) (hsettled : Settled f.model) :
    Covered (f.model.opens k) { f with model := (update k f.model).1 } ∧
      Settled (update k f.model).1 := by
  have hpanes := update_panes f.model k
  have hdata := update_data f.model k
  cases hopens : f.model.opens k with
  | none =>
      rw [hopens, Option.map_none, Option.getD_none] at hpanes
      have hsame : SameOpen f.model (update k f.model).1 := .of_panes hdata hpanes
      exact ⟨hcov.congr (fun i k => (hsame.openIn i k).mp) rfl, hsettled.congr hsame⟩
  | some id =>
      rw [hopens, Option.map_some, Option.getD_some] at hpanes
      have hopen := fun i key => openIn_panesWith hpanes i key
      refine ⟨fun i key hi => ?_, fun i key hi => ?_⟩
      · rcases (hopen i key).mp hi with hi | ⟨rfl, -⟩
        · exact hcov.mono _ i key hi
        · exact .inl rfl
      · rw [wsKey_congr hdata]
        rcases (hopen i key).mp hi with hi | ⟨rfl, hkey⟩
        · exact hsettled i key hi
        · exact hkey

theorem SameOpen.trans {m m' m'' : Model} (h : SameOpen m m') (h' : SameOpen m' m'') :
    SameOpen m m'' :=
  ⟨h'.data.trans h.data, fun id k => (h'.openIn id k).trans (h.openIn id k)⟩

/-- Clicks open no pane and close none. -/
theorem sameOpen_handleMouseClick (cols rows col row : UInt16) (m : Model) :
    SameOpen m (m.handleMouseClick solve cols rows col row) := by
  have hselect : SameOpen m (m.selectNavAt col row (sidebarArea cols rows)).1 := by
    rcases m.selectNavAt_cases col row (sidebarArea cols rows) with h | ⟨i, -, h⟩ | ⟨i, h⟩
    · rw [h]
      exact .of_panes rfl rfl
    · rw [h]
      exact .of_panes (syncActiveWs_sameRows _).data (syncActiveWs_keeps _).panes
    · rw [h]
      obtain ⟨j, hj⟩ := snapAgentToSelectable_eq 1
        { m with agentSelected := i, sidebar := .agents, focus := .sidebar }
      rw [hj]
      exact .of_panes rfl rfl
  unfold Model.handleMouseClick
  dsimp only
  split
  · exact hselect
  · refine hselect.trans ?_
    rcases Model.focusPaneAt_cases solve col row (gridArea cols rows)
      (m.selectNavAt col row (sidebarArea cols rows)).1 with h | ⟨l, id, -, -, h⟩ <;> rw [h]
    · exact .of_panes rfl rfl
    · exact .of_panes rfl rfl

theorem covered_handle (screen : Screen) (i : Input) {f : Frontend} (hcov : Covered none f)
    (hsettled : Settled f.model)
    (hsettle : ∀ code ctrl ds k, i = .key code ctrl ds → mapKey code ctrl = some k →
      EffectsSettle solve screen (update k f.model).2 ds { f with model := (update k f.model).1 }) :
    Covered none (f.handle solve screen i) := by
  cases i with
  | key code ctrl ds =>
      unfold handle
      dsimp only
      split
      · rcases handlePaneKey_cases screen code ctrl f with
          ⟨hsame, h | ⟨id, bytes, h⟩⟩ | ⟨id, hpanes, hmodel⟩
        · exact hcov.congr (fun i k => (hsame.openIn i k).mp) (by rw [h])
        · refine hcov.congr (fun i k => (hsame.openIn i k).mp) ?_
          rw [h, (PaneManager.sendInput_spec id bytes f.panes).1]
        · exact covered_close hcov hsettled (fun i k hk => hmodel ▸ hk) hpanes
      · split
        · next k hk =>
          obtain ⟨hopened, hstill⟩ := covered_update k hcov hsettled
          refine covered_applyEffects screen ds (fun id hid => ?_) hopened hstill
            (hsettle code ctrl ds k rfl hk)
          rw [update_effects_of_opens hid]
          rfl
        · exact hcov
  | click col row =>
      unfold handle
      dsimp only
      split
      · have hsame : SameOpen f.model (f.model.handleMouseClick solve screen.1 screen.2 col row) :=
          sameOpen_handleMouseClick screen.1 screen.2 col row f.model
        exact hcov.congr (fun i k => (hsame.openIn i k).mp) rfl
      · exact hcov

/-- Drawing closes no session of an open pane. -/
theorem covered_drawn (t : Turn) {f : Frontend} (hcov : Covered none f) :
    Covered none (f.drawn solve t) := by
  intro i k hk
  rw [openIn_drawn] at hk
  exact .inr ((mem_sessions_drawn t f i).mpr ⟨(hcov i k hk).resolve_left (by simp), k, hk⟩)

theorem settled_drawn (t : Turn) {f : Frontend} (hs : Settled f.model) :
    Settled (f.drawn solve t).model := by
  obtain ⟨screened, msg, h⟩ := f.drawn_model solve t
  rw [h]
  exact hs

/-- **A turn leaves no pane without a session**, if the groups stay settled in it. -/
theorem covered_turn {f : Frontend} {t : Turn} (hcov : Covered none f) (hs : Settles solve f t) :
    Covered none (f.turn solve t) := by
  obtain ⟨hsettled, hsettle⟩ := hs
  have hhandled : Covered none ((f.drawn solve t).handled solve t) := by
    unfold handled
    split
    · next i hi =>
      refine covered_handle t.screen i (covered_drawn t hcov) (settled_drawn t hsettled) ?_
      intro code ctrl ds k hkey hmap
      exact hsettle code ctrl ds k (hi.trans (congrArg some hkey)) hmap
    · exact covered_drawn t hcov
  unfold turn
  split
  · exact hcov
  · unfold fetched
    split
    · split
      · exact hhandled
      · exact hhandled.congr (fun i k => (openIn_refresh _ _ i k).mp) rfl
    · exact hhandled

/-- **Open panes have sessions, and sessions have open panes.**  As long as the groups stay settled in a
run, each time the interface is drawn a task has a session exactly when it has an open pane. -/
theorem sessions_iff_open (solve : Solver) (cwd cwdRepo leader : Option String)
    (data : Except String Data) (autostart : Except String Bool) {ts : List Turn}
    (hs : Run.Allowed (turn solve) (Settles solve) (launch cwd cwdRepo leader data autostart) ts)
    (t : Turn) (id : String) :
    let f := (Run.run (turn solve) (launch cwd cwdRepo leader data autostart) ts).drawn solve t
    id ∈ f.panes.sessions ↔ ∃ k, f.model.OpenIn id k := by
  have hstart : Covered none (launch cwd cwdRepo leader data autostart) := by
    rintro i k hk
    have hk := (openIn_refresh data (start cwd cwdRepo) i k).mp hk
    obtain ⟨l, hl, -⟩ := hk
    cases (AList.lookup_empty k).symm.trans hl
  have hcov : Covered none (Run.run (turn solve) (launch cwd cwdRepo leader data autostart) ts) :=
    Run.invariant (fun _ _ hcov hs => covered_turn hcov hs) hstart hs
  intro f
  constructor
  · intro hid
    obtain ⟨-, k, hk⟩ := (mem_sessions_drawn t _ id).mp hid
    exact ⟨k, (openIn_drawn t _ id k).mpr hk⟩
  · rintro ⟨k, hk⟩
    exact (covered_drawn t hcov id k hk).resolve_left (by simp)

/-- A daemon that does what it is asked for. -/
def obliging : Daemon where
  call _ := .ok ()
  create _ := .ok "t1"
  start _ := .ok ()
  restart _ := .ok ()
  terminate _ := .ok ()
  forget _ := .ok ()
  addWorkspace _ := .ok ()
  fetch := .ok oneAgent
  attach _ := .ok ()
  canonicalize _ := none
  readDir _ := .ok []
  shell := none

/-- A turn in which a key is pressed. -/
def press (code : KeyCode) : Turn := ⟨(80, 24), none, some (.key code false fun _ => obliging), none⟩

/-- The agent of a workspace is selected and opened. -/
theorem sessions_iff_open_agent :
    let f := (Run.run (turn proportional) (launch none none none (.ok oneAgent) (.ok false))
      [press .tab, press .enter]).drawn proportional (press .esc)
    "t1" ∈ f.panes.sessions ↔ ∃ k, f.model.OpenIn "t1" k := by
  refine sessions_iff_open proportional none none none (.ok oneAgent) (.ok false) ?_ (press .esc) "t1"
  refine ⟨⟨by decide, ?_⟩, ⟨by decide, ?_⟩, trivial⟩
  · rintro code ctrl ds k ⟨⟩ ⟨⟩
    exact trivial
  · rintro code ctrl ds k ⟨⟩ ⟨⟩
    exact ⟨by decide, trivial⟩

end Frontend

end MemMux.Tui
