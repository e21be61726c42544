/-
MemMux/PaneFocus.lean

The focus of the terminal interface is always on a visible pane.

The focused pane, the active group and the tiling trees are set by different operations, and a pane
may be closed in a group that is not the active one.  `PaneFocused` says what they owe one another
in one state; every input keeps it, so it holds along every run (`pane_focused`).
-/
import MemMux.Clicks
import MemMux.PaneGroups

namespace MemMux.Tui

/-- **The focus is on a pane that is shown**: the focused pane is a leaf of the active group's
layout, and if there is such a layout some pane is focused. -/
structure PaneFocused (m : Model) : Prop where
  shown : ∀ f, m.focusedPane = some f → ∃ l, m.activePanes = some l ∧ f ∈ l.leaves
  focused : m.activePanes.isSome → m.focusedPane.isSome

/-! ### Establishing the focus -/

theorem PaneFocused.of_mem {m : Model} {l : PaneLayout} {f : String}
    (hl : m.activePanes = some l) (hf : m.focusedPane = some f) (hmem : f ∈ l.leaves) :
    PaneFocused m := by
  refine ⟨fun f' hf' => ?_, fun _ => by rw [hf]; rfl⟩
  obtain rfl := Option.some.inj (hf.symm.trans hf')
  exact ⟨l, hl, hmem⟩

/-- Nothing is shown and nothing is focused. -/
theorem PaneFocused.of_none {m : Model} (hl : m.activePanes = none) (hf : m.focusedPane = none) :
    PaneFocused m := by
  constructor
  · intro f hf'
    cases hf.symm.trans hf'
  · intro hsome
    rw [hl] at hsome
    cases hsome

/-- The first leaf of the layout that is shown may always be focused. -/
theorem PaneFocused.of_head {m : Model}
    (hf : m.focusedPane = m.activePanes.bind fun l => l.leaves.head?) : PaneFocused m := by
  cases hl : m.activePanes with
  | none =>
      rw [hl] at hf
      exact .of_none hl hf
  | some l =>
      rw [hl] at hf
      obtain ⟨f, hhead⟩ : ∃ f, l.leaves.head? = some f :=
        ⟨_, List.head?_eq_some_head l.leaves_ne_nil⟩
      exact .of_mem hl (hf.trans hhead) (List.mem_of_mem_head? hhead)

/-- What leaves the groups and the focus alone keeps it. -/
theorem PaneFocused.congr {m m' : Model} (hp : PaneFocused m) (hpanes : m'.panes = m.panes)
    (hactive : m'.activeWs = m.activeWs) (hf : m'.focusedPane = m.focusedPane) :
    PaneFocused m' := by
  have hl : m'.activePanes = m.activePanes := by
    unfold Model.activePanes
    rw [hpanes, hactive]
  refine ⟨fun f hfoc => ?_, fun hsome => ?_⟩
  · rw [hl]
    exact hp.shown f (hf ▸ hfoc)
  · rw [hf]
    exact hp.focused (hl ▸ hsome)

/-- A layout with the same leaves may replace the one that is shown. -/
theorem PaneFocused.insert_layout {m : Model} (hp : PaneFocused m) {key : String}
    {l l' : PaneLayout} (hkey : m.activeWs = some key) (hl : m.panes.lookup key = some l)
    (hleaves : l'.leaves = l.leaves) :
    PaneFocused { m with panes := m.panes.insert key l' } := by
  have hold : m.activePanes = some l := by
    rw [Model.activePanes, hkey]
    exact hl
  have hnew : Model.activePanes { m with panes := m.panes.insert key l' } = some l' := by
    rw [Model.activePanes, hkey]
    exact AList.lookup_insert _
  refine ⟨fun f hf => ⟨l', hnew, ?_⟩, fun _ => hp.focused (hold ▸ rfl)⟩
  obtain ⟨l₀, hl₀, hmem⟩ := hp.shown f hf
  obtain rfl := Option.some.inj (hold.symm.trans hl₀)
  rw [hleaves]
  exact hmem

/-! ### Operations -/

theorem paneFocused_syncActiveWs {m : Model} (hp : PaneFocused m) :
    PaneFocused m.syncActiveWs := by
  unfold Model.syncActiveWs
  split
  · exact hp
  · exact .of_head rfl

theorem paneFocused_snap {m : Model} (hp : PaneFocused m) (dir : Int) :
    PaneFocused (m.snapAgentToSelectable dir) := by
  obtain ⟨i, h⟩ := snapAgentToSelectable_eq dir m
  rw [h]
  exact hp.congr rfl rfl rfl

theorem paneFocused_setData {m : Model} (hp : PaneFocused m) (data : Data) :
    PaneFocused (m.setData data) := by
  obtain ⟨i, j, h⟩ := setData_eq data m
  rw [h]
  exact hp.congr rfl rfl rfl

theorem paneFocused_moveSelection {m : Model} (hp : PaneFocused m) (delta : Int) :
    PaneFocused (m.moveSelection delta) := by
  rcases moveSelection_cases delta m with h | ⟨i, -, h⟩ | ⟨i, -, h⟩
  · rw [h]
    exact hp
  · rw [h]
    exact hp.congr rfl rfl rfl
  · rw [h]
    refine paneFocused_syncActiveWs ?_
    exact hp.congr rfl rfl rfl

/-- The pane that was opened is in the group that is shown. -/
theorem paneFocused_openPane (id : String) (m : Model) : PaneFocused (m.openPane id) := by
  obtain ⟨-, l, hl, hcase⟩ := panesWith_spec m id
  refine .of_mem (l := l) hl rfl ?_
  rcases hcase with ⟨-, rfl⟩ | ⟨old, -, ⟨hin, rfl⟩ | ⟨-, target, htarget, rfl⟩⟩
  · exact List.mem_singleton_self id
  · exact hin
  · exact (PaneLayout.perm_splitLeaf m.splitOrient htarget).mem_iff.mpr List.mem_cons_self

/-- The first group of a map is in it. -/
theorem lookup_firstGroup {panes : KeyMap String PaneLayout} {k : String} {l : PaneLayout}
    (h : Model.firstGroup panes = some (k, l)) : panes.lookup k = some l := by
  unfold Model.firstGroup at h
  obtain ⟨e, he, heq⟩ := List.mem_map.mp (List.mem_of_mem_head? h)
  obtain ⟨rfl, rfl⟩ := Prod.mk.inj heq
  exact AList.mem_lookup_iff.mpr ((List.mem_insertionSort _).mp he)

/-- **Closing a pane finds one to focus** in whatever group is shown then. -/
theorem paneFocused_closePane (id : String) (m : Model) : PaneFocused (m.closePane id) := by
  unfold Model.closePane
  dsimp only
  split
  · next layout hl =>
    split_ifs with hok
    · -- the focused pane is still there
      obtain ⟨f, hf, hin⟩ : ∃ f, m.focusedPane = some f ∧ layout.contains f := by
        rcases hf : m.focusedPane with - | f <;> rw [hf] at hok
        · cases hok
        · exact ⟨f, rfl, hok⟩
      exact .of_mem (l := layout) hl hf (PaneLayout.contains_iff.mp hin)
    · refine .of_head ?_
      show layout.leaves.head? = (m.activeWs.bind (m.panesWithout id).lookup).bind _
      rw [hl]
      rfl
  · split
    · next k layout hfirst =>
      refine .of_head ?_
      show layout.leaves.head? = ((m.panesWithout id).lookup k).bind _
      rw [lookup_firstGroup hfirst]
      rfl
    · exact .of_none rfl rfl

theorem paneFocused_selectNavAt {m : Model} (hp : PaneFocused m) (col row : UInt16)
    (area : Rect) : PaneFocused (m.selectNavAt col row area).1 := by
  rcases m.selectNavAt_cases col row area with h | ⟨i, -, h⟩ | ⟨i, h⟩
  · rw [h]
    exact hp
  · rw [h]
    refine paneFocused_syncActiveWs ?_
    exact hp.congr rfl rfl rfl
  · rw [h]
    refine paneFocused_snap ?_ 1
    exact hp.congr rfl rfl rfl

section Solved

variable (solve : Solver)

theorem paneFocused_focusPaneAt {m : Model} (hp : PaneFocused m) (col row : UInt16)
    (area : Rect) : PaneFocused (m.focusPaneAt solve col row area).1 := by
  rcases m.focusPaneAt_cases solve col row area with h | ⟨l, id, hl, hmem, h⟩
  · rw [h]
    exact hp
  · rw [h]
    exact .of_mem (l := l) hl rfl hmem

theorem paneFocused_focusDir {m : Model} (hp : PaneFocused m) (dir : Dir) (area : Rect) :
    PaneFocused (m.focusDir solve dir area) := by
  rcases m.focusDir_cases solve dir area with h | ⟨l, id, hl, hmem, h⟩
  · rw [h]
    exact hp
  · rw [h]
    exact .of_mem (l := l) hl rfl hmem

end Solved

theorem paneFocused_resizeFocused {m : Model} (hp : PaneFocused m) (dir : Dir) :
    PaneFocused (m.resizeFocused dir) := by
  rcases m.resizeFocused_cases dir with h | ⟨f, key, l, -, hkey, hl, h⟩
  · rw [h]
    exact hp
  · rw [h]
    exact hp.insert_layout hkey hl (l.leaves_resize f dir.axisCols dir.delta)

theorem paneFocused_toggleZoom {m : Model} (hp : PaneFocused m) : PaneFocused m.toggleZoom := by
  obtain ⟨z, h⟩ := m.toggleZoom_eq
  rw [h]
  exact hp.congr rfl rfl rfl

/-! ### Runs -/

/-- **Every event keeps the focus on a pane that is shown.** -/
theorem paneFocused_next {m : Model} (hp : PaneFocused m) (e : Event) :
    PaneFocused (next m e) := by
  unfold next step
  cases e with
  | key k =>
      dsimp only
      rcases update_cases k m with hsame | ⟨delta, h⟩ | ⟨id, h⟩
      · exact hp.congr hsame.panes hsame.activeWs hsame.focusedPane
      · rw [h]
        exact paneFocused_moveSelection hp delta
      · rw [h]
        exact paneFocused_openPane id m
  | setData data =>
      dsimp only
      exact paneFocused_setData hp data
  | openPane id => exact paneFocused_openPane id m
  | closePane id => exact paneFocused_closePane id m
  | moveSelection delta => exact paneFocused_moveSelection hp delta
  | toggleSection => exact hp.congr rfl rfl rfl
  | syncActiveWs => exact paneFocused_syncActiveWs hp

/-- **Every input keeps the focus on a pane that is shown.** -/
theorem paneFocused_act (solve : Solver) {m : Model} (hp : PaneFocused m) (a : Act) :
    PaneFocused (act solve m a) := by
  cases a with
  | event e => exact paneFocused_next hp e
  | selectNavAt col row area => exact paneFocused_selectNavAt hp col row area
  | focusPaneAt col row area => exact paneFocused_focusPaneAt solve hp col row area
  | focusDir dir area => exact paneFocused_focusDir solve hp dir area
  | resizeFocused dir => exact paneFocused_resizeFocused hp dir
  | toggleZoom => exact paneFocused_toggleZoom hp

/-- **Pane focus is always on a visible pane**, however the inputs follow one another and whatever
data comes in. -/
theorem pane_focused (solve : Solver) (cwd cwdRepo : Option String) (as : List Act) :
    PaneFocused (Run.run (act solve) (start cwd cwdRepo) as) :=
  Run.always (I := PaneFocused) (fun _ a hp => paneFocused_act solve hp a) (.of_none rfl rfl) as

end MemMux.Tui
