/-
MemMux/Layouts.lean

The layouts of a run of the terminal interface: their leaves stay distinct and their ratios within
10..=90, whatever the inputs (`layouts_sound`).

So resizing the focused pane always moves the boundary of the split that governs it, and nothing
where no split does (`resizeFocused_governs`).
-/
import MemMux.Clicks
import MemMux.PaneGroups
import MemMux.Splits

namespace MemMux.Tui

/-- The leaves are distinct and the ratios within bounds. -/
structure PaneLayout.Sound (l : PaneLayout) : Prop where
  distinct : l.leaves.Nodup
  ratios : l.RatiosWithin

/-- The layouts of all groups are sound. -/
def LayoutsSound (m : Model) : Prop := ∀ k l, m.panes.lookup k = some l → l.Sound

namespace LayoutsSound

variable {m m' : Model}

theorem of_panes (hs : LayoutsSound m) (hp : m'.panes = m.panes) : LayoutsSound m' := by
  unfold LayoutsSound
  rw [hp]
  exact hs

/-- One group may get another sound layout. -/
theorem of_off (hs : LayoutsSound m) {key : String}
    (hoff : ∀ k, k ≠ key → m'.panes.lookup k = m.panes.lookup k)
    (hkey : ∀ l, m'.panes.lookup key = some l → l.Sound) : LayoutsSound m' := by
  intro k l hl
  by_cases hk : k = key
  · subst hk
    exact hkey l hl
  · exact hs k l ((hoff k hk).symm.trans hl)

theorem openPane (hs : LayoutsSound m) (id : String) : LayoutsSound (m.openPane id) := by
  obtain ⟨hother, l, hl, hcase⟩ := panesWith_spec m id
  refine hs.of_off hother fun l' hl' => ?_
  obtain rfl := Option.some.inj (hl.symm.trans hl')
  rcases hcase with ⟨-, rfl⟩ | ⟨old, hold, ⟨-, rfl⟩ | ⟨hnew, target, htarget, rfl⟩⟩
  · exact ⟨List.nodup_singleton id, PaneLayout.ratiosWithin_leaf id⟩
  · exact hs _ _ hold
  · obtain ⟨hdistinct, hratios⟩ := hs _ _ hold
    exact ⟨PaneLayout.nodup_splitLeaf m.splitOrient htarget hnew hdistinct,
      hratios.splitLeaf target id m.splitOrient⟩

theorem closePane (hs : LayoutsSound m) (id : String) : LayoutsSound (m.closePane id) := by
  obtain ⟨hother, hself⟩ := panesWithout_spec m id
  have hp := (closePane_fields id m).1
  rw [← hp] at hother hself
  refine hs.of_off hother fun l hl => ?_
  obtain ⟨old, hold, hrest⟩ := hself l hl
  obtain ⟨hdistinct, hratios⟩ := hs _ _ hold
  refine ⟨?_, hratios.without hrest⟩
  rw [PaneLayout.leaves_of_without hrest]
  exact hdistinct.filter _

end LayoutsSound

/-! ### Resizing -/

/-- **What resizing the focused pane does**: it moves the boundary that governs the pane in the group
that is shown, or leaves every group as it is where nothing governs it. -/
def ResizesGoverning (m : Model) (dir : Dir) : Prop :=
  (∀ k, (m.resizeFocused dir).panes.lookup k = m.panes.lookup k) ∨
    ∃ f key l p, m.focusedPane = some f ∧ m.activeWs = some key ∧
      m.panes.lookup key = some l ∧ l.Governs f dir.axisCols p ∧
      (m.resizeFocused dir).panes.lookup key = some (l.moveAt dir.delta p) ∧
      ∀ k, k ≠ key → (m.resizeFocused dir).panes.lookup k = m.panes.lookup k

theorem resizeFocused_governs {m : Model} (hs : LayoutsSound m) (dir : Dir) :
    ResizesGoverning m dir := by
  unfold ResizesGoverning
  rcases m.resizeFocused_cases dir with h | ⟨f, key, l, hf, hkey, hl, h⟩ <;> rw [h]
  · exact .inl fun _ => rfl
  · rcases PaneLayout.movesOrKeeps_resize dir.axisCols dir.delta (hs key l hl).distinct with
      ⟨p, hgov, hres⟩ | ⟨-, hres⟩ <;> rw [hres]
    · exact .inr ⟨f, key, l, p, hf, hkey, hl, hgov, AList.lookup_insert _,
        KeyMap.off_insert m.panes key _⟩
    · refine .inl fun k => ?_
      rw [KeyMap.lookup_insert_ite]
      split
      · next hk => rw [hk, hl]
      · rfl

namespace LayoutsSound

variable {m : Model}

theorem resizeFocused (hs : LayoutsSound m) (dir : Dir) : LayoutsSound (m.resizeFocused dir) := by
  rcases resizeFocused_governs hs dir with hsame | ⟨f, key, l, p, -, -, hl, -, hmoved, hother⟩
  · intro k l hl
    exact hs k l ((hsame k).symm.trans hl)
  · refine hs.of_off hother fun l' hl' => ?_
    obtain rfl := Option.some.inj (hmoved.symm.trans hl')
    obtain ⟨hdistinct, hratios⟩ := hs key l hl
    exact ⟨(l.leaves_moveAt dir.delta p).symm ▸ hdistinct, hratios.moveAt dir.delta p⟩

/-! ### Runs -/

theorem moveSelection (hs : LayoutsSound m) (delta : Int) :
    LayoutsSound (m.moveSelection delta) :=
  hs.of_panes (moveSelection_keeps delta m).panes

/-- **Every event keeps the layouts sound.** -/
theorem next (hs : LayoutsSound m) (e : Event) : LayoutsSound (next m e) := by
  unfold Tui.next step
  cases e with
  | key k =>
      dsimp only
      rcases update_cases k m with hsame | ⟨delta, h⟩ | ⟨id, h⟩
      · exact hs.of_panes hsame.panes
      · rw [h]
        exact hs.moveSelection delta
      · rw [h]
        exact hs.openPane id
  | setData data =>
      dsimp only
      exact hs.of_panes (setData_keeps data m).panes
  | openPane id => exact hs.openPane id
  | closePane id => exact hs.closePane id
  | moveSelection delta => exact hs.moveSelection delta
  | toggleSection => exact hs.of_panes rfl
  | syncActiveWs => exact hs.of_panes (syncActiveWs_keeps m).panes

theorem selectNavAt (hs : LayoutsSound m) (col row : UInt16) (area : Rect) :
    LayoutsSound (m.selectNavAt col row area).1 := by
  rcases m.selectNavAt_cases col row area with h | ⟨i, -, h⟩ | ⟨i, h⟩
  · rw [h]
    exact hs
  · rw [h]
    exact hs.of_panes (syncActiveWs_keeps _).panes
  · obtain ⟨j, hsnap⟩ := snapAgentToSelectable_eq 1
      { m with agentSelected := i, sidebar := .agents, focus := .sidebar }
    rw [h, hsnap]
    exact hs.of_panes rfl

/-- **Every input keeps the layouts sound.** -/
theorem act (solve : Solver) (hs : LayoutsSound m) (a : Act) : LayoutsSound (act solve m a) := by
  cases a with
  | event e => exact hs.next e
  | selectNavAt col row area => exact hs.selectNavAt col row area
  | focusPaneAt col row area =>
      refine hs.of_panes ?_
      rcases m.focusPaneAt_cases solve col row area with h | ⟨l, id, -, -, h⟩ <;>
        rw [Tui.act, h]
  | focusDir dir area =>
      refine hs.of_panes ?_
      rcases m.focusDir_cases solve dir area with h | ⟨l, id, -, -, h⟩ <;> rw [Tui.act, h]
  | resizeFocused dir => exact hs.resizeFocused dir
  | toggleZoom =>
      obtain ⟨z, h⟩ := m.toggleZoom_eq
      rw [Tui.act, h]
      exact hs.of_panes rfl

end LayoutsSound

/-- **The layouts are sound in every run.** -/
theorem layouts_sound (solve : Solver) (cwd cwdRepo : Option String) (as : List Act) :
    LayoutsSound (Run.run (act solve) (start cwd cwdRepo) as) := by
  have hstart : LayoutsSound (start cwd cwdRepo) := by
    intro k l hl
    cases (AList.lookup_empty k).symm.trans hl
  exact Run.always (I := LayoutsSound) (fun _ a hs => hs.act solve a) hstart as

/-- **In every run resizing moves the governing split only.** -/
theorem resize_governs (solve : Solver) (cwd cwdRepo : Option String) (as : List Act) (dir : Dir) :
    ResizesGoverning (Run.run (act solve) (start cwd cwdRepo) as) dir :=
  resizeFocused_governs (layouts_sound solve cwd cwdRepo as) dir

end MemMux.Tui
