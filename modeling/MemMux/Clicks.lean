/-
MemMux/Clicks.lean

The operations of the terminal interface that go by position (`memmux/src/app.rs`): clicks into the
sidebar and into the pane grid, moving the focus to a neighbouring pane, and resizing.

A pane's rectangle comes from its place in the tiling tree.  How an area is divided is the
layout solver's business (`Solver`); nothing here depends on what it answers.  `act` is one input
of any kind, these and the events of `Tui`.
-/
import MemMux.Tui

namespace MemMux.Tui

/-! ### Rectangles -/

/-- A rectangle of terminal cells. -/
structure Rect where
  x : UInt16
  y : UInt16
  width : UInt16
  height : UInt16
  deriving DecidableEq, Repr

/-- A direction of spatial focus. -/
inductive Dir
  | left
  | right
  | up
  | down
  deriving DecidableEq, Repr

/-- The layout solver: the two parts of an area that is split into two percentages. -/
abbrev Solver := Orient → Nat → Nat → Rect → Rect × Rect

/-- `u16::saturating_sub`. -/
def saturatingSub (a b : UInt16) : UInt16 := if a ≤ b then 0 else a - b

/-- The cell lies in the rectangle. -/
def Rect.holds (r : Rect) (col row : UInt16) : Bool :=
  r.x ≤ col && col < r.x + r.width && (r.y ≤ row && row < r.y + r.height)

/-- The centre of a rectangle. -/
def Rect.centre (r : Rect) : Int32 × Int32 :=
  (r.x.toUInt32.toInt32 + r.width.toUInt32.toInt32 / 2,
    r.y.toUInt32.toInt32 + r.height.toUInt32.toInt32 / 2)

/-- The point `p` lies in the direction from `c`. -/
def Dir.leads (dir : Dir) (c p : Int32 × Int32) : Bool :=
  match dir with
  | .left => p.1 < c.1
  | .right => c.1 < p.1
  | .up => p.2 < c.2
  | .down => c.2 < p.2

/-- The boundaries that a direction moves are those of columns. -/
def Dir.axisCols (dir : Dir) : Bool := dir == .left || dir == .right

/-- How far a direction moves a boundary. -/
def Dir.delta : Dir → Int
  | .right | .down => 5
  | .left | .up => -5

/-- The square of the distance, as it wraps. -/
def distance (c p : Int32 × Int32) : Int32 :=
  (p.1 - c.1) * (p.1 - c.1) + (p.2 - c.2) * (p.2 - c.2)

section Solved

variable (solve : Solver)

/-- Each leaf's rectangle within `area`. -/
def PaneLayout.leafRects : PaneLayout → Rect → List (String × Rect)
  | leaf id, area => [(id, area)]
  | split orient ratio a b, area =>
      let r := max 10 (min ratio 90)
      let parts := solve orient r (100 - r) area
      a.leafRects parts.1 ++ b.leafRects parts.2

/-- **The rectangles are those of the leaves**, in their order. -/
theorem PaneLayout.map_fst_leafRects (l : PaneLayout) (area : Rect) :
    (l.leafRects solve area).map (·.1) = l.leaves := by
  induction l generalizing area with
  | leaf id => rfl
  | split orient ratio a b iha ihb =>
      rw [leafRects, List.map_append, iha, ihb, leaves]

theorem PaneLayout.mem_leaves_of_mem_leafRects {l : PaneLayout} {area : Rect} {e : String × Rect}
    (h : e ∈ l.leafRects solve area) : e.1 ∈ l.leaves := by
  rw [← l.map_fst_leafRects solve area]
  exact List.mem_map_of_mem h

namespace Model

/-! ### Focus in the pane grid -/

/-- The pane group currently shown in the grid. -/
def activePanes (m : Model) : Option PaneLayout := m.activeWs.bind m.panes.lookup

def toggleZoom (m : Model) : Model :=
  if m.focusedPane.isSome then { m with zoomed := !m.zoomed } else m

/-- Move the boundary of the split that governs the focused pane by 5 percent. -/
def resizeFocused (dir : Dir) (m : Model) : Model :=
  match m.focusedPane, m.activeWs with
  | some focused, some key =>
      match m.panes.lookup key with
      | none => m
      | some layout =>
          let axisCols := dir == .left || dir == .right
          let delta := match dir with
            | .right | .down => 5
            | .left | .up => -5
          { m with panes := m.panes.insert key (layout.resize focused axisCols delta).1 }
  | _, _ => m

/-- The body of the loop of `focus_dir`: keep the nearer of the best pane so far and this one. -/
def nearer (focused : String) (dir : Dir) (c : Int32 × Int32) (best : Option (Int32 × String))
    (e : String × Rect) : Option (Int32 × String) :=
  if e.1 = focused then best
  else if !dir.leads c e.2.centre then best
  else
    let dist := distance c e.2.centre
    if best.all fun b => dist < b.1 then some (dist, e.1) else best

/-- Focus the nearest pane of the active group whose centre lies in `dir` from the focused one's. -/
def focusDir (dir : Dir) (area : Rect) (m : Model) : Model :=
  match m.activePanes, m.focusedPane with
  | some layout, some f =>
      let rects := layout.leafRects solve area
      match rects.find? (·.1 = f) with
      | none => m
      | some cur =>
          match rects.foldl (nearer f dir cur.2.centre) none with
          | some (_, id) => { m with focusedPane := some id }
          | none => m
  | _, _ => m

/-- A click into the pane grid focuses the pane there; says whether there is one. -/
def focusPaneAt (col row : UInt16) (area : Rect) (m : Model) : Model × Bool :=
  match m.activePanes with
  | none => (m, false)
  | some layout =>
      match (layout.leafRects solve area).find? fun e => e.2.holds col row with
      | some (id, _) => ({ m with focusedPane := some id, focus := .panes }, true)
      | none => (m, false)

/-! ### Clicks into the sidebar -/

/-- The workspaces panel is sized to its rows and two borders; the agents panel gets the rest. -/
def sidebarSplit (area : Rect) (m : Model) : Rect × Rect :=
  let wsRows := UInt16.ofNat m.wsItems.length
  let cap := max (saturatingSub area.height 3) 3
  let wsH := min (max 3 (min (wsRows + 2) cap)) cap
  let top := { area with height := min wsH area.height }
  (top,
    { area with
        y := area.y + top.height
        height := saturatingSub area.height top.height })

/-- A click into the sidebar selects the row there; says whether it hit one. -/
def selectNavAt (col row : UInt16) (area : Rect) (m : Model) : Model × Bool :=
  if col < area.x || area.x + area.width ≤ col then (m, false)
  else
    let (top, bottom) := m.sidebarSplit area
    if top.y < row && row + 1 < top.y + top.height then
      let idx := (row - top.y - 1).toNat
      if m.wsItems.length ≤ idx then (m, false)
      else
        let m := { m with wsSelected := idx, sidebar := .workspaces, focus := .sidebar }
        (m.syncActiveWs, true)
    else if bottom.y < row && row + 1 < bottom.y + bottom.height then
      let idx := (row - bottom.y - 1).toNat
      if m.navItems.length ≤ idx then (m, false)
      else
        let m := { m with agentSelected := idx, sidebar := .agents, focus := .sidebar }
        (m.snapAgentToSelectable 1, true)
    else (m, false)

/-! ### What they do -/

/-- The nearest pane is one of those looked at. -/
theorem mem_of_foldl_nearer {f : String} {dir : Dir} {c : Int32 × Int32}
    {rects : List (String × Rect)} {best : Option (Int32 × String)} {d : Int32} {id : String}
    (h : rects.foldl (nearer f dir c) best = some (d, id)) :
    best = some (d, id) ∨ id ∈ rects.map (·.1) := by
  induction rects generalizing best with
  | nil => exact .inl h
  | cons e rects ih =>
      rw [List.map_cons, List.mem_cons]
      rcases ih h with hbest | hmem
      · -- the best pane so far is an earlier one or this one
        unfold nearer at hbest
        dsimp only at hbest
        split_ifs at hbest
        · exact .inl hbest
        · exact .inl hbest
        · exact .inr (.inl (Prod.mk.inj (Option.some.inj hbest)).2.symm)
        · exact .inl hbest
      · exact .inr (.inr hmem)

/-- The pane that a move focuses is a leaf of the layout that is shown. -/
theorem focusDir_cases (dir : Dir) (area : Rect) (m : Model) :
    m.focusDir solve dir area = m ∨
      ∃ l id, m.activePanes = some l ∧ id ∈ l.leaves ∧
        m.focusDir solve dir area = { m with focusedPane := some id } := by
  unfold focusDir
  split
  · next layout f hl hf =>
    dsimp only
    split
    · exact .inl rfl
    · split
      · next d id hbest =>
        rcases mem_of_foldl_nearer hbest with hnone | hmem
        · cases hnone
        · rw [PaneLayout.map_fst_leafRects] at hmem
          exact .inr ⟨layout, id, hl, hmem, rfl⟩
      · exact .inl rfl
  · exact .inl rfl

/-- The pane that a click focuses is a leaf of the layout that is shown. -/
theorem focusPaneAt_cases (col row : UInt16) (area : Rect) (m : Model) :
    (m.focusPaneAt solve col row area).1 = m ∨
      ∃ l id, m.activePanes = some l ∧ id ∈ l.leaves ∧
        (m.focusPaneAt solve col row area).1
          = { m with focusedPane := some id, focus := .panes } := by
  unfold focusPaneAt
  split
  · exact .inl rfl
  · next layout hl =>
    split
    · next id r hfind =>
      refine .inr ⟨layout, id, hl, ?_, rfl⟩
      exact PaneLayout.mem_leaves_of_mem_leafRects solve (List.mem_of_find?_eq_some hfind)
    · exact .inl rfl

/-- Resizing replaces the layout that is shown by its resized one. -/
theorem resizeFocused_cases (dir : Dir) (m : Model) :
    m.resizeFocused dir = m ∨
      ∃ f key l, m.focusedPane = some f ∧ m.activeWs = some key ∧
        m.panes.lookup key = some l ∧ m.resizeFocused dir
          = { m with panes := m.panes.insert key (l.resize f dir.axisCols dir.delta).1 } := by
  unfold resizeFocused
  split
  · next f key hf hkey =>
    split
    · exact .inl rfl
    · next l hl =>
      refine .inr ⟨f, key, l, hf, hkey, hl, ?_⟩
      cases dir <;> rfl
  · exact .inl rfl

theorem toggleZoom_eq (m : Model) : ∃ z, m.toggleZoom = { m with zoomed := z } := by
  unfold toggleZoom
  split
  · exact ⟨_, rfl⟩
  · exact ⟨m.zoomed, rfl⟩

/-- A click selects a row of one of the panels, if it hits one, and goes on as the panel does. -/
theorem selectNavAt_cases (col row : UInt16) (area : Rect) (m : Model) :
    (m.selectNavAt col row area).1 = m ∨
      (∃ i < m.wsItems.length, (m.selectNavAt col row area).1
        = ({ m with wsSelected := i, sidebar := .workspaces, focus := .sidebar }).syncActiveWs) ∨
      ∃ i, (m.selectNavAt col row area).1
        = ({ m with agentSelected := i, sidebar := .agents
                    focus := .sidebar }).snapAgentToSelectable 1 := by
  unfold selectNavAt
  dsimp only
  split_ifs with hout htop hws hbottom hnav
  · exact .inl rfl
  · exact .inl rfl
  · exact .inr (.inl ⟨_, Nat.lt_of_not_le hws, rfl⟩)
  · exact .inl rfl
  · exact .inr (.inr ⟨_, rfl⟩)
  · exact .inl rfl

end Model

/-! ### Inputs -/

/-- One input: an event, or an operation by position. -/
inductive Act
  | event (e : Event)
  | selectNavAt (col row : UInt16) (area : Rect)
  | focusPaneAt (col row : UInt16) (area : Rect)
  | focusDir (dir : Dir) (area : Rect)
  | resizeFocused (dir : Dir)
  | toggleZoom

/-- The model after one input. -/
def act (m : Model) : Act → Model
  | .event e => next m e
  | .selectNavAt col row area => (m.selectNavAt col row area).1
  | .focusPaneAt col row area => (m.focusPaneAt solve col row area).1
  | .focusDir dir area => m.focusDir solve dir area
  | .resizeFocused dir => m.resizeFocused dir
  | .toggleZoom => m.toggleZoom

end Solved

end MemMux.Tui
