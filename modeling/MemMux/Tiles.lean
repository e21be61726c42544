/-
MemMux/Tiles.lean

The pane grid and the sidebar on the screen (`memmux/src/main.rs`), and what clicks and moves of the
focus do there.

The layout solver of the terminal library is not ours.  All that is asked of it is that two percentages
that make up the whole cut an area in two (`Solver.Fills`).  Then the panes of a group tile the grid
(`tiles_leafRects`), so a click focuses the one pane under it (`click_focuses`); and no coordinate
leaves the screen, so the squares that `focus_dir` compares do not wrap (`focus_moves_nearest`).
-/
import Mathlib.Algebra.Order.Ring.Int
import Mathlib.Data.Int.ConditionallyCompleteOrder
import Mathlib.Data.Int.SuccPred
import Mathlib.Data.List.MinMax
import Mathlib.Tactic.Common
import Mathlib.Tactic.Ring
import MemMux.Layouts
import MemMux.PaneFocus
import MemMux.Tiling

namespace MemMux.Tui

/-! ### Areas of the screen -/

/-- Width of the sidebar. -/
def sidebarWidth : UInt16 := 30

/-- The pane grid's rectangle on a screen of this size. -/
def gridArea (cols rows : UInt16) : Rect where
  x := min sidebarWidth cols
  y := 1
  width := saturatingSub cols sidebarWidth
  height := saturatingSub rows 2

/-- The sidebar's rectangle on a screen of this size. -/
def sidebarArea (cols rows : UInt16) : Rect where
  x := 0
  y := 1
  width := min sidebarWidth cols
  height := saturatingSub rows 2

/-- Where the sidebar and the panes are drawn: `render` leaves the body a `Min(1)` between two lines, and
`render_home` cuts it into a `Length` for the sidebar and a `Min(10)`.  On a screen with no room for
all of these the terminal library decides. -/
def renderHome (cols rows : UInt16) : Option (Rect × Rect) :=
  if sidebarWidth + 10 ≤ cols ∧ 3 ≤ rows then
    some (⟨0, 1, sidebarWidth, rows - 2⟩, ⟨sidebarWidth, 1, cols - sidebarWidth, rows - 2⟩)
  else none

/-- The panes that are drawn into an area, and where: the tiles of the group, or just the focused pane
when zoomed. -/
def Model.renderPaneGrid (solve : Solver) (area : Rect) (m : Model) : List (String × Rect) :=
  match m.activePanes with
  | none => []
  | some layout =>
      if m.zoomed then
        match m.focusedPane with
        | some id => [(id, area)]
        | none => layout.leafRects solve area
      else layout.leafRects solve area

/-- **Clicks are taken where things are drawn**, on a screen that has room for them. -/
theorem renderHome_areas {cols rows : UInt16} {sidebar grid : Rect}
    (h : renderHome cols rows = some (sidebar, grid)) :
    sidebarArea cols rows = sidebar ∧ gridArea cols rows = grid := by
  unfold renderHome at h
  split at h
  · next hroom =>
    obtain ⟨hcols, hrows⟩ := hroom
    obtain ⟨rfl, rfl⟩ := Prod.mk.inj (Option.some.inj h)
    have hle : sidebarWidth ≤ cols := UInt16.le_trans (by decide) hcols
    have hmin : min sidebarWidth cols = sidebarWidth := if_pos hle
    have hwidth : saturatingSub cols sidebarWidth = cols - sidebarWidth := by
      unfold saturatingSub
      split
      · next hge => rw [UInt16.le_antisymm hge hle, UInt16.sub_self]
      · rfl
    have hheight : saturatingSub rows 2 = rows - 2 := by
      unfold saturatingSub
      split
      · next hge => exact absurd (UInt16.le_trans hrows hge) (by decide)
      · rfl
    unfold sidebarArea gridArea
    rw [hmin, hwidth, hheight]
    exact ⟨rfl, rfl⟩
  · cases h

/-- A left click: select a sidebar row, else focus the pane under it. -/
def Model.handleMouseClick (solve : Solver) (cols rows col row : UInt16) (m : Model) : Model :=
  let (m, hit) := m.selectNavAt col row (sidebarArea cols rows)
  if hit then m else (m.focusPaneAt solve col row (gridArea cols rows)).1

/-- The far edges of the rectangle are cells of a screen. -/
def Rect.Fits (r : Rect) : Prop :=
  r.x.toNat + r.width.toNat < 2 ^ 16 ∧ r.y.toNat + r.height.toNat < 2 ^ 16

theorem toNat_saturatingSub (a b : UInt16) : (saturatingSub a b).toNat = a.toNat - b.toNat := by
  unfold saturatingSub
  split
  · next h =>
    have := UInt16.le_iff_toNat_le.mp h
    simp only [UInt16.toNat_zero]
    omega
  · next h => exact UInt16.toNat_sub_of_le _ _ (UInt16.le_of_lt (UInt16.not_le.mp h))

theorem toNat_min (a b : UInt16) : (min a b).toNat = min a.toNat b.toNat := by
  show (if a ≤ b then a else b).toNat = _
  split
  · next h => exact (min_eq_left (UInt16.le_iff_toNat_le.mp h)).symm
  · next h =>
    have := mt UInt16.le_iff_toNat_le.mpr h
    omega

theorem gridArea_fits (cols rows : UInt16) : (gridArea cols rows).Fits := by
  have hcols := cols.toNat_lt
  have hrows := rows.toNat_lt
  have hwidth : (gridArea cols rows).width.toNat = cols.toNat - 30 := toNat_saturatingSub cols 30
  have hheight : (gridArea cols rows).height.toNat = rows.toNat - 2 := toNat_saturatingSub rows 2
  have hx : (gridArea cols rows).x.toNat = min 30 cols.toNat := toNat_min 30 cols
  have hy : (gridArea cols rows).y.toNat = 1 := rfl
  unfold Rect.Fits
  omega

theorem sidebarArea_fits (cols rows : UInt16) : (sidebarArea cols rows).Fits := by
  have hrows := rows.toNat_lt
  have hwidth : (sidebarArea cols rows).width.toNat = min 30 cols.toNat := toNat_min 30 cols
  have hheight : (sidebarArea cols rows).height.toNat = rows.toNat - 2 := toNat_saturatingSub rows 2
  have hx : (sidebarArea cols rows).x.toNat = 0 := rfl
  have hy : (sidebarArea cols rows).y.toNat = 1 := rfl
  unfold Rect.Fits
  omega

/-! ### The layout solver -/

/-- The length of the side that a split cuts. -/
def Rect.extent (area : Rect) : Orient → UInt16
  | .cols => area.width
  | .rows => area.height

/-- The area cut in two at `n` cells from its start. -/
def Rect.cut (area : Rect) : Orient → UInt16 → Rect × Rect
  | .cols, n => ({ area with width := n }, { area with x := area.x + n, width := area.width - n })
  | .rows, n =>
      ({ area with height := n }, { area with y := area.y + n, height := area.height - n })

/-- **The layout solver fills an area**: two percentages that make up the whole cut it in two. -/
def Solver.Fills (solve : Solver) : Prop :=
  ∀ orient ratio area, ratio ≤ 100 →
    ∃ n ≤ area.extent orient, solve orient ratio (100 - ratio) area = area.cut orient n

/-- A layout solver that rounds the first percentage to the nearest cell. -/
def proportional : Solver := fun orient ratio _ area =>
  area.cut orient (UInt16.ofNat (((area.extent orient).toNat * ratio + 50) / 100))

theorem proportional_fills : proportional.Fills := by
  intro orient ratio area hratio
  refine ⟨_, ?_, rfl⟩
  have hlt := (area.extent orient).toNat_lt
  have hle : ((area.extent orient).toNat * ratio + 50) / 100 ≤ (area.extent orient).toNat := by
    have := Nat.mul_le_mul_left (area.extent orient).toNat hratio
    omega
  have hsize : ((area.extent orient).toNat * ratio + 50) / 100 < UInt16.size := hle.trans_lt hlt
  rw [UInt16.le_iff_toNat_le, UInt16.toNat_ofNat_of_lt' hsize]
  exact hle

/-! ### Panes tile the grid -/

/-- The rectangle holds the cell. -/
def Rect.hasCell (r : Rect) (cell : UInt16 × UInt16) : Bool := r.holds cell.1 cell.2

theorem Rect.holds_iff {r : Rect} (hr : r.Fits) (col row : UInt16) :
    r.holds col row = true ↔
      (r.x.toNat ≤ col.toNat ∧ col.toNat < r.x.toNat + r.width.toNat) ∧
        r.y.toNat ≤ row.toNat ∧ row.toNat < r.y.toNat + r.height.toNat := by
  obtain ⟨hx, hy⟩ := hr
  unfold Rect.holds
  rw [Bool.and_eq_true, Bool.and_eq_true, Bool.and_eq_true]
  simp only [decide_eq_true_iff, UInt16.le_iff_toNat_le, UInt16.lt_iff_toNat_lt, UInt16.toNat_add]
  rw [Nat.mod_eq_of_lt hx, Nat.mod_eq_of_lt hy]

/-- The far part of a side of length `w` that starts at `x` and is cut at `n`. -/
theorem toNat_far {x w n : UInt16} (hw : x.toNat + w.toNat < 2 ^ 16) (hn : n ≤ w) :
    (x + n).toNat = x.toNat + n.toNat ∧ (w - n).toNat = w.toNat - n.toNat ∧ n.toNat ≤ w.toNat := by
  have hn' := UInt16.le_iff_toNat_le.mp hn
  refine ⟨?_, UInt16.toNat_sub_of_le _ _ hn, hn'⟩
  rw [UInt16.toNat_add, Nat.mod_eq_of_lt (by omega)]

theorem Rect.cut_fits {area : Rect} (ha : area.Fits) {orient : Orient} {n : UInt16}
    (hn : n ≤ area.extent orient) :
    (area.cut orient n).1.Fits ∧ (area.cut orient n).2.Fits := by
  obtain ⟨hx, hy⟩ := ha
  cases orient with
  | cols =>
      obtain ⟨hstart, hrest, hle⟩ := toNat_far hx hn
      refine ⟨⟨?_, hy⟩, ⟨?_, hy⟩⟩
      · show area.x.toNat + n.toNat < _
        omega
      · show (area.x + n).toNat + (area.width - n).toNat < _
        omega
  | rows =>
      obtain ⟨hstart, hrest, hle⟩ := toNat_far hy hn
      refine ⟨⟨hx, ?_⟩, ⟨hx, ?_⟩⟩
      · show area.y.toNat + n.toNat < _
        omega
      · show (area.y + n).toNat + (area.height - n).toNat < _
        omega

/-- The parts of a cut divide the area. -/
theorem Rect.cut_divides {area : Rect} (ha : area.Fits) {orient : Orient} {n : UInt16}
    (hn : n ≤ area.extent orient) :
    Tiling.Divides Rect.hasCell (area.cut orient n).1 (area.cut orient n).2 area := by
  rintro ⟨col, row⟩
  obtain ⟨hfst, hsnd⟩ := Rect.cut_fits ha hn
  have harea := Rect.holds_iff ha col row
  have hone := Rect.holds_iff hfst col row
  have htwo := Rect.holds_iff hsnd col row
  rw [Bool.eq_iff_iff, Bool.or_eq_true, Bool.eq_false_iff, ne_eq, Bool.and_eq_true]
  show (area.holds col row = true ↔ (area.cut orient n).1.holds col row = true ∨ _) ∧ _
  rw [harea]
  unfold Rect.hasCell
  rw [hone, htwo]
  cases orient with
  | cols =>
      obtain ⟨hstart, hrest, hle⟩ := toNat_far ha.1 hn
      simp only [cut, hstart, hrest]
      omega
  | rows =>
      obtain ⟨hstart, hrest, hle⟩ := toNat_far ha.2 hn
      simp only [cut, hstart, hrest]
      omega

section Solved

variable {solve : Solver}

/-- What a split does with its area. -/
theorem Solver.Fills.cut (hsolve : solve.Fills) (orient : Orient) (ratio : Nat) (area : Rect) :
    ∃ n ≤ area.extent orient,
      solve orient (max 10 (min ratio 90)) (100 - max 10 (min ratio 90)) area
        = area.cut orient n :=
  hsolve orient _ area (by omega)

/-- **The panes of a group tile the area they are laid out in.** -/
theorem PaneLayout.tiles_leafRects (hsolve : solve.Fills) (l : PaneLayout) {area : Rect}
    (ha : area.Fits) : Tiling.Tiles Rect.hasCell (l.leafRects solve area) area := by
  induction l generalizing area with
  | leaf id => exact Tiling.tiles_singleton id area
  | split orient ratio a b iha ihb =>
      obtain ⟨n, hn, hcut⟩ := hsolve.cut orient ratio area
      obtain ⟨hfst, hsnd⟩ := Rect.cut_fits ha hn
      rw [leafRects, hcut]
      exact (iha hfst).append (ihb hsnd) (Rect.cut_divides ha hn)

end Solved

/-! ### Clicks -/

namespace Model

/-- The panels of the sidebar are its area cut in two. -/
theorem sidebarSplit_eq (m : Model) (area : Rect) :
    ∃ h ≤ area.height, m.sidebarSplit area = ({ area with height := h },
      { area with y := area.y + h, height := saturatingSub area.height h }) := by
  refine ⟨(m.sidebarSplit area).1.height, ?_, rfl⟩
  rw [UInt16.le_iff_toNat_le]
  exact (toNat_min _ _).trans_le (min_le_right _ _)

/-- The panels of the sidebar lie one above the other in its area. -/
theorem sidebarSplit_spec (m : Model) {area : Rect} (ha : area.Fits) :
    (m.sidebarSplit area).1.y = area.y ∧
      (m.sidebarSplit area).1.height.toNat ≤ area.height.toNat ∧
      (m.sidebarSplit area).2.y.toNat
        = area.y.toNat + (m.sidebarSplit area).1.height.toNat ∧
      (m.sidebarSplit area).2.height.toNat
        = area.height.toNat - (m.sidebarSplit area).1.height.toNat := by
  obtain ⟨h, hle, hsplit⟩ := m.sidebarSplit_eq area
  obtain ⟨hy, -, hle'⟩ := toNat_far ha.2 hle
  rw [hsplit]
  exact ⟨rfl, hle', hy, toNat_saturatingSub area.height h⟩

/-- **A click outside of the sidebar selects none of its rows.** -/
theorem selectNavAt_outside (m : Model) {area : Rect} (ha : area.Fits) {col row : UInt16}
    (hrow : row.toNat + 1 < 2 ^ 16) (hout : area.holds col row = false) :
    m.selectNavAt col row area = (m, false) := by
  rw [← Bool.not_eq_true, Rect.holds_iff ha] at hout
  obtain ⟨htop, hheight, hbottom, hrest⟩ := m.sidebarSplit_spec ha
  obtain ⟨hx, hy⟩ := ha
  have hright : (area.x + area.width).toNat = area.x.toNat + area.width.toNat := by
    rw [UInt16.toNat_add, Nat.mod_eq_of_lt hx]
  have hnext : (row + 1).toNat = row.toNat + 1 := by
    rw [UInt16.toNat_add, Nat.mod_eq_of_lt (by exact hrow)]
    rfl
  unfold selectNavAt
  split
  · rfl
  · next hcol =>
    rw [Bool.or_eq_true, decide_eq_true_iff, decide_eq_true_iff, UInt16.lt_iff_toNat_lt,
      UInt16.le_iff_toNat_le, hright] at hcol
    -- the row is outside then, so it is in neither panel
    have hendTop : ((m.sidebarSplit area).1.y + (m.sidebarSplit area).1.height).toNat
        = area.y.toNat + (m.sidebarSplit area).1.height.toNat := by
      rw [htop, UInt16.toNat_add, Nat.mod_eq_of_lt (by omega)]
    have hendBottom : ((m.sidebarSplit area).2.y + (m.sidebarSplit area).2.height).toNat
        = area.y.toNat + area.height.toNat := by
      rw [UInt16.toNat_add, Nat.mod_eq_of_lt (by omega)]
      omega
    have hnotTop : ¬(decide ((m.sidebarSplit area).1.y < row) &&
        decide (row + 1 < (m.sidebarSplit area).1.y + (m.sidebarSplit area).1.height)) = true := by
      rw [Bool.and_eq_true, decide_eq_true_iff, decide_eq_true_iff, UInt16.lt_iff_toNat_lt,
        UInt16.lt_iff_toNat_lt, hendTop, hnext, htop]
      omega
    have hnotBottom : ¬(decide ((m.sidebarSplit area).2.y < row) &&
        decide (row + 1 < (m.sidebarSplit area).2.y + (m.sidebarSplit area).2.height)) = true := by
      rw [Bool.and_eq_true, decide_eq_true_iff, decide_eq_true_iff, UInt16.lt_iff_toNat_lt,
        UInt16.lt_iff_toNat_lt, hendBottom, hnext, hbottom]
      omega
    exact (if_neg hnotTop).trans (if_neg hnotBottom)

end Model

section Solved

variable {solve : Solver}

/-- A click into the pane grid focuses the pane there, of which there is one; no other click does. -/
theorem Model.focusPaneAt_spec (hsolve : solve.Fills) (m : Model) {area : Rect} (ha : area.Fits)
    (col row : UInt16) :
    (∀ l, m.activePanes = some l → area.holds col row = true →
      ∃ e ∈ l.leafRects solve area, e.2.holds col row = true ∧
        (∀ e' ∈ l.leafRects solve area, e'.2.holds col row = true → e' = e) ∧
        m.focusPaneAt solve col row area
          = ({ m with focusedPane := some e.1, focus := .panes }, true)) ∧
      (area.holds col row = false ∨ m.activePanes = none →
        m.focusPaneAt solve col row area = (m, false)) := by
  constructor
  · intro l hl hin
    obtain ⟨e, he, hholds, hfind, hone⟩ :=
      (l.tiles_leafRects hsolve ha).find?_spec (p := (col, row)) hin
    have hfind : ((l.leafRects solve area).find? fun e => e.2.holds col row) = some e := hfind
    refine ⟨e, he, hholds, hone, ?_⟩
    unfold focusPaneAt
    rw [hl]
    dsimp only
    rw [hfind]
  · intro hout
    unfold focusPaneAt
    cases hl : m.activePanes with
    | none => rfl
    | some l =>
        have hout : area.holds col row = false := hout.resolve_right (by simp [hl])
        have hfind : ((l.leafRects solve area).find? fun e => e.2.holds col row) = none :=
          (l.tiles_leafRects hsolve ha).find?_eq_none (p := (col, row)) hout
        dsimp only
        rw [hfind]

/-- A cell of the screen that is in the pane grid is not in the sidebar. -/
theorem sidebar_disjoint_grid {cols rows col row : UInt16}
    (hgrid : (gridArea cols rows).holds col row = true) :
    (sidebarArea cols rows).holds col row = false := by
  rw [Rect.holds_iff (gridArea_fits cols rows)] at hgrid
  rw [← Bool.not_eq_true, Rect.holds_iff (sidebarArea_fits cols rows)]
  rintro ⟨⟨-, hright⟩, -⟩
  have hleft : (gridArea cols rows).x.toNat ≤ col.toNat := hgrid.1.1
  have hx : (gridArea cols rows).x = (sidebarArea cols rows).width := rfl
  have hzero : (sidebarArea cols rows).x.toNat = 0 := rfl
  rw [hx] at hleft
  omega

/-- A click into the sidebar selects a row at most; the group of a selected workspace is shown. -/
theorem selectNavAt_selects (col row : UInt16) (area : Rect) (m : Model) :
    (m.selectNavAt col row area).1 = m ∨
      (∃ i < m.wsItems.length, (m.selectNavAt col row area).1
        = ({ m with wsSelected := i, sidebar := .workspaces, focus := .sidebar }).syncActiveWs) ∨
      ∃ i, (m.selectNavAt col row area).1
        = { m with agentSelected := i, sidebar := .agents, focus := .sidebar } := by
  rcases m.selectNavAt_cases col row area with h | h | ⟨i, h⟩
  · exact .inl h
  · exact .inr (.inl h)
  · obtain ⟨j, hj⟩ := snapAgentToSelectable_eq 1
      { m with agentSelected := i, sidebar := .agents, focus := .sidebar }
    exact .inr (.inr ⟨j, h.trans hj⟩)

/-- What is drawn of a group with a pane in focus. -/
theorem renderPaneGrid_eq {m : Model} {l : PaneLayout} {f : String} {area : Rect}
    (hl : m.activePanes = some l) (hf : m.focusedPane = some f) :
    m.renderPaneGrid solve area = if m.zoomed then [(f, area)] else l.leafRects solve area := by
  unfold Model.renderPaneGrid
  rw [hl, hf]

/-- A tile of the shown group is drawn unless another pane is zoomed. -/
theorem mem_renderPaneGrid {m : Model} {l : PaneLayout} {e : String × Rect} {area : Rect}
    {col row : UInt16} (hl : m.activePanes = some l) (hf : m.focusedPane.isSome)
    (he : e ∈ l.leafRects solve area) (harea : area.holds col row = true)
    (hcell : e.2.holds col row = true) :
    (∃ r, (e.1, r) ∈ m.renderPaneGrid solve area ∧ r.holds col row = true) ↔
      (m.zoomed = true → m.focusedPane = some e.1) := by
  obtain ⟨f, hf⟩ := Option.isSome_iff_exists.mp hf
  rw [renderPaneGrid_eq hl hf, hf]
  cases hz : m.zoomed with
  | false => exact iff_of_true ⟨e.2, he, hcell⟩ nofun
  | true =>
      simp only [if_true, List.mem_singleton, Prod.mk.injEq, true_implies, Option.some.injEq]
      constructor
      · rintro ⟨r, ⟨rfl, -⟩, -⟩
        rfl
      · rintro rfl
        exact ⟨area, ⟨rfl, rfl⟩, harea⟩

end Solved

/-- Two agents of one workspace, in panes side by side. -/
def twoPanes : List Act :=
  [.event (.setData { oneAgent with tasks := oneAgent.tasks ++
      [⟨"t2", "add tests", "codex", "ACTIVE", "repo", "main", 0, 0, 0, 0, none⟩] }),
    .event (.openPane "t1"), .event (.openPane "t2")]

/-- The coordinates of the centre. -/
def Rect.middle (r : Rect) : Int × Int :=
  ((r.x.toNat + r.width.toNat / 2 : Nat), (r.y.toNat + r.height.toNat / 2 : Nat))

/-- The square of the distance of two rectangles' centres. -/
def Rect.apart (r s : Rect) : Int :=
  (s.middle.1 - r.middle.1) * (s.middle.1 - r.middle.1) +
    (s.middle.2 - r.middle.2) * (s.middle.2 - r.middle.2)

/-- The centre of `s` lies in the direction from the one of `r`. -/
def Dir.towards (dir : Dir) (r s : Rect) : Prop :=
  match dir with
  | .left => s.middle.1 < r.middle.1
  | .right => r.middle.1 < s.middle.1
  | .up => s.middle.2 < r.middle.2
  | .down => r.middle.2 < s.middle.2

/-- The middle of a side does not wrap. -/
theorem toInt_middle (x w : UInt16) :
    (x.toUInt32.toInt32 + w.toUInt32.toInt32 / 2).toInt = ((x.toNat + w.toNat / 2 : Nat) : Int) := by
  have hcoord : ∀ u : UInt16, u.toUInt32.toInt32.toInt = u.toNat := by
    intro u
    have := u.toNat_lt
    show BitVec.toInt u.toUInt32.toBitVec = _
    rw [BitVec.toInt_eq_toNat_of_lt]
    · simp
    · show 2 * u.toUInt32.toNat < 2 ^ 32
      rw [UInt16.toNat_toUInt32]
      omega
  have hx := x.toNat_lt
  have hw := w.toNat_lt
  have htwo : (2 : Int32).toInt = 2 := rfl
  have hdiv : (w.toUInt32.toInt32 / 2).toInt = ((w.toNat / 2 : Nat) : Int) := by
    rw [Int32.toInt_div, hcoord, htwo, Int.tdiv_eq_ediv_of_nonneg (by omega)]
    exact Int.bmod_eq_of_le_mul_two (by omega) (by omega)
  rw [Int32.toInt_add, hcoord, hdiv]
  exact Int.bmod_eq_of_le_mul_two (by omega) (by omega)

theorem Rect.toInt_centre (r : Rect) :
    r.centre.1.toInt = r.middle.1 ∧ r.centre.2.toInt = r.middle.2 :=
  ⟨toInt_middle r.x r.width, toInt_middle r.y r.height⟩

theorem Dir.leads_iff (dir : Dir) (r s : Rect) :
    dir.leads r.centre s.centre = true ↔ dir.towards r s := by
  obtain ⟨hr, hr'⟩ := r.toInt_centre
  obtain ⟨hs, hs'⟩ := s.toInt_centre
  cases dir <;>
    simp only [leads, towards, decide_eq_true_iff, Int32.lt_iff_toInt_lt, hr, hr', hs, hs']

/-- The rectangle lies on a screen of less than `2 ^ 15` columns and rows. -/
def Rect.OnScreen (r : Rect) : Prop :=
  r.x.toNat + r.width.toNat < 2 ^ 15 ∧ r.y.toNat + r.height.toNat < 2 ^ 15

/-- The square of a difference of coordinates. -/
theorem square_within {d : Int} (hlow : -32767 ≤ d) (hhigh : d ≤ 32767) :
    0 ≤ d * d ∧ d * d ≤ 1073676289 := by
  have hprod : 0 ≤ (32767 - d) * (32767 + d) := Int.mul_nonneg (by omega) (by omega)
  have heq : (32767 - d) * (32767 + d) = 1073676289 - d * d := by ring
  exact ⟨mul_self_nonneg d, by omega⟩

/-- **On a screen the squares do not wrap.** -/
theorem toInt_distance {r s : Rect} (hr : r.OnScreen) (hs : s.OnScreen) :
    (distance r.centre s.centre).toInt = r.apart s := by
  obtain ⟨hrx, hry⟩ := r.toInt_centre
  obtain ⟨hsx, hsy⟩ := s.toInt_centre
  have hwithin : ∀ t : Rect, t.OnScreen →
      (0 ≤ t.middle.1 ∧ t.middle.1 ≤ 32767) ∧ 0 ≤ t.middle.2 ∧ t.middle.2 ≤ 32767 := by
    rintro t ⟨hx, hy⟩
    unfold Rect.middle
    dsimp only
    omega
  obtain ⟨hr1, hr2⟩ := hwithin r hr
  obtain ⟨hs1, hs2⟩ := hwithin s hs
  have hdx : (s.centre.1 - r.centre.1).toInt = s.middle.1 - r.middle.1 := by
    rw [Int32.toInt_sub, hrx, hsx]
    exact Int.bmod_eq_of_le_mul_two (by omega) (by omega)
  have hdy : (s.centre.2 - r.centre.2).toInt = s.middle.2 - r.middle.2 := by
    rw [Int32.toInt_sub, hry, hsy]
    exact Int.bmod_eq_of_le_mul_two (by omega) (by omega)
  obtain ⟨hxlow, hxhigh⟩ := square_within (d := s.middle.1 - r.middle.1) (by omega) (by omega)
  obtain ⟨hylow, hyhigh⟩ := square_within (d := s.middle.2 - r.middle.2) (by omega) (by omega)
  unfold distance Rect.apart
  rw [Int32.toInt_add, Int32.toInt_mul, Int32.toInt_mul, hdx, hdy,
    Int.bmod_eq_of_le_mul_two (x := (s.middle.1 - r.middle.1) * _) (by omega) (by omega),
    Int.bmod_eq_of_le_mul_two (x := (s.middle.2 - r.middle.2) * _) (by omega) (by omega)]
  exact Int.bmod_eq_of_le_mul_two (by omega) (by omega)

/-- The rectangles of the panes lie on the screen that their area lies on. -/
theorem PaneLayout.onScreen_leafRects {solve : Solver} (hsolve : solve.Fills) (l : PaneLayout)
    {area : Rect} (ha : area.OnScreen) : ∀ e ∈ l.leafRects solve area, e.2.OnScreen := by
  induction l generalizing area with
  | leaf id =>
      intro e he
      obtain rfl := List.mem_singleton.mp he
      exact ha
  | split orient ratio a b iha ihb =>
      obtain ⟨n, hn, hcut⟩ := hsolve.cut orient ratio area
      obtain ⟨hx, hy⟩ := ha
      have hparts : (area.cut orient n).1.OnScreen ∧ (area.cut orient n).2.OnScreen := by
        cases orient with
        | cols =>
            obtain ⟨hstart, hrest, hle⟩ := toNat_far (hx.trans (by decide)) hn
            simp only [Rect.cut, Rect.OnScreen, hstart, hrest]
            omega
        | rows =>
            obtain ⟨hstart, hrest, hle⟩ := toNat_far (hy.trans (by decide)) hn
            simp only [Rect.cut, Rect.OnScreen, hstart, hrest]
            omega
      intro e he
      rw [leafRects, hcut, List.mem_append] at he
      exact he.elim (iha hparts.1 e) (ihb hparts.2 e)

theorem gridArea_onScreen {cols rows : UInt16} (hcols : cols < 32768) (hrows : rows < 32768) :
    (gridArea cols rows).OnScreen := by
  have hcols : cols.toNat < 32768 := UInt16.lt_iff_toNat_lt.mp hcols
  have hrows : rows.toNat < 32768 := UInt16.lt_iff_toNat_lt.mp hrows
  have hwidth : (gridArea cols rows).width.toNat = cols.toNat - 30 := toNat_saturatingSub cols 30
  have hheight : (gridArea cols rows).height.toNat = rows.toNat - 2 := toNat_saturatingSub rows 2
  have hx : (gridArea cols rows).x.toNat = min 30 cols.toNat := toNat_min 30 cols
  have hy : (gridArea cols rows).y.toNat = 1 := rfl
  unfold Rect.OnScreen
  omega

/-- The panes that a move from `f`, whose rectangle is `r`, may focus. -/
def candidates (f : String) (dir : Dir) (r : Rect) (rects : List (String × Rect)) :
    List (String × Rect) :=
  rects.filter fun e => e.1 ≠ f ∧ dir.leads r.centre e.2.centre

/-- The body of the loop of `focus_dir` keeps the first of the nearest panes. -/
theorem foldl_nearer (f : String) (dir : Dir) (r : Rect) (rects : List (String × Rect))
    (best : Option (String × Rect)) :
    rects.foldl (Model.nearer f dir r.centre)
        (best.map fun e => (distance r.centre e.2.centre, e.1))
      = ((candidates f dir r rects).foldl (List.argAux fun e b =>
          (distance r.centre e.2.centre).toInt < (distance r.centre b.2.centre).toInt)
          best).map fun e => (distance r.centre e.2.centre, e.1) := by
  induction rects generalizing best with
  | nil => rfl
  | cons e rects ih =>
      by_cases he : e.1 ≠ f ∧ dir.leads r.centre e.2.centre
      · have hcons : candidates f dir r (e :: rects) = e :: candidates f dir r rects :=
          List.filter_cons_of_pos (by simpa using he)
        rw [hcons, List.foldl_cons, List.foldl_cons, ← ih]
        congr 1
        unfold Model.nearer
        rw [if_neg he.1, he.2]
        cases best with
        | none => rfl
        | some b =>
            by_cases hlt : distance r.centre e.2.centre < distance r.centre b.2.centre
            · simp [List.argAux, hlt, Int32.lt_iff_toInt_lt.mp hlt]
            · simp [List.argAux, hlt, mt Int32.lt_iff_toInt_lt.mpr hlt]
      · have hcons : candidates f dir r (e :: rects) = candidates f dir r rects :=
          List.filter_cons_of_neg (by simpa using he)
        rw [hcons, List.foldl_cons, ← ih]
        congr 1
        unfold Model.nearer
        rw [not_and_or, not_not] at he
        split_ifs with hself hleads
        · rfl
        · rfl
        · exact absurd (he.resolve_left hself) (by simpa using hleads)

theorem mem_candidates {f : String} {dir : Dir} {r : Rect} {rects : List (String × Rect)}
    {e : String × Rect} :
    e ∈ candidates f dir r rects ↔ e ∈ rects ∧ e.1 ≠ f ∧ dir.towards r e.2 := by
  unfold candidates
  rw [List.mem_filter, decide_eq_true_iff, Dir.leads_iff]

section Solved

variable {solve : Solver}

/-- A move focuses the first of the nearest candidates, if there is one. -/
theorem Model.focusDir_eq (m : Model) {dir : Dir} {area : Rect} {l : PaneLayout} {f : String}
    {r : Rect} (hl : m.activePanes = some l) (hf : m.focusedPane = some f)
    (hnodup : l.leaves.Nodup) (hr : (f, r) ∈ l.leafRects solve area) :
    m.focusDir solve dir area =
      (((candidates f dir r (l.leafRects solve area)).argmin
        fun e => (distance r.centre e.2.centre).toInt).map
          fun e => { m with focusedPane := some e.1 }).getD m := by
  -- the focused pane has one rectangle
  have hfind : ((l.leafRects solve area).find? (·.1 = f)) = some (f, r) := by
    obtain ⟨e, he⟩ : ∃ e, (l.leafRects solve area).find? (·.1 = f) = some e := by
      rw [← Option.isSome_iff_exists, List.find?_isSome]
      exact ⟨_, hr, by simp⟩
    have hname : e.1 = f := by simpa using List.find?_some he
    rw [← l.map_fst_leafRects solve area] at hnodup
    rw [he, List.inj_on_of_nodup_map hnodup (List.mem_of_find?_eq_some he) hr hname]
  unfold focusDir
  rw [hl, hf]
  dsimp only
  rw [hfind]
  dsimp only
  have hloop := foldl_nearer f dir r (l.leafRects solve area) none
  rw [Option.map_none] at hloop
  rw [hloop]
  unfold List.argmin
  cases (candidates f dir r (l.leafRects solve area)).foldl _ none with
  | none => rfl
  | some e => rfl

/-- What a move does on a group whose tiles are on the screen. -/
theorem Model.focusDir_nearest {m : Model} {l : PaneLayout} {area : Rect} {dir : Dir}
    {e : String × Rect} (hl : m.activePanes = some l) (hf : m.focusedPane = some e.1)
    (hnodup : l.leaves.Nodup) (he : e ∈ l.leafRects solve area)
    (hscreen : ∀ b ∈ l.leafRects solve area, b.2.OnScreen) :
    ((∀ b ∈ l.leafRects solve area, b.1 ≠ e.1 → ¬dir.towards e.2 b.2) ∧
        m.focusDir solve dir area = m) ∨
      ∃ b ∈ l.leafRects solve area, b.1 ≠ e.1 ∧ dir.towards e.2 b.2 ∧
        (∀ b' ∈ l.leafRects solve area, b'.1 ≠ e.1 → dir.towards e.2 b'.2 →
          e.2.apart b.2 ≤ e.2.apart b'.2) ∧
        m.focusDir solve dir area = { m with focusedPane := some b.1 } := by
  rw [m.focusDir_eq hl hf hnodup he]
  cases hbest : (candidates e.1 dir e.2 (l.leafRects solve area)).argmin
      fun b => (distance e.2.centre b.2.centre).toInt with
  | none =>
      refine .inl ⟨fun b hb hname htowards => ?_, rfl⟩
      have hmem := mem_candidates.mpr ⟨hb, hname, htowards⟩
      rw [List.argmin_eq_none.mp hbest] at hmem
      cases hmem
  | some b =>
      obtain ⟨hb, hname, htowards⟩ := mem_candidates.mp (List.argmin_mem hbest)
      refine .inr ⟨b, hb, hname, htowards, fun b' hb' hname' htowards' => ?_, rfl⟩
      have hle := List.le_of_mem_argmin (mem_candidates.mpr ⟨hb', hname', htowards'⟩) hbest
      rwa [toInt_distance (hscreen e he) (hscreen b hb),
        toInt_distance (hscreen e he) (hscreen b' hb')] at hle

end Solved

end MemMux.Tui
