/-
MemMux/Sidebar.lean

The sidebar of the terminal interface: its selections are always on a row that can be selected.

The rows are recomputed from the data, headers in between, and the data is replaced at any time.
The invariant `SidebarValid` says what the selections are worth in one state; every input keeps it,
so it holds along every run (`sidebar_valid`).
-/
import Mathlib.Data.List.Nodup
import Mathlib.Tactic.Ring
import MemMux.Clicks
import MemMux.Run

namespace MemMux.Tui

/-! ### Agent rows -/

/-- The task that a row of the agents panel stands for. -/
def NavItem.task : NavItem → Option Nat
  | .agent ti => some ti
  | _ => none

theorem filterMap_task_agents (tis : List Nat) :
    (tis.map NavItem.agent).filterMap NavItem.task = tis := by
  rw [List.filterMap_map]
  exact List.filterMap_some

theorem navIsAgent_iff {row : Option NavItem} :
    row.map Model.navIsAgent = some true ↔ ∃ ti, row = some (.agent ti) := by
  rcases row with - | (wi | - | ti) <;> simp [Model.navIsAgent]

/-- A row that is found is an agent's. -/
theorem seekAgent_agent {nav : List NavItem} {step : Int} {fuel : Nat} {i : Int} {j : Nat}
    (h : Model.seekAgent nav step fuel i = some j) : ∃ ti, nav[j]? = some (.agent ti) := by
  induction fuel generalizing i with
  | zero => cases h
  | succ fuel ih =>
      rw [Model.seekAgent] at h
      split_ifs at h with hout hagent
      · obtain rfl := Option.some.inj h
        exact navIsAgent_iff.mp hagent
      · exact ih h

/-- **The search meets every agent ahead of it.** -/
theorem seekAgent_isSome {nav : List NavItem} {step : Int} {k ti : Nat}
    (hk : nav[k]? = some (.agent ti)) {n fuel : Nat} (hn : n < fuel) {i : Int} (hi : 0 ≤ i)
    (hi' : i < nav.length) (h : i + step * (n + 1) = k) :
    (Model.seekAgent nav step fuel i).isSome := by
  have hlen : k < nav.length := (List.getElem?_eq_some_iff.mp hk).1
  induction n generalizing fuel i with
  | zero =>
      obtain ⟨fuel, rfl⟩ := Nat.exists_eq_succ_of_ne_zero (Nat.ne_of_gt hn)
      have hnext : i + step = k := by omega
      rw [Model.seekAgent, hnext, if_neg (by omega), Int.toNat_natCast,
        if_pos (navIsAgent_iff.mpr ⟨ti, hk⟩)]
      rfl
  | succ n ih =>
      obtain ⟨fuel, rfl⟩ := Nat.exists_eq_succ_of_ne_zero (Nat.ne_of_gt (Nat.zero_lt_of_lt hn))
      have hrest : i + step + step * (n + 1) = k := by
        rw [← h]
        push_cast
        ring
      -- the next row lies between this one and the agent's
      have hin : 0 ≤ i + step ∧ i + step < nav.length := by
        rcases le_total 0 step with hs | hs
        · have := Int.mul_nonneg hs (Int.natCast_nonneg (n + 1))
          push_cast at this
          omega
        · have := Int.mul_nonneg (Int.neg_nonneg_of_nonpos hs) (Int.natCast_nonneg (n + 1))
          push_cast at this
          rw [Int.neg_mul] at this
          omega
      rw [Model.seekAgent, if_neg (by omega)]
      split_ifs with hagent
      · rfl
      · exact ih (Nat.lt_of_succ_lt_succ hn) hin.1 hin.2 hrest

/-! ### Rows -/

theorem mem_tasksWith {m : Model} {p : TaskView → Bool} {ti : Nat} :
    ti ∈ m.tasksWith p ↔ ∃ t, m.data.tasks[ti]? = some t ∧ p t := by
  simp only [Model.tasksWith, List.mem_map, List.mem_filter, Prod.exists,
    List.mem_zipIdx_iff_getElem?]
  constructor
  · rintro ⟨t, i, ⟨hi, hp⟩, rfl⟩
    exact ⟨t, hi, hp⟩
  · rintro ⟨t, hi, hp⟩
    exact ⟨t, ti, ⟨hi, hp⟩, rfl⟩

theorem nodup_tasksWith (m : Model) (p : TaskView → Bool) : (m.tasksWith p).Nodup := by
  have hsub : (m.tasksWith p).Sublist (m.data.tasks.zipIdx.map (·.2)) :=
    List.filter_sublist.map _
  rw [List.zipIdx_map_snd] at hsub
  exact hsub.nodup (List.nodup_range' _)

/-- The tasks the agents panel lists: those of each workspace, then those of none. -/
theorem filterMap_task_navItems (m : Model) :
    m.navItems.filterMap NavItem.task =
      (m.data.workspaces.flatMap fun w => m.tasksWith fun t => t.repository = w.id) ++
        m.tasksWith fun t => !m.registered t.repository := by
  have hgrouped : (m.data.workspaces.zipIdx.flatMap fun e =>
        NavItem.workspace e.2 :: (m.tasksWith fun t => t.repository = e.1.id).map .agent).filterMap
          NavItem.task
      = m.data.workspaces.flatMap fun w => m.tasksWith fun t => t.repository = w.id := by
    nth_rewrite 2 [← List.zipIdx_map_fst 0 m.data.workspaces]
    rw [List.filterMap_flatMap, List.flatMap_map]
    refine List.flatMap_congr fun e _ => ?_
    rw [List.filterMap_cons_none rfl, filterMap_task_agents]
  unfold Model.navItems
  dsimp only
  split
  · next hnone => rw [hgrouped, hnone, List.append_nil]
  · next hsome =>
    rw [List.filterMap_append, hgrouped, List.filterMap_cons_none rfl, filterMap_task_agents]

theorem mem_task_navItems (m : Model) (ti : Nat) :
    ti ∈ m.navItems.filterMap NavItem.task ↔ ti < m.data.tasks.length := by
  rw [filterMap_task_navItems, List.mem_append, List.mem_flatMap]
  constructor
  · rintro (⟨w, -, hti⟩ | hti)
    all_goals
      obtain ⟨t, ht, -⟩ := mem_tasksWith.mp hti
      exact (List.getElem?_eq_some_iff.mp ht).1
  · intro hlt
    have ht := List.getElem?_eq_getElem hlt
    by_cases hreg : m.registered m.data.tasks[ti].repository
    · obtain ⟨w, hw, heq⟩ := List.any_eq_true.mp hreg
      refine .inl ⟨w, hw, mem_tasksWith.mpr ⟨_, ht, ?_⟩⟩
      exact decide_eq_true (of_decide_eq_true heq).symm
    · exact .inr (mem_tasksWith.mpr ⟨_, ht, by simpa using hreg⟩)

/-- **The agents panel lists every task once** if the workspaces have different ids. -/
theorem navItems_perm (m : Model) (h : (m.data.workspaces.map (·.id)).Nodup) :
    (m.navItems.filterMap NavItem.task).Perm (List.range m.data.tasks.length) := by
  refine (List.perm_ext_iff_of_nodup ?_ List.nodup_range).mpr fun ti => ?_
  · rw [filterMap_task_navItems, List.nodup_append]
    refine ⟨List.nodup_flatMap.mpr ⟨fun w _ => nodup_tasksWith m _, ?_⟩, nodup_tasksWith m _, ?_⟩
    · -- a task of two workspaces would have both their ids for its repository
      refine (List.pairwise_map.mp h).imp fun hne ti hti hti' => ?_
      obtain ⟨t, ht, hid⟩ := mem_tasksWith.mp hti
      obtain ⟨t', ht', hid'⟩ := mem_tasksWith.mp hti'
      obtain rfl := Option.some.inj (ht.symm.trans ht')
      exact hne ((of_decide_eq_true hid).symm.trans (of_decide_eq_true hid'))
    · rintro ti hti ti' hti' rfl
      obtain ⟨w, hw, hti⟩ := List.mem_flatMap.mp hti
      obtain ⟨t, ht, hid⟩ := mem_tasksWith.mp hti
      obtain ⟨t', ht', hnot⟩ := mem_tasksWith.mp hti'
      obtain rfl := Option.some.inj (ht.symm.trans ht')
      have hreg : m.registered t.repository :=
        List.any_eq_true.mpr ⟨w, hw, decide_eq_true (of_decide_eq_true hid).symm⟩
      rw [hreg] at hnot
      cases hnot
  · rw [mem_task_navItems, List.mem_range]

/-- A task has a row. -/
theorem exists_agent_row {m : Model} (h : m.data.tasks ≠ []) :
    ∃ k ti : Nat, m.navItems[k]? = some (NavItem.agent ti) := by
  have hmem := (mem_task_navItems m 0).mpr (List.length_pos_iff.mpr h)
  obtain ⟨row, hrow, htask⟩ := List.mem_filterMap.mp hmem
  obtain ⟨k, hk⟩ := List.mem_iff_getElem?.mp hrow
  cases row with
  | agent ti => exact ⟨k, ti, hk⟩
  | workspace wi => cases htask
  | unregistered => cases htask

/-! ### Selections -/

/-- **The selections are on rows that can be selected**: the one of the agents panel on an agent if
there is any, the one of the workspaces panel on a row if there is any; and the agents panel lists
every task once if the workspaces have different ids. -/
structure SidebarValid (m : Model) : Prop where
  agent : m.data.tasks ≠ [] → ∃ ti, m.navItems[m.agentSelected]? = some (.agent ti)
  ws : m.wsItems ≠ [] → m.wsSelected < m.wsItems.length
  listed : (m.data.workspaces.map (·.id)).Nodup →
    (m.navItems.filterMap NavItem.task).Perm (List.range m.data.tasks.length)

/-- The data and both selections are as they were. -/
structure SameRows (m m' : Model) : Prop where
  data : m'.data = m.data
  wsSelected : m'.wsSelected = m.wsSelected
  agentSelected : m'.agentSelected = m.agentSelected

theorem Steady.sameRows {m m' : Model} (h : Steady m m') : SameRows m m' :=
  ⟨h.data, h.wsSelected, h.agentSelected⟩

theorem wsItems_congr {m m' : Model} (h : m'.data = m.data) : m'.wsItems = m.wsItems := by
  unfold Model.wsItems Model.hasUngrouped Model.registered
  rw [h]

theorem navItems_congr {m m' : Model} (h : m'.data = m.data) : m'.navItems = m.navItems := by
  unfold Model.navItems Model.tasksWith Model.registered
  rw [h]

theorem SidebarValid.of_sameRows {m m' : Model} (hv : SidebarValid m) (h : SameRows m m') :
    SidebarValid m' := by
  refine ⟨fun htasks => ?_, fun hitems => ?_, navItems_perm m'⟩
  · rw [navItems_congr h.data, h.agentSelected]
    rw [h.data] at htasks
    exact hv.agent htasks
  · rw [wsItems_congr h.data] at hitems ⊢
    rw [h.wsSelected]
    exact hv.ws hitems

/-- Snapping moves only the selection of the agents panel, and puts it on an agent if there is any. -/
theorem snapAgentToSelectable_spec (m : Model) :
    (m.snapAgentToSelectable 1).data = m.data ∧
      (m.snapAgentToSelectable 1).wsSelected = m.wsSelected ∧
      (m.data.tasks ≠ [] →
        ∃ ti, m.navItems[(m.snapAgentToSelectable 1).agentSelected]? = some (.agent ti)) := by
  unfold Model.snapAgentToSelectable
  dsimp only
  split_ifs with hnil hagent
  · refine ⟨rfl, rfl, fun htasks => ?_⟩
    obtain ⟨k, ti, hk⟩ := exists_agent_row htasks
    rw [hnil] at hk
    cases hk
  · exact ⟨rfl, rfl, fun _ => navIsAgent_iff.mp hagent⟩
  · have hpos : 0 < m.navItems.length := List.length_pos_iff.mpr hnil
    obtain ⟨idx, hidx⟩ : ∃ idx, idx = min m.agentSelected (m.navItems.length - 1) := ⟨_, rfl⟩
    rw [← hidx] at hagent ⊢
    cases hdown : Model.seekAgent m.navItems 1 m.navItems.length idx with
    | some j => exact ⟨rfl, rfl, fun _ => seekAgent_agent hdown⟩
    | none =>
        cases hup : Model.seekAgent m.navItems (-1) m.navItems.length idx with
        | some j => exact ⟨rfl, rfl, fun _ => seekAgent_agent hup⟩
        | none =>
            refine ⟨rfl, rfl, fun htasks => ?_⟩
            obtain ⟨k, ti, hk⟩ := exists_agent_row htasks
            have hlen : k < m.navItems.length := (List.getElem?_eq_some_iff.mp hk).1
            -- the agent's row is below or above, and one of the searches meets it
            rcases Nat.lt_trichotomy k idx with hlt | rfl | hlt
            · have := @seekAgent_isSome _ (-1) k ti hk (idx - k - 1) m.navItems.length (by omega)
                idx (by omega) (by omega) (by omega)
              rw [hup] at this
              cases this
            · exact absurd (navIsAgent_iff.mpr ⟨ti, hk⟩) hagent
            · have := @seekAgent_isSome _ 1 k ti hk (k - idx - 1) m.navItems.length (by omega)
                idx (by omega) (by omega) (by omega)
              rw [hdown] at this
              cases this

theorem sidebarValid_snap {m : Model} (hws : m.wsItems ≠ [] → m.wsSelected < m.wsItems.length) :
    SidebarValid (m.snapAgentToSelectable 1) := by
  obtain ⟨hdata, hsel, hagent⟩ := snapAgentToSelectable_spec m
  refine ⟨fun htasks => ?_, fun hitems => ?_, navItems_perm _⟩
  · rw [navItems_congr hdata]
    rw [hdata] at htasks
    exact hagent htasks
  · rw [wsItems_congr hdata] at hitems ⊢
    rw [hsel]
    exact hws hitems

theorem sidebarValid_setData (data : Data) (m : Model) : SidebarValid (m.setData data) := by
  unfold Model.setData
  dsimp only
  have hpos : ∀ {items : List WsRow}, items ≠ [] → items.length - 1 < items.length :=
    fun h => Nat.sub_lt (List.length_pos_iff.mpr h) Nat.one_pos
  split_ifs with hws hnav hnav
  · exact sidebarValid_snap hpos
  · exact sidebarValid_snap hpos
  · exact sidebarValid_snap fun _ => Nat.lt_of_not_le hws
  · exact sidebarValid_snap fun _ => Nat.lt_of_not_le hws

theorem syncActiveWs_sameRows (m : Model) : SameRows m m.syncActiveWs := by
  unfold Model.syncActiveWs
  split <;> exact ⟨rfl, rfl, rfl⟩

/-- A selection in the workspaces panel that is on a row may replace the one there is. -/
theorem SidebarValid.select_ws {m m' : Model} (hv : SidebarValid m) (hdata : m'.data = m.data)
    (hagent : m'.agentSelected = m.agentSelected) (hws : m'.wsSelected < m.wsItems.length) :
    SidebarValid m'.syncActiveWs := by
  have hv' : SidebarValid m' := by
    refine ⟨fun htasks => ?_, fun _ => ?_, navItems_perm m'⟩
    · rw [navItems_congr hdata, hagent]
      rw [hdata] at htasks
      exact hv.agent htasks
    · rw [wsItems_congr hdata]
      exact hws
  exact hv'.of_sameRows (syncActiveWs_sameRows m')

theorem sidebarValid_moveSelection {m : Model} (hv : SidebarValid m) (delta : Int) :
    SidebarValid (m.moveSelection delta) := by
  rcases moveSelection_cases delta m with h | ⟨i, hseek, h⟩ | ⟨i, hlt, h⟩
  · rw [h]
    exact hv
  · rw [h]
    exact ⟨fun _ => seekAgent_agent hseek, hv.ws, hv.listed⟩
  · rw [h]
    exact hv.select_ws rfl rfl hlt

theorem sidebarValid_selectNavAt {m : Model} (hv : SidebarValid m) (col row : UInt16)
    (area : Rect) : SidebarValid (m.selectNavAt col row area).1 := by
  rcases m.selectNavAt_cases col row area with h | ⟨i, hlt, h⟩ | ⟨i, h⟩
  · rw [h]
    exact hv
  · rw [h]
    exact hv.select_ws rfl rfl hlt
  · rw [h]
    exact sidebarValid_snap hv.ws

theorem focusPaneAt_sameRows (solve : Solver) (col row : UInt16) (area : Rect) (m : Model) :
    SameRows m (m.focusPaneAt solve col row area).1 := by
  rcases m.focusPaneAt_cases solve col row area with h | ⟨l, id, -, -, h⟩ <;> rw [h] <;>
    exact ⟨rfl, rfl, rfl⟩

theorem focusDir_sameRows (solve : Solver) (dir : Dir) (area : Rect) (m : Model) :
    SameRows m (m.focusDir solve dir area) := by
  rcases m.focusDir_cases solve dir area with h | ⟨l, id, -, -, h⟩ <;> rw [h] <;>
    exact ⟨rfl, rfl, rfl⟩

theorem resizeFocused_sameRows (dir : Dir) (m : Model) : SameRows m (m.resizeFocused dir) := by
  rcases m.resizeFocused_cases dir with h | ⟨f, key, l, -, -, -, h⟩ <;> rw [h] <;>
    exact ⟨rfl, rfl, rfl⟩

theorem toggleZoom_sameRows (m : Model) : SameRows m m.toggleZoom := by
  obtain ⟨z, h⟩ := m.toggleZoom_eq
  rw [h]
  exact ⟨rfl, rfl, rfl⟩

theorem closePane_sameRows (id : String) (m : Model) : SameRows m (m.closePane id) := by
  unfold Model.closePane
  dsimp only
  split
  · split <;> exact ⟨rfl, rfl, rfl⟩
  · split <;> exact ⟨rfl, rfl, rfl⟩

/-- **Every event keeps the selections valid.** -/
theorem sidebarValid_next {m : Model} (hv : SidebarValid m) (e : Event) :
    SidebarValid (next m e) := by
  unfold next step
  cases e with
  | key k =>
      dsimp only
      rcases update_cases k m with hsame | ⟨delta, h⟩ | ⟨id, h⟩
      · exact hv.of_sameRows hsame.sameRows
      · rw [h]
        exact sidebarValid_moveSelection hv delta
      · rw [h]
        exact hv.of_sameRows ⟨rfl, rfl, rfl⟩
  | setData data =>
      dsimp only
      exact sidebarValid_setData data m
  | openPane id => exact hv.of_sameRows ⟨rfl, rfl, rfl⟩
  | closePane id => exact hv.of_sameRows (closePane_sameRows id m)
  | moveSelection delta => exact sidebarValid_moveSelection hv delta
  | toggleSection => exact hv.of_sameRows ⟨rfl, rfl, rfl⟩
  | syncActiveWs => exact hv.of_sameRows (syncActiveWs_sameRows m)

/-- **Every input keeps the selections valid.** -/
theorem sidebarValid_act (solve : Solver) {m : Model} (hv : SidebarValid m) (a : Act) :
    SidebarValid (act solve m a) := by
  cases a with
  | event e => exact sidebarValid_next hv e
  | selectNavAt col row area => exact sidebarValid_selectNavAt hv col row area
  | focusPaneAt col row area => exact hv.of_sameRows (focusPaneAt_sameRows solve col row area m)
  | focusDir dir area => exact hv.of_sameRows (focusDir_sameRows solve dir area m)
  | resizeFocused dir => exact hv.of_sameRows (resizeFocused_sameRows dir m)
  | toggleZoom => exact hv.of_sameRows (toggleZoom_sameRows m)

/-- **The sidebar selection is always valid**, however the inputs follow one another and whatever
data comes in. -/
theorem sidebar_valid (solve : Solver) (cwd cwdRepo : Option String) (as : List Act) :
    SidebarValid (Run.run (act solve) (start cwd cwdRepo) as) := by
  have hstart : SidebarValid (start cwd cwdRepo) :=
    ⟨fun h => absurd rfl h, fun h => absurd rfl h, navItems_perm _⟩
  exact Run.always (I := SidebarValid) (fun m a hv => sidebarValid_act solve hv a) hstart as

end MemMux.Tui
