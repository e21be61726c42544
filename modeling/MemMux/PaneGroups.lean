/-
MemMux/PaneGroups.lean

The pane groups of the terminal interface: which tasks are open in which.

A pane is put into the group that the data of the moment names, and taken out of the group that the
data of another moment names.  Within a group the leaves stay distinct; a task is in one group, and
gone when its pane is closed, exactly as long as the two groups are the same (`one_group_iff`).
-/
import MemMux.Run
import MemMux.Tui

namespace MemMux.Tui

/-! ### Open panes -/

/-- The task `id` has a pane in the group `k`. -/
def Model.OpenIn (m : Model) (id k : String) : Prop :=
  ∃ l, m.panes.lookup k = some l ∧ id ∈ l.leaves

/-- Every task has a pane in one group at most, and one pane there. -/
structure OneGroup (m : Model) : Prop where
  group : ∀ id k k', m.OpenIn id k → m.OpenIn id k' → k = k'
  once : ∀ k l, m.panes.lookup k = some l → l.leaves.Nodup

theorem OneGroup.of_panes {m m' : Model} (ho : OneGroup m) (hp : m'.panes = m.panes) :
    OneGroup m' := by
  obtain ⟨hgroup, honce⟩ := ho
  unfold Model.OpenIn at hgroup
  constructor
  · unfold Model.OpenIn
    rw [hp]
    exact hgroup
  · rw [hp]
    exact honce

/-- **What opening a pane does to the groups**: the group of the task has it, and once; the others are
as they were. -/
theorem panesWith_spec (m : Model) (id : String) :
    (∀ k, k ≠ m.wsKey id → (m.panesWith id).lookup k = m.panes.lookup k) ∧
      ∃ l, (m.panesWith id).lookup (m.wsKey id) = some l ∧
        ((m.panes.lookup (m.wsKey id) = none ∧ l = .leaf id) ∨
          ∃ old, m.panes.lookup (m.wsKey id) = some old ∧
            (id ∈ old.leaves ∧ l = old ∨ id ∉ old.leaves ∧
              ∃ target ∈ old.leaves, l = (old.splitLeaf target id m.splitOrient).1)) := by
  have hins : ∀ l k, k ≠ m.wsKey id →
      (m.panes.insert (m.wsKey id) l).lookup k = m.panes.lookup k :=
    fun l => KeyMap.off_insert m.panes (m.wsKey id) l
  unfold Model.panesWith
  dsimp only
  cases hl : m.panes.lookup (m.wsKey id) with
  | none => exact ⟨hins _, _, AList.lookup_insert _, .inl ⟨rfl, rfl⟩⟩
  | some layout =>
      dsimp only
      split
      · next hin =>
        exact ⟨fun _ _ => rfl, layout, hl,
          .inr ⟨layout, rfl, .inl ⟨PaneLayout.contains_iff.mp hin, rfl⟩⟩⟩
      · next hin =>
        have hid : id ∉ layout.leaves := fun h => hin (PaneLayout.contains_iff.mpr h)
        -- the focused pane if it is in the group, or else the last one: a leaf either way
        obtain ⟨target, htarget, hleaf⟩ : ∃ target ∈ layout.leaves,
            (m.focusedPane.filter layout.contains).or layout.leaves.getLast? = some target := by
          cases hf : m.focusedPane.filter layout.contains with
          | none => exact layout.getLast?_leaves
          | some f =>
              have hf' := (Option.filter_eq_some_iff.mp hf).2
              exact ⟨f, PaneLayout.contains_iff.mp hf', rfl⟩
        rw [hleaf]
        exact ⟨hins _, _, AList.lookup_insert _,
          .inr ⟨layout, rfl, .inr ⟨hid, target, htarget, rfl⟩⟩⟩

theorem openIn_panesWith {m m' : Model} {id : String} (hp : m'.panes = m.panesWith id)
    (j k : String) : m'.OpenIn j k ↔ m.OpenIn j k ∨ j = id ∧ k = m.wsKey id := by
  obtain ⟨hother, l, hl, hcase⟩ := panesWith_spec m id
  unfold Model.OpenIn
  rw [hp]
  by_cases hk : k = m.wsKey id
  · subst hk
    rw [hl]
    have hleaves : j ∈ l.leaves ↔
        (∃ l, m.panes.lookup (m.wsKey id) = some l ∧ j ∈ l.leaves) ∨ j = id := by
      rcases hcase with ⟨hnone, rfl⟩ | ⟨old, hold, ⟨hin, rfl⟩ | ⟨-, target, htarget, rfl⟩⟩
      · rw [hnone]
        simp [PaneLayout.leaves]
      · rw [hold]
        simp only [Option.some.injEq, exists_eq_left']
        exact ⟨.inl, fun h => h.elim (fun h => h) fun h => h ▸ hin⟩
      · rw [hold, (PaneLayout.perm_splitLeaf m.splitOrient htarget).mem_iff, List.mem_cons]
        simp only [Option.some.injEq, exists_eq_left']
        exact or_comm
    simpa using hleaves
  · rw [hother k hk]
    simp [hk]

theorem once_panesWith {m m' : Model} (ho : OneGroup m) {id : String}
    (hp : m'.panes = m.panesWith id) {k : String} {l : PaneLayout}
    (hl : m'.panes.lookup k = some l) : l.leaves.Nodup := by
  obtain ⟨hother, l', hl', hcase⟩ := panesWith_spec m id
  rw [hp] at hl
  by_cases hk : k = m.wsKey id
  · subst hk
    obtain rfl : l' = l := Option.some.inj (hl'.symm.trans hl)
    rcases hcase with ⟨-, rfl⟩ | ⟨old, hold, ⟨-, rfl⟩ | ⟨hnew, target, htarget, rfl⟩⟩
    · exact List.nodup_singleton id
    · exact ho.once _ _ hold
    · exact PaneLayout.nodup_splitLeaf m.splitOrient htarget hnew (ho.once _ _ hold)
  · exact ho.once k l ((hother k hk).symm.trans hl)

/-- **Opening a pane keeps one group for every task exactly when the task was in no other one.** -/
theorem oneGroup_panesWith {m m' : Model} (ho : OneGroup m) {id : String}
    (hp : m'.panes = m.panesWith id) :
    OneGroup m' ↔ ∀ k, m.OpenIn id k → k = m.wsKey id := by
  have hopen := openIn_panesWith hp
  constructor
  · intro ho' k hk
    exact ho'.group id k _ ((hopen id k).mpr (.inl hk)) ((hopen id _).mpr (.inr ⟨rfl, rfl⟩))
  · intro hcur
    refine ⟨fun j k k' hk hk' => ?_, fun k l hl => once_panesWith ho hp hl⟩
    rcases (hopen j k).mp hk with hk | ⟨rfl, rfl⟩ <;>
      rcases (hopen _ k').mp hk' with hk' | ⟨heq, rfl⟩
    · exact ho.group j k k' hk hk'
    · exact hcur k (heq ▸ hk)
    · exact (hcur k' hk').symm
    · rfl

/-- **What closing a pane does to the groups**: the group of the task loses it; the others are as they
were. -/
theorem lookup_panesWithout (m : Model) (id k : String) :
    (m.panesWithout id).lookup k = if k = m.wsKey id then
      (m.panes.lookup k).bind (PaneLayout.without id) else m.panes.lookup k := by
  unfold Model.panesWithout
  dsimp only
  cases hold : m.panes.lookup (m.wsKey id) with
  | none =>
      dsimp only
      split
      · next hk => rw [hk, hold, Option.bind_none]
      · rfl
  | some old =>
      dsimp only
      cases hnext : old.without id with
      | none =>
          rw [KeyMap.lookup_erase_ite]
          split
          · next hk => rw [hk, hold, Option.bind_some, hnext]
          · rfl
      | some rest =>
          rw [KeyMap.lookup_insert_ite, KeyMap.lookup_erase_ite]
          split
          · next hk => rw [hk, hold, Option.bind_some, hnext]
          · rfl

theorem panesWithout_spec (m : Model) (id : String) :
    (∀ k, k ≠ m.wsKey id → (m.panesWithout id).lookup k = m.panes.lookup k) ∧
      ∀ l, (m.panesWithout id).lookup (m.wsKey id) = some l →
        ∃ old, m.panes.lookup (m.wsKey id) = some old ∧ old.without id = some l := by
  refine ⟨fun k hk => ?_, fun l hl => ?_⟩
  · rw [lookup_panesWithout, if_neg hk]
  · rw [lookup_panesWithout, if_pos rfl] at hl
    exact Option.bind_eq_some_iff.mp hl

theorem openIn_panesWithout {m m' : Model} {id : String} (hp : m'.panes = m.panesWithout id)
    (j : String) {k : String} (hk : k ≠ m.wsKey id) : m'.OpenIn j k ↔ m.OpenIn j k := by
  unfold Model.OpenIn
  rw [hp, (panesWithout_spec m id).1 k hk]

theorem openIn_panesWithout_self {m m' : Model} {id : String} (hp : m'.panes = m.panesWithout id)
    {j : String} (hj : m'.OpenIn j (m.wsKey id)) : m.OpenIn j (m.wsKey id) ∧ j ≠ id := by
  obtain ⟨l, hl, hj⟩ := hj
  rw [hp] at hl
  obtain ⟨old, hold, hrest⟩ := (panesWithout_spec m id).2 l hl
  rw [PaneLayout.leaves_of_without hrest, List.mem_filter] at hj
  exact ⟨⟨old, hold, hj.1⟩, of_decide_eq_true hj.2⟩

/-- Closing a pane opens none. -/
theorem oneGroup_panesWithout {m m' : Model} (ho : OneGroup m) {id : String}
    (hp : m'.panes = m.panesWithout id) : OneGroup m' := by
  have hopen : ∀ j k, m'.OpenIn j k → m.OpenIn j k := by
    intro j k hk
    by_cases hkey : k = m.wsKey id
    · subst hkey
      exact (openIn_panesWithout_self hp hk).1
    · exact (openIn_panesWithout hp j hkey).mp hk
  refine ⟨fun j k k' hk hk' => ho.group j k k' (hopen j k hk) (hopen j k' hk'), fun k l hl => ?_⟩
  obtain ⟨hother, hself⟩ := panesWithout_spec m id
  rw [hp] at hl
  by_cases hkey : k = m.wsKey id
  · subst hkey
    obtain ⟨old, hold, hrest⟩ := hself l hl
    rw [PaneLayout.leaves_of_without hrest]
    exact (ho.once _ _ hold).filter _
  · exact ho.once k l ((hother k hkey).symm.trans hl)

/-- **Closing a pane closes the task exactly when the task was in no other group.** -/
theorem closed_panesWithout {m m' : Model} {id : String} (hp : m'.panes = m.panesWithout id) :
    (∀ k, ¬ m'.OpenIn id k) ↔ ∀ k, m.OpenIn id k → k = m.wsKey id := by
  constructor
  · intro hclosed k hk
    by_contra hkey
    exact hclosed k ((openIn_panesWithout hp id hkey).mpr hk)
  · intro hcur k hk
    by_cases hkey : k = m.wsKey id
    · subst hkey
      exact (openIn_panesWithout_self hp hk).2 rfl
    · exact hkey (hcur k ((openIn_panesWithout hp id hkey).mp hk))

/-! ### Events -/

/-- The task a key opens a pane for: `Enter` on an agent that is not terminated. -/
def Model.opens (m : Model) (k : Key) : Option String :=
  if m.view = .home ∧ k = .enter ∧ m.sidebar = .agents then
    (m.selectedAgent.filter fun t => !isTerminatedState t.state).map (·.id)
  else none

/-- On the home view only `Enter` opens a pane. -/
theorem updateHome_panes {m : Model} (hv : m.view = .home) (k : Key) :
    (updateHome k m).1.panes = ((m.opens k).map m.panesWith).getD m.panes := by
  have hnone : k ≠ .enter → m.opens k = none := fun hk => if_neg fun h => hk h.2.1
  by_cases hk : k = .enter
  · subst hk
    show (activateSelection m).1.panes = _
    unfold activateSelection Model.opens
    cases hs : m.sidebar with
    | workspaces => simp [Model.openLaunch]
    | agents =>
        cases m.selectedAgent with
        | none => simp
        | some t =>
            by_cases ht : isTerminatedState t.state = true
            · simp [Option.filter, ht]
            · simp [Option.filter, hv, ht, Model.openPane]
  · rw [hnone hk]
    unfold updateHome
    split <;> first
      | rfl
      | exact (moveSelection_keeps _ m).panes
      | (split <;> rfl)
      | exact absurd rfl hk

/-- **What a key does to the groups.** -/
theorem update_panes (m : Model) (k : Key) :
    (update k m).1.panes = ((m.opens k).map m.panesWith).getD m.panes := by
  have hnone : m.view ≠ .home → m.opens k = none := fun hv => if_neg fun h => hv h.1
  unfold update
  cases hv : m.view with
  | home => exact updateHome_panes hv k
  | newTask =>
      rw [hnone (by simp [hv])]
      exact (updateForm_steady k m).panes
  | launch =>
      rw [hnone (by simp [hv])]
      exact (updateLaunch_steady k m).panes
  | confirm =>
      rw [hnone (by simp [hv])]
      exact (updateConfirm_steady k m).panes
  | openFolder =>
      rw [hnone (by simp [hv])]
      exact (updateOpenFolder_steady k m).panes
  | help =>
      rw [hnone (by simp [hv])]
      dsimp only
      split <;> rfl

/-- The task whose pane an event opens or closes. -/
def Model.touches (m : Model) : Event → Option String
  | .key k => m.opens k
  | .openPane id | .closePane id => some id
  | _ => none

/-- **The group is current**: a task whose pane is opened or closed is open in no group but the one the
data of the moment names. -/
def GroupCurrent (m : Model) (e : Event) : Prop :=
  ∀ id ∈ m.touches e, ∀ k, m.OpenIn id k → k = m.wsKey id

/-- After the event every task is in one group at most and once there, and a task whose pane was closed
is in none. -/
def GroupKept (m : Model) (e : Event) : Prop :=
  OneGroup (next m e) ∧ ∀ id, e = .closePane id → ∀ k, ¬ (next m e).OpenIn id k

/-- **One event keeps the groups exactly when the group is current.** -/
theorem groupKept_iff (m : Model) (e : Event) (ho : OneGroup m) :
    GroupKept m e ↔ GroupCurrent m e := by
  -- an event that opens no pane and closes none
  have hsame : (next m e).panes = m.panes → m.touches e = none →
      (∀ id, e ≠ .closePane id) → (GroupKept m e ↔ GroupCurrent m e) := by
    intro hp hnone hclose
    refine iff_of_true ⟨ho.of_panes hp, fun id he => absurd he (hclose id)⟩ ?_
    intro id hid
    cases hnone.symm.trans hid
  have hopen : ∀ id, (next m e).panes = m.panesWith id → m.touches e = some id →
      (∀ id, e ≠ .closePane id) → (GroupKept m e ↔ GroupCurrent m e) := by
    intro id hp hid hclose
    have hcur : GroupCurrent m e ↔ ∀ k, m.OpenIn id k → k = m.wsKey id := by
      unfold GroupCurrent
      rw [hid]
      simp
    rw [hcur, ← oneGroup_panesWith ho hp]
    exact ⟨fun h => h.1, fun h => ⟨h, fun id he => absurd he (hclose id)⟩⟩
  cases e with
  | key k =>
      have hp := update_panes m k
      cases hid : m.opens k with
      | none =>
          rw [hid] at hp
          exact hsame hp hid nofun
      | some id =>
          rw [hid] at hp
          exact hopen id hp hid nofun
  | openPane id => exact hopen id rfl rfl nofun
  | closePane id =>
      have hp := (closePane_fields id m).1
      have hcur : GroupCurrent m (.closePane id) ↔ ∀ k, m.OpenIn id k → k = m.wsKey id := by
        simp [GroupCurrent, Model.touches]
      rw [hcur, ← closed_panesWithout hp]
      refine ⟨fun h => h.2 id rfl, fun h => ⟨oneGroup_panesWithout ho hp, ?_⟩⟩
      rintro _ ⟨⟩
      exact h
  | setData data => exact hsame (setData_keeps data m).panes rfl nofun
  | moveSelection delta => exact hsame (moveSelection_keeps delta m).panes rfl nofun
  | toggleSection => exact hsame rfl rfl nofun
  | syncActiveWs => exact hsame (syncActiveWs_keeps m).panes rfl nofun

/-! ### Runs -/

theorem oneGroup_start (cwd cwdRepo : Option String) : OneGroup (start cwd cwdRepo) := by
  constructor
  · rintro id k k' ⟨l, hl, -⟩
    cases hl
  · intro k l hl
    cases hl

/-- **When every open agent belongs to one pane group.**  Along any run, after every event every task
is in at most one group and once there, and in none right after its pane was closed, exactly when
every pane is opened and closed while its task is in no group but its current one. -/
theorem one_group_iff (cwd cwdRepo : Option String) (es : List Event) :
    Run.Allowed next GroupKept (start cwd cwdRepo) es
      ↔ Run.Allowed next GroupCurrent (start cwd cwdRepo) es :=
  Run.allowed_iff_of_allowed (fun _ _ _ hkept => hkept.1) groupKept_iff
    (oneGroup_start cwd cwdRepo) es

/-- An agent is opened before its workspace is registered, and again after that; then it is closed. -/
def registerOpenAgent : List Event :=
  [.setData { oneAgent with workspaces := [] }, .openPane "t1", .setData oneAgent, .openPane "t1",
    .closePane "t1"]

/-- The agent gets a second pane, and keeps one when it is closed. -/
theorem registered_agent_split :
    (Run.run next (start none none) (registerOpenAgent.take 4)).OpenIn "t1" otherWsKey ∧
      (Run.run next (start none none) (registerOpenAgent.take 4)).OpenIn "t1" "repo" ∧
      (Run.run next (start none none) registerOpenAgent).OpenIn "t1" otherWsKey ∧
      ¬ Run.Allowed next GroupKept (start none none) registerOpenAgent := by
  have hother : (Run.run next (start none none) registerOpenAgent).OpenIn "t1" otherWsKey :=
    ⟨.leaf "t1", by decide, by decide⟩
  refine ⟨⟨.leaf "t1", by decide, by decide⟩, ⟨.leaf "t1", by decide, by decide⟩, hother, ?_⟩
  rintro ⟨-, -, -, -, ⟨-, hclosed⟩, -⟩
  exact hclosed "t1" rfl otherWsKey hother

end MemMux.Tui
