/-
MemMux/PaneLayout.lean

The tiling tree of open panes (`PaneLayout` in `memmux/src/app.rs`): its leaves, splitting a leaf,
removing one, and moving the boundary of a split.

A tree is never empty, so a removal answers `none` when nothing would be left.  What the operations
do to the leaves is said on the list of leaves (`perm_splitLeaf`, `leaves_without`, `leaves_resize`).
-/
import Mathlib.Data.List.Perm.Basic
import Mathlib.Tactic.Common

namespace MemMux.Tui

/-- How a split divides its area. -/
inductive Orient
  /-- side by side, a "split right" -/
  | cols
  /-- stacked, a "split down" -/
  | rows
  deriving DecidableEq, Repr

/-- A binary tiling tree of open agent panes.  A leaf holds a task id; the ratio is the percentage
of the split given to the first child. -/
inductive PaneLayout
  | leaf (id : String)
  | split (orient : Orient) (ratio : Nat) (a b : PaneLayout)
  deriving DecidableEq, Repr

namespace PaneLayout

/-- All leaf task ids, left to right and top to bottom. -/
def leaves : PaneLayout → List String
  | leaf id => [id]
  | split _ _ a b => a.leaves ++ b.leaves

/-- Whether `id` is present. -/
def contains (l : PaneLayout) (id : String) : Bool := l.leaves.any (· == id)

/-- Split the first leaf `target` into itself and `newId`; says whether there was one. -/
def splitLeaf (target newId : String) (orient : Orient) : PaneLayout → PaneLayout × Bool
  | leaf id =>
      if id = target then (split orient 50 (leaf id) (leaf newId), true) else (leaf id, false)
  | split o ratio a b =>
      match a.splitLeaf target newId orient with
      | (a, true) => (split o ratio a b, true)
      | (a, false) =>
          match b.splitLeaf target newId orient with
          | (b, done) => (split o ratio a b, done)

/-- Remove the leaves `id`; a split that loses a child collapses into the other one. -/
def without (id : String) : PaneLayout → Option PaneLayout
  | leaf l => if l = id then none else some (leaf l)
  | split orient ratio a b =>
      match a.without id, b.without id with
      | some a, some b => some (split orient ratio a b)
      | some only, none | none, some only => some only
      | none, none => none

/-- Move the boundary of the split nearest to the leaf `focused` whose orientation matches the axis;
says whether there was one. -/
def resize (focused : String) (axisCols : Bool) (delta : Int) : PaneLayout → PaneLayout × Bool
  | leaf id => (leaf id, false)
  | split orient ratio a b =>
      let inA := a.contains focused
      if !inA && !b.contains focused then (split orient ratio a b, false)
      else
        -- the split closest to the focused leaf comes first
        let (a', b', done) :=
          if inA then
            match a.resize focused axisCols delta with
            | (a', done) => (a', b, done)
          else
            match b.resize focused axisCols delta with
            | (b', done) => (a, b', done)
        if done then (split orient ratio a' b', true)
        else if (orient == .cols) == axisCols then
          (split orient (max 10 (min ((ratio : Int) + delta) 90)).toNat a' b', true)
        else (split orient ratio a' b', false)

/-! ### Leaves -/

theorem contains_iff {l : PaneLayout} {id : String} : l.contains id = true ↔ id ∈ l.leaves := by
  simp [contains]

theorem leaves_ne_nil (l : PaneLayout) : l.leaves ≠ [] := by
  induction l with
  | leaf id => simp [leaves]
  | split orient ratio a b iha ihb => simp [leaves, iha]

/-- The last leaf, where a new pane goes when none is in focus. -/
theorem getLast?_leaves (l : PaneLayout) : ∃ last ∈ l.leaves, l.leaves.getLast? = some last :=
  ⟨_, List.getLast_mem l.leaves_ne_nil, List.getLast?_eq_some_getLast l.leaves_ne_nil⟩

/-- Without the target nothing is split. -/
theorem splitLeaf_of_notMem {l : PaneLayout} {target : String} (newId : String) (orient : Orient)
    (h : target ∉ l.leaves) : l.splitLeaf target newId orient = (l, false) := by
  induction l with
  | leaf id => exact if_neg fun heq => h (List.mem_singleton.mpr heq.symm)
  | split o ratio a b iha ihb =>
      rw [splitLeaf, iha fun ha => h (List.mem_append_left _ ha)]
      dsimp only
      rw [ihb fun hb => h (List.mem_append_right _ hb)]

/-- **Splitting a leaf inserts the new one after it**, after its first occurrence. -/
theorem splitLeaf_of_mem {l : PaneLayout} {target : String} (newId : String) (orient : Orient)
    (h : target ∈ l.leaves) :
    ∃ l' before after, l.splitLeaf target newId orient = (l', true) ∧
      l.leaves = before ++ target :: after ∧ target ∉ before ∧
      l'.leaves = before ++ target :: newId :: after := by
  induction l with
  | leaf id =>
      obtain rfl := List.mem_singleton.mp h
      exact ⟨_, [], [], if_pos rfl, rfl, List.not_mem_nil, rfl⟩
  | split o ratio a b iha ihb =>
      rw [splitLeaf]
      by_cases ha : target ∈ a.leaves
      · -- the first child has the leaf, and the second is not looked at
        obtain ⟨a', before, after, hsplit, hleaves, hfirst, hleaves'⟩ := iha ha
        refine ⟨split o ratio a' b, before, after ++ b.leaves, ?_, ?_, hfirst, ?_⟩
        · rw [hsplit]
        · rw [leaves, hleaves, List.append_assoc, List.cons_append]
        · rw [leaves, hleaves', List.append_assoc, List.cons_append, List.cons_append]
      · obtain ⟨b', before, after, hsplit, hleaves, hfirst, hleaves'⟩ :=
          ihb ((List.mem_append.mp h).resolve_left ha)
        refine ⟨split o ratio a b', a.leaves ++ before, after, ?_, ?_, ?_, ?_⟩
        · rw [splitLeaf_of_notMem newId orient ha]
          dsimp only
          rw [hsplit]
        · rw [leaves, hleaves, List.append_assoc]
        · exact fun hmem => (List.mem_append.mp hmem).elim ha hfirst
        · rw [leaves, hleaves', List.append_assoc]

/-- **Splitting a leaf adds the new one.** -/
theorem perm_splitLeaf {l : PaneLayout} {target newId : String} (orient : Orient)
    (h : target ∈ l.leaves) :
    (l.splitLeaf target newId orient).1.leaves.Perm (newId :: l.leaves) := by
  obtain ⟨l', before, after, hsplit, hleaves, -, hleaves'⟩ := splitLeaf_of_mem newId orient h
  rw [hsplit, hleaves, hleaves', ← List.singleton_append, ← List.append_assoc,
    List.append_cons before target after]
  exact List.perm_middle

theorem nodup_splitLeaf {l : PaneLayout} {target newId : String} (orient : Orient)
    (h : target ∈ l.leaves) (hnew : newId ∉ l.leaves) (hnd : l.leaves.Nodup) :
    (l.splitLeaf target newId orient).1.leaves.Nodup :=
  (perm_splitLeaf orient h).nodup_iff.mpr (List.nodup_cons.mpr ⟨hnew, hnd⟩)

/-- **Removing a leaf filters it out.** -/
theorem leaves_without (l : PaneLayout) (id : String) :
    ((l.without id).map leaves).getD [] = l.leaves.filter (· ≠ id) := by
  induction l with
  | leaf i =>
      by_cases heq : i = id
      · simp [without, leaves, heq]
      · simp [without, leaves, heq]
  | split orient ratio a b iha ihb =>
      rw [without, leaves, List.filter_append, ← iha, ← ihb]
      cases a.without id with
      | none =>
          cases b.without id with
          | none => rfl
          | some b' => rfl
      | some a' =>
          cases b.without id with
          | none => exact (List.append_nil _).symm
          | some b' => rfl

/-- What is left when a leaf is removed. -/
theorem leaves_of_without {l l' : PaneLayout} {id : String} (h : l.without id = some l') :
    l'.leaves = l.leaves.filter (· ≠ id) := by
  have hleaves := l.leaves_without id
  rw [h] at hleaves
  exact hleaves

/-- **Moving a boundary keeps the leaves.** -/
theorem leaves_resize (l : PaneLayout) (focused : String) (axisCols : Bool) (delta : Int) :
    (l.resize focused axisCols delta).1.leaves = l.leaves := by
  induction l with
  | leaf id => rfl
  | split orient ratio a b iha ihb =>
      unfold resize
      dsimp only
      split_ifs <;> first | rfl | simp only [leaves, iha, ihb]

end PaneLayout

end MemMux.Tui
