/-
MemMux/Splits.lean

What the operations of the tiling tree do to its splits (`PaneLayout` in `memmux/src/app.rs`).

Removing a pane is said on the list of splits, each with the leaves on its two sides: those
with a leaf left on both sides survive, as they were (`divisions_without`).  Resizing is said by
position: the split that governs a leaf is the deepest one above it that divides along the axis, and
`resize` moves the boundary of that split and nothing else (`movesOrKeeps_resize`).
-/
import MemMux.PaneLayout

namespace MemMux.Tui

namespace PaneLayout

/-! ### Removing a pane -/

/-- A split, with the leaves on its two sides. -/
structure Division where
  orient : Orient
  ratio : Nat
  first : List String
  second : List String
  deriving DecidableEq, Repr

/-- The division without the leaves `id`. -/
def Division.without (id : String) (d : Division) : Division :=
  { d with first := d.first.filter (· ≠ id), second := d.second.filter (· ≠ id) }

/-- There are leaves on both sides. -/
def Division.divides (d : Division) : Bool := !d.first.isEmpty && !d.second.isEmpty

/-- The splits of a layout, each before those of its children. -/
def divisions : PaneLayout → List Division
  | leaf _ => []
  | split orient ratio a b =>
      { orient := orient, ratio := ratio, first := a.leaves, second := b.leaves }
        :: (a.divisions ++ b.divisions)

theorem isEmpty_filter_leaves (l : PaneLayout) (id : String) :
    (l.leaves.filter (· ≠ id)).isEmpty = (l.without id).isNone := by
  rw [← l.leaves_without id]
  cases l.without id with
  | none => rfl
  | some l' => exact List.isEmpty_eq_false_iff.mpr l'.leaves_ne_nil

/-- Nothing is left exactly when no leaf is. -/
theorem without_eq_none_iff {l : PaneLayout} {id : String} :
    l.without id = none ↔ l.leaves.filter (· ≠ id) = [] := by
  rw [← Option.isNone_iff_eq_none, ← isEmpty_filter_leaves, List.isEmpty_iff]

/-- A split still divides something if something is left of both its children. -/
theorem divides_without (orient : Orient) (ratio : Nat) (a b : PaneLayout) (id : String) :
    (Division.without id
        { orient := orient, ratio := ratio, first := a.leaves, second := b.leaves }).divides
      = (!(a.without id).isNone && !(b.without id).isNone) := by
  rw [← isEmpty_filter_leaves, ← isEmpty_filter_leaves]
  rfl

/-- **Removing a pane keeps the splits that still divide something**, with their orientation and
ratio and in their order, and no others. -/
theorem divisions_without (l : PaneLayout) (id : String) :
    ((l.without id).map divisions).getD []
      = (l.divisions.map (Division.without id)).filter Division.divides := by
  induction l with
  | leaf i =>
      rw [without]
      split <;> rfl
  | split orient ratio a b iha ihb =>
      rw [divisions, List.map_cons, List.map_append, List.filter_cons, divides_without,
        List.filter_append, ← iha, ← ihb, without]
      cases ha : a.without id with
      | none => cases b.without id <;> rfl
      | some a' =>
          cases hb : b.without id with
          | none => exact (List.append_nil _).symm
          | some b' =>
              show _ = Division.without id _ :: _
              rw [Division.without, ← leaves_of_without ha, ← leaves_of_without hb]
              rfl

/-- The splits that are left when a leaf is removed. -/
theorem divisions_of_without {l l' : PaneLayout} {id : String} (h : l.without id = some l') :
    l'.divisions = (l.divisions.map (Division.without id)).filter Division.divides := by
  have hdivisions := l.divisions_without id
  rw [h] at hdivisions
  exact hdivisions

/-- A leaf that is not there is not missed. -/
theorem without_of_notMem {l : PaneLayout} {id : String} (h : id ∉ l.leaves) :
    l.without id = some l := by
  induction l with
  | leaf i => exact if_neg fun heq => h (List.mem_singleton.mpr heq.symm)
  | split orient ratio a b iha ihb =>
      rw [without, iha fun ha => h (List.mem_append_left _ ha),
        ihb fun hb => h (List.mem_append_right _ hb)]

/-- **Removing a new pane undoes the split** that added it. -/
theorem without_splitLeaf {l : PaneLayout} {newId : String} (target : String) (orient : Orient)
    (h : newId ∉ l.leaves) : (l.splitLeaf target newId orient).1.without newId = some l := by
  induction l with
  | leaf id =>
      have hne : id ≠ newId := fun heq => h (List.mem_singleton.mpr heq.symm)
      rw [splitLeaf]
      split_ifs
      · rw [without, without, without, if_neg hne, if_pos rfl]
      · exact without_of_notMem h
  | split o ratio a b iha ihb =>
      have ha : newId ∉ a.leaves := fun hmem => h (List.mem_append_left _ hmem)
      have hb : newId ∉ b.leaves := fun hmem => h (List.mem_append_right _ hmem)
      by_cases hin : target ∈ a.leaves
      · obtain ⟨a', -, -, hsplit, -⟩ := splitLeaf_of_mem newId orient hin
        have hback := iha ha
        rw [hsplit] at hback
        rw [splitLeaf, hsplit]
        dsimp only
        rw [without, hback, without_of_notMem hb]
      · rw [splitLeaf, splitLeaf_of_notMem newId orient hin]
        dsimp only
        rw [without, without_of_notMem ha, ihb hb]

/-- **The operations on the list of leaves**: removing filters it and keeps what still divides it;
splitting inserts a leaf after the first occurrence of another, or does nothing without one; and
removing a new leaf undoes the split that added it. -/
structure ActsOnLeaves (l : PaneLayout) : Prop where
  removed : ∀ id, ((l.without id).map leaves).getD [] = l.leaves.filter (· ≠ id)
  emptied : ∀ id, l.without id = none ↔ l.leaves.filter (· ≠ id) = []
  kept : ∀ id, ((l.without id).map divisions).getD []
    = (l.divisions.map (Division.without id)).filter Division.divides
  inserted : ∀ target newId orient, target ∈ l.leaves →
    (l.splitLeaf target newId orient).2 = true ∧
      ∃ before after, l.leaves = before ++ target :: after ∧ target ∉ before ∧
        (l.splitLeaf target newId orient).1.leaves = before ++ target :: newId :: after
  absent : ∀ target newId orient, target ∉ l.leaves →
    l.splitLeaf target newId orient = (l, false)
  restored : ∀ target newId orient, newId ∉ l.leaves →
    (l.splitLeaf target newId orient).1.without newId = some l

/-- **Splitting and removing panes act on the leaves as list operations.** -/
theorem acts_on_leaves (l : PaneLayout) : ActsOnLeaves l where
  removed := l.leaves_without
  emptied _ := without_eq_none_iff
  kept := l.divisions_without
  inserted := by
    intro target newId orient h
    obtain ⟨l', before, after, hsplit, hleaves, hfirst, hleaves'⟩ :=
      splitLeaf_of_mem newId orient h
    rw [hsplit]
    exact ⟨rfl, before, after, hleaves, hfirst, hleaves'⟩
  absent _ newId orient h := splitLeaf_of_notMem newId orient h
  restored target _ orient h := without_splitLeaf target orient h

/-! ### Positions -/

/-- A child of a split. -/
inductive Side
  | first
  | second
  deriving DecidableEq, Repr

/-- The part of a layout at a position. -/
def sub : PaneLayout → List Side → Option PaneLayout
  | l, [] => some l
  | leaf _, _ :: _ => none
  | split _ _ a _, .first :: p => a.sub p
  | split _ _ _ b, .second :: p => b.sub p

/-- The ratio of the split at a position. -/
def ratioAt (l : PaneLayout) (p : List Side) : Option Nat :=
  match l.sub p with
  | some (split _ ratio _ _) => some ratio
  | _ => none

/-- The layout without its ratios. -/
def shape : PaneLayout → PaneLayout
  | leaf id => leaf id
  | split orient _ a b => split orient 0 a.shape b.shape

/-- All ratios are within 10..=90. -/
def RatiosWithin (l : PaneLayout) : Prop := ∀ p ratio, l.ratioAt p = some ratio →
  10 ≤ ratio ∧ ratio ≤ 90

theorem ratiosWithin_leaf (id : String) : (leaf id).RatiosWithin := by
  intro p ratio h
  cases p <;> cases h

theorem ratiosWithin_split {orient : Orient} {ratio : Nat} {a b : PaneLayout} :
    (split orient ratio a b).RatiosWithin ↔
      (10 ≤ ratio ∧ ratio ≤ 90) ∧ a.RatiosWithin ∧ b.RatiosWithin := by
  constructor
  · intro h
    exact ⟨h [] ratio rfl, fun p => h (.first :: p), fun p => h (.second :: p)⟩
  · rintro ⟨hratio, ha, hb⟩ p r h
    rcases p with - | ⟨s, p⟩
    · obtain rfl := Option.some.inj h
      exact hratio
    · cases s with
      | first => exact ha p r h
      | second => exact hb p r h

/-- The ratio after its boundary has moved. -/
def movedRatio (delta : Int) (ratio : Nat) : Nat := (max 10 (min ((ratio : Int) + delta) 90)).toNat

/-- The layout with the boundary of the split at a position moved. -/
def moveAt (delta : Int) : PaneLayout → List Side → PaneLayout
  | leaf id, _ => leaf id
  | split orient ratio a b, [] => split orient (movedRatio delta ratio) a b
  | split orient ratio a b, .first :: p => split orient ratio (a.moveAt delta p) b
  | split orient ratio a b, .second :: p => split orient ratio a (b.moveAt delta p)

theorem leaves_subset_of_sub {l t : PaneLayout} {p : List Side} (h : l.sub p = some t) :
    t.leaves ⊆ l.leaves := by
  induction l generalizing p with
  | leaf id =>
      cases p with
      | nil =>
          obtain rfl := Option.some.inj h
          exact List.Subset.refl _
      | cons s p => cases h
  | split orient ratio a b iha ihb =>
      rcases p with - | ⟨s, p⟩
      · obtain rfl := Option.some.inj h
        exact List.Subset.refl _
      · cases s with
        | first => exact List.Subset.trans (iha h) (List.subset_append_left _ _)
        | second => exact List.Subset.trans (ihb h) (List.subset_append_right _ _)

theorem leaves_moveAt (delta : Int) (l : PaneLayout) (p : List Side) :
    (l.moveAt delta p).leaves = l.leaves := by
  induction l generalizing p with
  | leaf id => rfl
  | split orient ratio a b iha ihb =>
      rcases p with - | ⟨s, p⟩
      · rfl
      · cases s with
        | first => rw [moveAt, leaves, leaves, iha]
        | second => rw [moveAt, leaves, leaves, ihb]

theorem shape_moveAt (delta : Int) (l : PaneLayout) (p : List Side) :
    (l.moveAt delta p).shape = l.shape := by
  induction l generalizing p with
  | leaf id => rfl
  | split orient ratio a b iha ihb =>
      rcases p with - | ⟨s, p⟩
      · rfl
      · cases s with
        | first => rw [moveAt, shape, shape, iha]
        | second => rw [moveAt, shape, shape, ihb]

/-- **Moving one boundary changes the ratio there** and at no other position. -/
theorem ratioAt_moveAt (delta : Int) (l : PaneLayout) (p q : List Side) :
    (l.moveAt delta p).ratioAt q
      = if q = p then (l.ratioAt q).map (movedRatio delta) else l.ratioAt q := by
  induction l generalizing p q with
  | leaf id =>
      have hnone : ratioAt (leaf id) q = none := by cases q <;> rfl
      rw [moveAt, hnone, Option.map_none, ite_self]
  | split orient ratio a b iha ihb =>
      rcases p with - | ⟨s, p⟩ <;> rcases q with - | ⟨t, q⟩
      · rfl
      · cases t <;> rfl
      · cases s <;> rfl
      · cases s <;> cases t
        · show (a.moveAt delta p).ratioAt q = _
          rw [iha]
          simp only [List.cons.injEq, true_and]
          rfl
        · rfl
        · rfl
        · show (b.moveAt delta p).ratioAt q = _
          rw [ihb]
          simp only [List.cons.injEq, true_and]
          rfl

/-! ### The bounds on the ratios -/

/-- The bounds are those of every division. -/
theorem ratiosWithin_iff {l : PaneLayout} :
    l.RatiosWithin ↔ ∀ d ∈ l.divisions, 10 ≤ d.ratio ∧ d.ratio ≤ 90 := by
  induction l with
  | leaf id => exact iff_of_true (ratiosWithin_leaf id) fun d hd => nomatch hd
  | split orient ratio a b iha ihb =>
      rw [ratiosWithin_split, iha, ihb, divisions, List.forall_mem_cons, List.forall_mem_append]

theorem RatiosWithin.without {l l' : PaneLayout} {id : String} (h : l.RatiosWithin)
    (hw : l.without id = some l') : l'.RatiosWithin := by
  rw [ratiosWithin_iff] at h ⊢
  intro d hd
  rw [divisions_of_without hw] at hd
  obtain ⟨old, hold, rfl⟩ := List.mem_map.mp (List.mem_of_mem_filter hd)
  exact h old hold

theorem RatiosWithin.splitLeaf {l : PaneLayout} (h : l.RatiosWithin) (target newId : String)
    (orient : Orient) : (l.splitLeaf target newId orient).1.RatiosWithin := by
  induction l with
  | leaf id =>
      rw [PaneLayout.splitLeaf]
      split_ifs
      · exact ratiosWithin_split.mpr
          ⟨by decide, ratiosWithin_leaf id, ratiosWithin_leaf newId⟩
      · exact h
  | split o ratio a b iha ihb =>
      obtain ⟨hratio, ha, hb⟩ := ratiosWithin_split.mp h
      by_cases hin : target ∈ a.leaves
      · obtain ⟨a', -, -, hsplit, -⟩ := splitLeaf_of_mem newId orient hin
        have ha' := iha ha
        rw [hsplit] at ha'
        rw [PaneLayout.splitLeaf, hsplit]
        exact ratiosWithin_split.mpr ⟨hratio, ha', hb⟩
      · rw [PaneLayout.splitLeaf, splitLeaf_of_notMem newId orient hin]
        exact ratiosWithin_split.mpr ⟨hratio, ha, ihb hb⟩

theorem movedRatio_within (delta : Int) (ratio : Nat) :
    10 ≤ movedRatio delta ratio ∧ movedRatio delta ratio ≤ 90 := by
  unfold movedRatio
  omega

theorem RatiosWithin.moveAt {l : PaneLayout} (h : l.RatiosWithin) (delta : Int)
    (p : List Side) : (l.moveAt delta p).RatiosWithin := by
  intro q ratio hratio
  rw [ratioAt_moveAt] at hratio
  split_ifs at hratio
  · obtain ⟨old, -, rfl⟩ := Option.map_eq_some_iff.mp hratio
    exact movedRatio_within delta old
  · exact h q ratio hratio

/-! ### Resizing -/

/-- The split at `p` is above the leaf `focused` and divides along the axis. -/
def Matching (l : PaneLayout) (focused : String) (axisCols : Bool) (p : List Side) : Prop :=
  ∃ orient ratio a b, l.sub p = some (split orient ratio a b) ∧
    focused ∈ (split orient ratio a b).leaves ∧ (orient == .cols) = axisCols

/-- The split at `p` governs the leaf `focused` along the axis: it is the deepest that matches. -/
structure Governs (l : PaneLayout) (focused : String) (axisCols : Bool) (p : List Side) : Prop where
  matching : l.Matching focused axisCols p
  deepest : ∀ q, l.Matching focused axisCols q → q <+: p

section Governing

variable {focused : String} {axisCols : Bool} {orient : Orient} {ratio : Nat} {a b : PaneLayout}

theorem Matching.mem {l : PaneLayout} {p : List Side} (h : l.Matching focused axisCols p) :
    focused ∈ l.leaves := by
  obtain ⟨orient, ratio, a, b, hsub, hmem, -⟩ := h
  exact leaves_subset_of_sub hsub hmem

theorem not_matching_leaf {id : String} (p : List Side) :
    ¬(leaf id).Matching focused axisCols p := by
  rintro ⟨orient, ratio, a, b, hsub, -⟩
  cases p <;> cases hsub

theorem matching_nil : (split orient ratio a b).Matching focused axisCols [] ↔
    focused ∈ (split orient ratio a b).leaves ∧ (orient == .cols) = axisCols := by
  constructor
  · rintro ⟨orient', ratio', a', b', hsub, h⟩
    cases hsub
    exact h
  · intro h
    exact ⟨orient, ratio, a, b, rfl, h⟩

/-- What governs a leaf in the first child governs it in the split. -/
theorem Governs.first {p : List Side} (h : a.Governs focused axisCols p)
    (hb : focused ∉ b.leaves) :
    (split orient ratio a b).Governs focused axisCols (.first :: p) := by
  refine ⟨h.matching, fun q hq => ?_⟩
  rcases q with - | ⟨s, q⟩
  · exact List.nil_prefix
  · cases s with
    | first => exact List.cons_prefix_cons.mpr ⟨rfl, h.deepest q hq⟩
    | second => exact absurd (Matching.mem (l := b) hq) hb

/-- What governs a leaf in the second child governs it in the split. -/
theorem Governs.second {p : List Side} (h : b.Governs focused axisCols p)
    (ha : focused ∉ a.leaves) :
    (split orient ratio a b).Governs focused axisCols (.second :: p) := by
  refine ⟨h.matching, fun q hq => ?_⟩
  rcases q with - | ⟨s, q⟩
  · exact List.nil_prefix
  · cases s with
    | first => exact absurd (Matching.mem (l := a) hq) ha
    | second => exact List.cons_prefix_cons.mpr ⟨rfl, h.deepest q hq⟩

/-- If no split of the children matches, only the root can. -/
theorem eq_nil_of_matching (ha : ∀ p, ¬a.Matching focused axisCols p)
    (hb : ∀ p, ¬b.Matching focused axisCols p) {q : List Side}
    (h : (split orient ratio a b).Matching focused axisCols q) : q = [] := by
  rcases q with - | ⟨s, q⟩
  · rfl
  · cases s with
    | first => exact absurd h (ha q)
    | second => exact absurd h (hb q)

end Governing

section Resized

variable (focused : String) (axisCols : Bool) (delta : Int)

/-- What `resize` does to a split whose child `c` has the leaf: the child comes first, and then the
split itself if it divides along the axis. -/
def resizeSplit (orient : Orient) (ratio : Nat) (rebuild : Nat → PaneLayout → PaneLayout)
    (c : PaneLayout) : PaneLayout × Bool :=
  if (c.resize focused axisCols delta).2 then
    (rebuild ratio (c.resize focused axisCols delta).1, true)
  else if (orient == .cols) == axisCols then
    (rebuild (movedRatio delta ratio) (c.resize focused axisCols delta).1, true)
  else (rebuild ratio (c.resize focused axisCols delta).1, false)

variable {focused} (orient : Orient) (ratio : Nat) {a b : PaneLayout}

theorem resize_first (ha : focused ∈ a.leaves) :
    (split orient ratio a b).resize focused axisCols delta
      = resizeSplit focused axisCols delta orient ratio (fun r c => split orient r c b) a := by
  rw [resize, contains_iff.mpr ha]
  rfl

theorem resize_second (ha : focused ∉ a.leaves) (hb : focused ∈ b.leaves) :
    (split orient ratio a b).resize focused axisCols delta
      = resizeSplit focused axisCols delta orient ratio (fun r c => split orient r a c) b := by
  rw [resize, contains_iff.mpr hb, Bool.eq_false_iff.mpr (mt contains_iff.mp ha)]
  rfl

theorem resize_absent {l : PaneLayout} (h : focused ∉ l.leaves) :
    l.resize focused axisCols delta = (l, false) := by
  cases l with
  | leaf id => rfl
  | split orient ratio a b =>
      have ha : a.contains focused = false :=
        Bool.eq_false_iff.mpr fun hc => h (List.mem_append_left _ (contains_iff.mp hc))
      have hb : b.contains focused = false :=
        Bool.eq_false_iff.mpr fun hc => h (List.mem_append_right _ (contains_iff.mp hc))
      rw [resize, ha, hb]
      rfl

/-- The answer `r` has the boundary moved that governs the leaf, or says that none does. -/
def MovesOrKeeps (l : PaneLayout) (focused : String) (axisCols : Bool) (delta : Int)
    (r : PaneLayout × Bool) : Prop :=
  (∃ p, l.Governs focused axisCols p ∧ r = (l.moveAt delta p, true)) ∨
    (∀ p, ¬l.Matching focused axisCols p) ∧ r = (l, false)

/-- Where no split of the children matches, the root is moved if it matches. -/
theorem movesOrKeeps_root (hmem : focused ∈ (split orient ratio a b).leaves)
    (ha : ∀ p, ¬a.Matching focused axisCols p) (hb : ∀ p, ¬b.Matching focused axisCols p) :
    MovesOrKeeps (split orient ratio a b) focused axisCols delta
      (if (orient == .cols) == axisCols then (split orient (movedRatio delta ratio) a b, true)
        else (split orient ratio a b, false)) := by
  by_cases haxis : (orient == .cols) = axisCols
  · rw [if_pos (beq_iff_eq.mpr haxis)]
    refine .inl ⟨[], ⟨matching_nil.mpr ⟨hmem, haxis⟩, fun q hq => ?_⟩, rfl⟩
    obtain rfl := eq_nil_of_matching ha hb hq
    exact List.nil_prefix
  · rw [if_neg (mt beq_iff_eq.mp haxis)]
    refine .inr ⟨fun p hp => ?_, rfl⟩
    obtain rfl := eq_nil_of_matching ha hb hp
    exact haxis (matching_nil.mp hp).2

/-- **Resizing moves the boundary of the governing split**, or nothing where there is none. -/
theorem movesOrKeeps_resize {l : PaneLayout} (hnd : l.leaves.Nodup) :
    MovesOrKeeps l focused axisCols delta (l.resize focused axisCols delta) := by
  induction l with
  | leaf id => exact .inr ⟨not_matching_leaf, rfl⟩
  | split orient ratio a b iha ihb =>
      obtain ⟨hnda, hndb, hdisj⟩ := List.nodup_append.mp hnd
      by_cases ha : focused ∈ a.leaves
      · have hb : focused ∉ b.leaves := fun hb => hdisj focused ha focused hb rfl
        rw [resize_first axisCols delta orient ratio ha, resizeSplit]
        -- the deeper match wins
        rcases iha hnda with ⟨p, hgov, h⟩ | ⟨hnone, h⟩ <;> rw [h]
        · exact .inl ⟨.first :: p, hgov.first hb, rfl⟩
        · exact movesOrKeeps_root axisCols delta orient ratio (List.mem_append_left _ ha) hnone
            fun p hp => hb hp.mem
      · have hna : ∀ p, ¬a.Matching focused axisCols p := fun p hp => ha hp.mem
        by_cases hb : focused ∈ b.leaves
        · rw [resize_second axisCols delta orient ratio ha hb, resizeSplit]
          rcases ihb hndb with ⟨p, hgov, h⟩ | ⟨hnone, h⟩ <;> rw [h]
          · exact .inl ⟨.second :: p, hgov.second ha, rfl⟩
          · exact movesOrKeeps_root axisCols delta orient ratio (List.mem_append_right _ hb) hna
              hnone
        · have hout : focused ∉ (split orient ratio a b).leaves :=
            fun hmem => (List.mem_append.mp hmem).elim ha hb
          exact .inr ⟨fun p hp => hout hp.mem, resize_absent axisCols delta hout⟩

end Resized

/-- **Resizing moves only the governing split**: leaves, shape and the bounds on the ratios stay; at
most the ratio of that split changes, and nothing at all if the leaf is absent or no split
above it divides along the axis, which is what the answer says. -/
structure MovesGoverning (l : PaneLayout) (focused : String) (axisCols : Bool) (delta : Int) :
    Prop where
  leaves : (l.resize focused axisCols delta).1.leaves = l.leaves
  shape : (l.resize focused axisCols delta).1.shape = l.shape
  ratios : (l.resize focused axisCols delta).1.RatiosWithin
  moved : (l.resize focused axisCols delta).2 = true →
    ∃ p, l.Governs focused axisCols p ∧ ∀ q, (l.resize focused axisCols delta).1.ratioAt q
      = if q = p then (l.ratioAt q).map (movedRatio delta) else l.ratioAt q
  unmoved : (l.resize focused axisCols delta).2 = false ↔
    focused ∉ l.leaves ∨ ∀ p, ¬l.Matching focused axisCols p
  unchanged : (l.resize focused axisCols delta).2 = false →
    (l.resize focused axisCols delta).1 = l

/-- **Resize moves only the governing split**, by 5 either way as the interface does and by any other
distance. -/
theorem moves_governing (l : PaneLayout) (hnd : l.leaves.Nodup) (hr : l.RatiosWithin)
    (focused : String) (axisCols : Bool) (delta : Int) :
    MovesGoverning l focused axisCols delta := by
  rcases movesOrKeeps_resize axisCols delta hnd with ⟨p, hgov, h⟩ | ⟨hnone, h⟩
  · constructor
    case leaves => exact l.leaves_resize focused axisCols delta
    all_goals rw [h]
    case shape => exact shape_moveAt delta l p
    case ratios => exact hr.moveAt delta p
    case moved => exact fun _ => ⟨p, hgov, ratioAt_moveAt delta l p⟩
    case unmoved =>
      refine iff_of_false (fun h => nomatch h) ?_
      rintro (hout | hnone)
      · exact hout hgov.matching.mem
      · exact hnone p hgov.matching
    case unchanged => exact fun h => nomatch h
  · constructor
    case leaves => exact l.leaves_resize focused axisCols delta
    all_goals rw [h]
    case ratios => exact hr
    case moved => exact fun h => nomatch h
    case unmoved => exact iff_of_true rfl (.inr hnone)
    case unchanged => exact fun _ => rfl

/-- A column beside two rows, as two splits of panes leave it. -/
def columnAndRows : PaneLayout :=
  split .cols 50 (leaf "a") (split .rows 88 (leaf "b") (leaf "c"))

theorem moves_governing_rows :
    MovesGoverning columnAndRows "b" false 5 ∧
      (columnAndRows.resize "b" false 5).1.ratioAt [.second] = some 90 := by
  refine ⟨moves_governing columnAndRows (by decide) ?_ "b" false 5, by decide⟩
  exact ratiosWithin_split.mpr ⟨by decide, ratiosWithin_leaf "a",
    ratiosWithin_split.mpr ⟨by decide, ratiosWithin_leaf "b", ratiosWithin_leaf "c"⟩⟩

end PaneLayout

end MemMux.Tui
