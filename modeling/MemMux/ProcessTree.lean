/-
MemMux/ProcessTree.lean

Process samples, the process tree and its attribution to tasks (`memmux-metrics/src/sample.rs`,
`tree.rs`, `attribution.rs`, `sweep.rs`).

A tree is the list of samples it was built from; `get`, `children` and the walks are functions
of that list, as the two hash maps of the source are.  Repeated pids keep the last
sample, and each of their parent links counts.

`mem_descendants` is the specification of the walk that every reclamation relies on: the
descendants of a pid are the pids, other than itself, reached from it along parent links,
whether or not those links form cycles.
-/
import MemMux.Budget
import MemMux.KeyMap
import MemMux.Search
import Mathlib.Algebra.Order.BigOperators.Group.Finset
import Mathlib.Data.List.Sort

namespace MemMux

/-! ### Samples -/

/-- Process ids are `i32` in the sampler. -/
abbrev Pid := Int

/-- `pid as i32` for the `u32` a provider session reports. -/
def asI32 (n : Nat) : Pid := (n : Int).bmod (2 ^ 32)

/-- A single point-in-time measurement of one process. -/
structure ProcessSample where
  pid : Pid
  ppid : Pid
  name : String
  rssBytes : Nat
  pssBytes : Option Nat
  physFootprintBytes : Option Nat
  deriving DecidableEq, Repr

/-- The best available per-process memory figure for accounting. -/
def ProcessSample.accountedBytes (s : ProcessSample) : Nat :=
  (s.pssBytes.or s.physFootprintBytes).getD s.rssBytes

/-! ### The tree -/

/-- An indexed process tree supporting ancestry and subtree queries. -/
structure ProcessTree where
  samples : List ProcessSample
  deriving DecidableEq, Repr

namespace ProcessTree

/-- Build a tree from a flat list of samples. -/
def fromSamples (samples : List ProcessSample) : ProcessTree := ⟨samples⟩

/-- Look up a process by pid; a repeated pid keeps the last sample seen. -/
def get (t : ProcessTree) (pid : Pid) : Option ProcessSample :=
  t.samples.reverse.find? (·.pid == pid)

/-- All pids present in the tree, each once. -/
def pids (t : ProcessTree) : List Pid := (t.samples.map (·.pid)).dedup

/-- Direct children of `pid`, sorted and without repetition. -/
def children (t : ProcessTree) (pid : Pid) : List Pid :=
  (((t.samples.filter (·.ppid == pid)).map (·.pid)).dedup).insertionSort (· ≤ ·)

/-- All transitive descendants of `pid` (excluding `pid` itself), in breadth-first order. -/
def descendants (t : ProcessTree) (pid : Pid) : List Pid :=
  Search.reach t.children t.samples.length pid

/-- The walk up the parent links, stopping on a missing parent or a cycle. -/
def ancestorsFrom (t : ProcessTree) : Nat → List Pid → Pid → List Pid
  | 0, _, _ => []
  | fuel + 1, seen, cursor =>
      match t.get cursor with
      | none => []
      | some sample =>
          if sample.ppid = cursor ∨ sample.ppid ∈ seen then []
          else if (t.get sample.ppid).isSome then
            sample.ppid :: ancestorsFrom t fuel (sample.ppid :: seen) sample.ppid
          else []

/-- Ancestors of `pid` from nearest parent to the root.  Every reported ancestor is a sampled pid
not seen before, so the number of samples bounds the walk. -/
def ancestors (t : ProcessTree) (pid : Pid) : List Pid :=
  t.ancestorsFrom (t.samples.length + 1) [pid] pid

/-- The sum of a measure over `pid` and its descendants. -/
def subtreeSum (t : ProcessTree) (pid : Pid) (f : ProcessSample → Nat) : Nat :=
  wrapSum ((pid :: t.descendants pid).map fun p => ((t.get p).map f).getD 0)

def subtreeRssBytes (t : ProcessTree) (pid : Pid) : Nat := t.subtreeSum pid (·.rssBytes)

def subtreeAccountedBytes (t : ProcessTree) (pid : Pid) : Nat :=
  t.subtreeSum pid (·.accountedBytes)

/-- The nearest ancestor of `pid` (including `pid` itself) that is present in `roots`. -/
def nearestAncestorIn (t : ProcessTree) (pid : Pid) (roots : List Pid) : Option Pid :=
  if pid ∈ roots then some pid else (t.ancestors pid).find? (· ∈ roots)

/-! ### The walk down -/

/-- `q` was sampled as a child of `p`. -/
def IsChild (t : ProcessTree) (p q : Pid) : Prop := ∃ s ∈ t.samples, s.pid = q ∧ s.ppid = p

theorem mem_children {t : ProcessTree} {p q : Pid} : q ∈ t.children p ↔ t.IsChild p q := by
  rw [children, List.mem_insertionSort, List.mem_dedup, List.mem_map]
  constructor
  · rintro ⟨s, hs, rfl⟩
    obtain ⟨hmem, hp⟩ := List.mem_filter.mp hs
    exact ⟨s, hmem, rfl, beq_iff_eq.mp hp⟩
  · rintro ⟨s, hmem, rfl, hp⟩
    exact ⟨s, List.mem_filter.mpr ⟨hmem, beq_iff_eq.mpr hp⟩, rfl⟩

/-- The children lists have no more entries together than there are samples. -/
theorem sum_children_le (t : ProcessTree) :
    ∑ p ∈ (t.samples.map (·.ppid)).toFinset, (t.children p).length ≤ t.samples.length := by
  have hle : ∀ p, (t.children p).length ≤ (t.samples.map (·.ppid)).count p := by
    intro p
    rw [children, List.length_insertionSort]
    refine le_trans (List.dedup_sublist _).length_le ?_
    rw [List.length_map, List.count, List.countP_map, ← List.countP_eq_length_filter]
    exact le_of_eq rfl
  calc ∑ p ∈ (t.samples.map (·.ppid)).toFinset, (t.children p).length
      ≤ ∑ p ∈ (t.samples.map (·.ppid)).toFinset, (t.samples.map (·.ppid)).count p :=
        Finset.sum_le_sum fun p _ => hle p
    _ = (t.samples.map (·.ppid)).length :=
        List.sum_toFinset_count_eq_length _
    _ = t.samples.length := List.length_map _

/-- A pid that is the parent of no sample has no children. -/
theorem children_eq_nil {t : ProcessTree} (p : Pid) (hp : p ∉ (t.samples.map (·.ppid)).toFinset) :
    t.children p = [] := by
  refine List.eq_nil_iff_forall_not_mem.mpr fun q hq => hp ?_
  obtain ⟨s, hs, -, hsp⟩ := mem_children.mp hq
  exact List.mem_toFinset.mpr (List.mem_map.mpr ⟨s, hs, hsp⟩)

/-- **The descendants of a pid are the other pids reached from it along parent links.** -/
theorem mem_descendants {t : ProcessTree} {p q : Pid} :
    q ∈ t.descendants p ↔ q ≠ p ∧ Relation.TransGen t.IsChild p q := by
  have hedge : Search.Edge t.children = t.IsChild := by
    funext x y
    exact propext mem_children
  rw [descendants, Search.mem_reach children_eq_nil t.sum_children_le, hedge]

/-- A pid and its descendants are what is reached from it. -/
theorem mem_subtree {t : ProcessTree} {p q : Pid} :
    q ∈ p :: t.descendants p ↔ Relation.ReflTransGen t.IsChild p q := by
  rw [List.mem_cons, mem_descendants, Relation.reflTransGen_iff_eq_or_transGen]
  by_cases hqp : q = p
  · exact iff_of_true (.inl hqp) (.inl hqp)
  · rw [and_iff_right hqp]

/-! ### The walk up -/

/-- Every pid was sampled once. -/
def Distinct (t : ProcessTree) : Prop := (t.samples.map (·.pid)).Nodup

theorem mem_of_get {t : ProcessTree} {p : Pid} {s : ProcessSample} (h : t.get p = some s) :
    s ∈ t.samples ∧ s.pid = p :=
  ⟨List.mem_reverse.mp (List.mem_of_find?_eq_some h), by simpa using List.find?_some h⟩

theorem isSome_get {t : ProcessTree} {p : Pid} : (t.get p).isSome ↔ ∃ s ∈ t.samples, s.pid = p := by
  simp [get, List.find?_isSome]

/-- With distinct pids the tree holds each sample under its pid. -/
theorem Distinct.get_iff {t : ProcessTree} (ht : t.Distinct) {p : Pid} {s : ProcessSample} :
    t.get p = some s ↔ s ∈ t.samples ∧ s.pid = p := by
  refine ⟨mem_of_get, fun ⟨hs, hp⟩ => ?_⟩
  obtain ⟨s', hs'⟩ := Option.isSome_iff_exists.mp (isSome_get.mpr ⟨s, hs, hp⟩)
  obtain ⟨hmem, hp'⟩ := mem_of_get hs'
  rw [hs', List.inj_on_of_nodup_map ht hmem hs (hp'.trans hp.symm)]

/-- `p` is the parent of `q` by the sample that the tree keeps of `q`. -/
def IsParent (t : ProcessTree) (p q : Pid) : Prop := ∃ s, t.get q = some s ∧ s.ppid = p

theorem IsParent.isChild {t : ProcessTree} {p q : Pid} (h : t.IsParent p q) : t.IsChild p q := by
  obtain ⟨s, hs, hp⟩ := h
  obtain ⟨hmem, hq⟩ := mem_of_get hs
  exact ⟨s, hmem, hq, hp⟩

/-- With distinct pids the parent of a pid is the one the walk up follows. -/
theorem Distinct.isChild_eq {t : ProcessTree} (ht : t.Distinct) : t.IsChild = t.IsParent := by
  funext p q
  refine propext ⟨fun h => ?_, IsParent.isChild⟩
  obtain ⟨s, hs, hq, hp⟩ := h
  exact ⟨s, ht.get_iff.mpr ⟨hs, hq⟩, hp⟩

theorem isSome_of_isChild {t : ProcessTree} {p q : Pid} (h : t.IsChild p q) : (t.get q).isSome := by
  obtain ⟨s, hs, hq, -⟩ := h
  exact isSome_get.mpr ⟨s, hs, hq⟩

theorem isSome_of_reach {t : ProcessTree} {p q : Pid} (h : Relation.TransGen t.IsChild p q) :
    (t.get q).isSome := by
  obtain ⟨_, -, hq⟩ := Relation.TransGen.tail'_iff.mp h
  exact isSome_of_isChild hq

theorem isSome_of_isParents {t : ProcessTree} {p q : Pid} (h : Relation.TransGen t.IsParent p q) :
    (t.get q).isSome :=
  isSome_of_reach (Relation.TransGen.mono (fun _ _ => IsParent.isChild) _ _ h)

/-- The walk up without fuel, run until it breaks. -/
inductive Climbs (t : ProcessTree) : List Pid → Pid → List Pid → Prop
  /-- the pid was not sampled -/
  | unsampled {seen : List Pid} {cursor : Pid} : t.get cursor = none → Climbs t seen cursor []
  /-- the parent was met before -/
  | cycle {seen : List Pid} {cursor : Pid} {s : ProcessSample} : t.get cursor = some s →
      s.ppid = cursor ∨ s.ppid ∈ seen → Climbs t seen cursor []
  /-- the parent was not sampled -/
  | missing {seen : List Pid} {cursor : Pid} {s : ProcessSample} : t.get cursor = some s →
      t.get s.ppid = none → Climbs t seen cursor []
  /-- the parent is reported, and the walk goes on from there -/
  | up {seen : List Pid} {cursor : Pid} {s : ProcessSample} {out : List Pid} :
      t.get cursor = some s → s.ppid ∉ seen → (t.get s.ppid).isSome →
      Climbs t (s.ppid :: seen) s.ppid out → Climbs t seen cursor (s.ppid :: out)

/-- The pids that a walk has seen are samples of the tree, each met once, so it needs no more fuel
than there are samples. -/
theorem climbs_ancestorsFrom {t : ProcessTree} {fuel : Nat} {seen : List Pid} {cursor : Pid}
    (hnodup : seen.Nodup) (hsampled : ∀ x ∈ seen, (t.get x).isSome)
    (hfuel : t.samples.length < fuel + seen.length) :
    t.Climbs seen cursor (t.ancestorsFrom fuel seen cursor) := by
  induction fuel generalizing seen cursor with
  | zero =>
      -- without fuel all samples were seen, and one pid more
      have hsub : seen ⊆ t.samples.map (·.pid) := by
        intro x hx
        obtain ⟨s, hs, hp⟩ := isSome_get.mp (hsampled x hx)
        exact List.mem_map.mpr ⟨s, hs, hp⟩
      have hle := (hnodup.subperm hsub).length_le
      rw [List.length_map] at hle
      omega
  | succ fuel ih =>
      rw [ancestorsFrom]
      split
      · next hnone => exact .unsampled hnone
      · next s hs =>
        split
        · next hcycle => exact .cycle hs hcycle
        · next hnew =>
          have hunseen : s.ppid ∉ seen := fun hin => hnew (.inr hin)
          split
          · next hparent =>
            refine .up hs hunseen hparent (ih (List.nodup_cons.mpr ⟨hunseen, hnodup⟩) ?_ ?_)
            · intro x hx
              rcases List.mem_cons.mp hx with rfl | hx
              · exact hparent
              · exact hsampled x hx
            · rw [List.length_cons]
              omega
          · next hparent => exact .missing hs (Option.not_isSome_iff_eq_none.mp hparent)

theorem climbs_ancestors (t : ProcessTree) (p : Pid) : t.Climbs [p] p (t.ancestors p) := by
  cases hp : t.get p with
  | none =>
      rw [ancestors, ancestorsFrom, hp]
      exact .unsampled hp
  | some s =>
      refine climbs_ancestorsFrom (List.nodup_singleton p) (fun x hx => ?_) ?_
      · rw [List.mem_singleton.mp hx, hp]
        rfl
      · rw [List.length_singleton]
        omega

/-- Every pid that a walk up reports was sampled, is new to it, and lies above its start. -/
theorem Climbs.sound {t : ProcessTree} {seen out : List Pid} {cursor r : Pid}
    (h : t.Climbs seen cursor out) (hr : r ∈ out) :
    (t.get r).isSome ∧ r ∉ seen ∧ Relation.TransGen t.IsParent r cursor := by
  induction h with
  | unsampled _ => cases hr
  | cycle _ _ => cases hr
  | missing _ _ => cases hr
  | @up _ cursor s _ hs hunseen hsampled _ ih =>
      have hparent : t.IsParent s.ppid cursor := ⟨s, hs, rfl⟩
      rcases List.mem_cons.mp hr with rfl | hr
      · exact ⟨hsampled, hunseen, .single hparent⟩
      · obtain ⟨hsome, hnot, habove⟩ := ih hr
        exact ⟨hsome, fun hin => hnot (List.mem_cons_of_mem _ hin), habove.tail hparent⟩

/-- What lies above a pid is its parent, or lies above that. -/
theorem parents_of_get {t : ProcessTree} {r p : Pid} {s : ProcessSample} (hs : t.get p = some s)
    (h : Relation.TransGen t.IsParent r p) : Relation.ReflTransGen t.IsParent r s.ppid := by
  obtain ⟨_, hreach, s', hs', rfl⟩ := Relation.TransGen.tail'_iff.mp h
  rwa [Option.some.inj (hs'.symm.trans hs)] at hreach

/-- A pid whose parent is always among the pids seen has all its ancestors among them. -/
theorem mem_of_closed {t : ProcessTree} {seen : List Pid}
    (hclosed : ∀ x ∈ seen, ∀ s, t.get x = some s → s.ppid ∈ seen) {r q : Pid}
    (h : Relation.TransGen t.IsParent r q) (hq : q ∈ seen) : r ∈ seen := by
  have hstep : ∀ {x y}, t.IsParent x y → y ∈ seen → x ∈ seen := by
    intro x y hxy hy
    obtain ⟨s, hs, rfl⟩ := hxy
    exact hclosed y hy s hs
  induction h with
  | single h => exact hstep h hq
  | tail _ h ih => exact ih (hstep h hq)

/-- The walk up does not break before it has met a sampled pid that lies above its start: the pids
it has seen form a path, so a parent it has seen closes that path to a cycle without the pid. -/
theorem Climbs.complete {t : ProcessTree} {seen out : List Pid} {cursor r : Pid}
    (h : t.Climbs seen cursor out) (hr : (t.get r).isSome)
    (habove : Relation.TransGen t.IsParent r cursor) (hnot : r ∉ seen) (hcursor : cursor ∈ seen)
    (hpath : ∀ x ∈ seen, x ≠ cursor → ∀ s, t.get x = some s → s.ppid ∈ seen) : r ∈ out := by
  induction h with
  | unsampled hnone =>
      have hsome := isSome_of_isParents habove
      rw [hnone] at hsome
      cases hsome
  | @cycle seen cursor s hs hcycle =>
      have hin : s.ppid ∈ seen := hcycle.elim (fun h => h ▸ hcursor) id
      refine absurd (mem_of_closed (fun x hx s' hs' => ?_) habove hcursor) hnot
      by_cases hxc : x = cursor
      · subst hxc
        rw [Option.some.inj (hs'.symm.trans hs)]
        exact hin
      · exact hpath x hx hxc s' hs'
  | missing hs hnone =>
      rcases Relation.reflTransGen_iff_eq_or_transGen.mp (parents_of_get hs habove) with heq | habove
      · rw [← heq, hnone] at hr
        cases hr
      · have hsome := isSome_of_isParents habove
        rw [hnone] at hsome
        cases hsome
  | @up seen cursor s _ hs _ _ _ ih =>
      by_cases hrp : r = s.ppid
      · exact hrp ▸ List.mem_cons_self
      · -- `r` lies further up: the walk goes on from the parent
        have hup := (Relation.reflTransGen_iff_eq_or_transGen.mp (parents_of_get hs habove)).resolve_left
          fun h => hrp h.symm
        refine List.mem_cons_of_mem _ (ih hup ?_ List.mem_cons_self fun x hx hxp s' hs' => ?_)
        · exact fun hin => (List.mem_cons.mp hin).elim hrp hnot
        · have hx := (List.mem_cons.mp hx).resolve_left hxp
          by_cases hxc : x = cursor
          · subst hxc
            rw [Option.some.inj (hs'.symm.trans hs)]
            exact List.mem_cons_self
          · exact List.mem_cons_of_mem _ (hpath x hx hxc s' hs')

/-- **The ancestors of a pid are the other sampled pids above it along the parent links that the
tree keeps.** -/
theorem mem_ancestors {t : ProcessTree} {p r : Pid} :
    r ∈ t.ancestors p ↔ r ≠ p ∧ (t.get r).isSome ∧ Relation.TransGen t.IsParent r p := by
  constructor
  · intro h
    obtain ⟨hr, hnot, habove⟩ := (t.climbs_ancestors p).sound h
    exact ⟨fun hrp => hnot (hrp ▸ List.mem_cons_self), hr, habove⟩
  · rintro ⟨hne, hr, habove⟩
    refine (t.climbs_ancestors p).complete hr habove ?_ List.mem_cons_self ?_
    · exact fun h => hne (List.mem_singleton.mp h)
    · exact fun x hx hxp => absurd (List.mem_singleton.mp hx) hxp

/-- **With distinct pids the ancestors of a pid are the other sampled pids it is reached from.** -/
theorem Distinct.mem_ancestors {t : ProcessTree} (ht : t.Distinct) {p r : Pid} :
    r ∈ t.ancestors p ↔ r ≠ p ∧ (t.get r).isSome ∧ Relation.TransGen t.IsChild r p := by
  rw [ht.isChild_eq]
  exact ProcessTree.mem_ancestors

/-! ### Roots at or above a pid -/

/-- The sampled pid `r` is `p`, or lies above it. -/
def AtOrAbove (t : ProcessTree) (r p : Pid) : Prop :=
  (t.get r).isSome ∧ Relation.ReflTransGen t.IsChild r p

theorem nearestAncestorIn_mem {t : ProcessTree} {p r : Pid} {roots : List Pid}
    (h : t.nearestAncestorIn p roots = some r) : r ∈ roots := by
  rw [nearestAncestorIn] at h
  split at h
  · next hin => exact Option.some.inj h ▸ hin
  · simpa using List.find?_some h

/-- **No root is found for a sampled pid exactly when none is at or above it.** -/
theorem Distinct.nearestAncestorIn_eq_none {t : ProcessTree} (ht : t.Distinct) {p : Pid}
    {roots : List Pid} (hp : (t.get p).isSome) :
    t.nearestAncestorIn p roots = none ↔ ∀ r ∈ roots, ¬ t.AtOrAbove r p := by
  rw [nearestAncestorIn]
  split
  · next hin => exact iff_of_false (Option.some_ne_none _) fun h => h p hin ⟨hp, .refl⟩
  · next hin =>
    rw [List.find?_eq_none]
    constructor
    · rintro hnone r hr ⟨hsome, hrp⟩
      have hne : r ≠ p := fun heq => hin (heq ▸ hr)
      have habove := (Relation.reflTransGen_iff_eq_or_transGen.mp hrp).resolve_left fun h => hne h.symm
      exact hnone r (ht.mem_ancestors.mpr ⟨hne, hsome, habove⟩) (decide_eq_true hr)
    · intro hnone r hr hin'
      obtain ⟨-, hsome, habove⟩ := ht.mem_ancestors.mp hr
      exact hnone r (of_decide_eq_true hin') ⟨hsome, habove.to_reflTransGen⟩

end ProcessTree

/-- The set of pids to terminate for `root`: the root and every descendant, excluding pids ≤ 1. -/
def terminationTargets (tree : ProcessTree) (root : Pid) : List Pid :=
  (((tree.descendants root ++ [root]).filter (1 < ·)).dedup).insertionSort (· ≤ ·)

theorem mem_terminationTargets {tree : ProcessTree} {root p : Pid} :
    p ∈ terminationTargets tree root ↔ (p ∈ tree.descendants root ∨ p = root) ∧ 1 < p := by
  rw [terminationTargets, List.mem_insertionSort, List.mem_dedup, List.mem_filter,
    List.mem_append, List.mem_singleton, decide_eq_true_iff]

/-! ### Attribution and reconciliation -/

/-- The owner a root process belongs to. -/
inductive Owner
  | task (id : String)
  | shared (service : String)
  deriving DecidableEq, Repr

/-- A process MemMux launched and knows the owner of. -/
structure RootSpec where
  pid : Pid
  owner : Owner
  deriving DecidableEq, Repr

/-- Classification of a single process. -/
inductive Attribution
  | owned (task : String)
  | shared (service : String)
  | escaped (task : String)
  | unknown
  deriving DecidableEq, Repr

/-- The classification of one sampled pid; `expected` holds the pids reported for a task. -/
def attributionOf (tree : ProcessTree) (roots : List RootSpec) (expected : KeyMap Pid String)
    (pid : Pid) : Attribution :=
  let rootOwner : KeyMap Pid Owner := KeyMap.ofList (roots.map fun r => (r.pid, r.owner))
  match tree.nearestAncestorIn pid rootOwner.keys with
  | some root =>
      match rootOwner.lookup root with
      | some (.task task) => .owned task
      | some (.shared service) => .shared service
      | none => .unknown
  | none =>
      match expected.lookup pid with
      | some task => .escaped task
      | none => .unknown

/-- The class of a pid under a root of the owner. -/
def Owner.attribution : Owner → Attribution
  | .task id => .owned id
  | .shared service => .shared service

section

variable {tree : ProcessTree} {roots : List RootSpec} {expected : KeyMap Pid String} {p : Pid}

/-- The keys under which the roots are looked up are their pids. -/
theorem mem_rootPids :
    p ∈ (KeyMap.ofList (roots.map fun r => (r.pid, r.owner))).keys ↔ ∃ r ∈ roots, r.pid = p := by
  rw [← AList.mem_keys, KeyMap.mem_ofList]
  simp

/-- No root is found for a sampled pid exactly when none is at or above it. -/
theorem nearestAncestorIn_roots (ht : tree.Distinct) (hp : (tree.get p).isSome) :
    tree.nearestAncestorIn p (KeyMap.ofList (roots.map fun r => (r.pid, r.owner))).keys = none
      ↔ ∀ r ∈ roots, ¬ tree.AtOrAbove r.pid p := by
  rw [ht.nearestAncestorIn_eq_none hp]
  constructor
  · exact fun h r hr => h r.pid (mem_rootPids.mpr ⟨r, hr, rfl⟩)
  · intro h q hq
    obtain ⟨r, hr, rfl⟩ := mem_rootPids.mp hq
    exact h r hr

/-- A pid with a root at or above it has the class of that root's owner. -/
theorem attributionOf_of_some {root : Pid}
    (h : tree.nearestAncestorIn p (KeyMap.ofList (roots.map fun r => (r.pid, r.owner))).keys
      = some root) :
    ∃ r ∈ roots, attributionOf tree roots expected p = r.owner.attribution := by
  have hkey := AList.mem_keys.mpr (ProcessTree.nearestAncestorIn_mem h)
  obtain ⟨owner, howner⟩ := KeyMap.mem_iff_lookup.mp hkey
  obtain ⟨r, hr, heq⟩ := List.mem_map.mp (KeyMap.mem_of_lookup_ofList howner)
  obtain ⟨-, rfl⟩ := Prod.mk.injEq .. ▸ heq
  refine ⟨r, hr, ?_⟩
  rw [attributionOf]
  simp only [h, howner]
  cases r.owner <;> rfl

/-- Without such a root the report decides. -/
theorem attributionOf_of_none
    (h : tree.nearestAncestorIn p (KeyMap.ofList (roots.map fun r => (r.pid, r.owner))).keys
      = none) :
    attributionOf tree roots expected p
      = ((expected.lookup p).map Attribution.escaped).getD .unknown := by
  rw [attributionOf]
  simp only [h]
  cases expected.lookup p <;> rfl

end

/-- Aggregated attribution result for a whole snapshot. -/
structure AttributionReport where
  byPid : List (Pid × Attribution)
  ownedBytes : Nat
  sharedBytes : Nat
  escapedBytes : Nat
  unknownBytes : Nat
  deriving DecidableEq, Repr

/-- Classify every process in `tree` against the given roots and reported ownership (`attribute`
in the source, a reserved word here). -/
def attributeTree (tree : ProcessTree) (roots : List RootSpec) (expected : KeyMap Pid String) :
    AttributionReport :=
  let byPid := tree.pids.map fun p => (p, attributionOf tree roots expected p)
  let bytes (keep : Attribution → Bool) : Nat :=
    wrapSum ((byPid.filter fun e => keep e.2).map fun e =>
      ((tree.get e.1).map (·.accountedBytes)).getD 0)
  { byPid := byPid
    ownedBytes := bytes fun | .owned _ => true | _ => false
    sharedBytes := bytes fun | .shared _ => true | _ => false
    escapedBytes := bytes fun | .escaped _ => true | _ => false
    unknownBytes := bytes fun | .unknown => true | _ => false }

namespace AttributionReport

/-- Total accounted bytes across all classes. -/
def totalBytes (r : AttributionReport) : Nat :=
  wrapSum [r.ownedBytes, r.sharedBytes, r.escapedBytes, r.unknownBytes]

/-- Fraction of accounted bytes mapped to a task or shared service. -/
def attributedFraction (r : AttributionReport) : Float :=
  if r.totalBytes = 0 then 1.0
  else Float.ofNat (wrapSum [r.ownedBytes, r.sharedBytes, r.escapedBytes])
    / Float.ofNat r.totalBytes

/-- Pids of one class, sorted. -/
def pidsMatching (r : AttributionReport) (keep : Attribution → Bool) : List Pid :=
  ((r.byPid.filter fun e => keep e.2).map (·.1)).insertionSort (· ≤ ·)

def escapedPids (r : AttributionReport) : List Pid :=
  r.pidsMatching fun | .escaped _ => true | _ => false

def unknownPids (r : AttributionReport) : List Pid :=
  r.pidsMatching fun | .unknown => true | _ => false

end AttributionReport

/-! ### The pids of a report -/

section

variable {tree : ProcessTree} {roots : List RootSpec} {expected : KeyMap Pid String} {p : Pid}

theorem ProcessTree.mem_pids : p ∈ tree.pids ↔ (tree.get p).isSome := by
  rw [ProcessTree.pids, List.mem_dedup, ProcessTree.isSome_get, List.mem_map]

theorem mem_byPid {a : Attribution} :
    (p, a) ∈ (attributeTree tree roots expected).byPid
      ↔ (tree.get p).isSome ∧ attributionOf tree roots expected p = a := by
  rw [attributeTree, List.mem_map, ← ProcessTree.mem_pids]
  constructor
  · rintro ⟨q, hq, heq⟩
    obtain ⟨rfl, hclass⟩ := Prod.mk.injEq .. ▸ heq
    exact ⟨hq, hclass⟩
  · rintro ⟨hp, hclass⟩
    exact ⟨p, hp, by rw [hclass]⟩

/-- The pids of the report are those of the tree. -/
theorem byPid_pids : (attributeTree tree roots expected).byPid.map (·.1) = tree.pids := by
  rw [attributeTree, List.map_map]
  exact List.map_id' _

theorem nodup_byPid : ((attributeTree tree roots expected).byPid.map (·.1)).Nodup := by
  rw [byPid_pids]
  exact List.nodup_dedup _

/-- The pids of one class, among the sampled ones. -/
theorem mem_pidsMatching {keep : Attribution → Bool} :
    p ∈ (attributeTree tree roots expected).pidsMatching keep
      ↔ (tree.get p).isSome ∧ keep (attributionOf tree roots expected p) := by
  rw [AttributionReport.pidsMatching, List.mem_insertionSort, List.mem_map]
  constructor
  · rintro ⟨⟨q, a⟩, he, rfl⟩
    obtain ⟨hin, hkeep⟩ := List.mem_filter.mp he
    obtain ⟨hq, rfl⟩ := mem_byPid.mp hin
    exact ⟨hq, hkeep⟩
  · rintro ⟨hp, hkeep⟩
    exact ⟨(p, _), List.mem_filter.mpr ⟨mem_byPid.mpr ⟨hp, rfl⟩, hkeep⟩, rfl⟩

/-- The pids of one class come in increasing order, each once. -/
theorem pairwise_pidsMatching (keep : Attribution → Bool) :
    ((attributeTree tree roots expected).pidsMatching keep).Pairwise (· < ·) := by
  set report := attributeTree tree roots expected
  have hnodup : ((report.byPid.filter fun e => keep e.2).map (·.1)).Nodup :=
    (nodup_byPid : (report.byPid.map (·.1)).Nodup).sublist (List.filter_sublist.map _)
  have hsorted : (report.pidsMatching keep).Pairwise (· ≤ ·) := List.pairwise_insertionSort _ _
  have hnodup' : (report.pidsMatching keep).Nodup :=
    (List.perm_insertionSort _ _).nodup_iff.mpr hnodup
  exact (hsorted.and hnodup').imp fun h => lt_of_le_of_ne h.1 h.2

end

/-- A process that could not be cleanly attributed. -/
structure FlaggedProcess where
  pid : Pid
  name : String
  bytes : Nat
  deriving DecidableEq, Repr

/-- The result of a reconciliation sweep. -/
structure ReconciliationReport where
  processCount : Nat
  attributedFraction : Float
  escaped : List FlaggedProcess
  unknown : List FlaggedProcess

/-- Reconcile an already-sampled tree. -/
def reconcileTree (tree : ProcessTree) (roots : List RootSpec) (expected : KeyMap Pid String) :
    ReconciliationReport :=
  let report := attributeTree tree roots expected
  let flag (pid : Pid) : FlaggedProcess :=
    { pid := pid
      name := ((tree.get pid).map (·.name)).getD ""
      bytes := ((tree.get pid).map (·.accountedBytes)).getD 0 }
  { processCount := tree.pids.length
    attributedFraction := report.attributedFraction
    escaped := report.escapedPids.map flag
    unknown := report.unknownPids.map flag }

end MemMux
