/-
MemMux/Managed.lean

What a managed reconciliation reports (`managed_reconcile` in `memmuxd/src/daemon.rs`).

The sweep classifies the managed pids on a tree that holds nothing else of the host.  Cutting the
rest away does not change whether a task root lies at or above a pid (`atOrAbove_managedTree`): every
pid between a sampled root and a descendant of it is itself a descendant, hence managed.  So a
managed pid is owned, or it was seen under a task and is reported as escaped; none is unknown,
and the attributed fraction is one.
-/
import MemMux.Binary64
import MemMux.Pump

namespace MemMux

open Relation

/-! ### The managed tree -/

/-- The managed pids: each sampled root with its descendants, and the sampled pids ever seen. -/
def managedPids (tree : ProcessTree) (roots : List (String × Pid))
    (seen : KeyMap String (List Pid)) : List Pid :=
  ((roots.flatMap fun r => if (tree.get r.2).isSome then r.2 :: tree.descendants r.2 else []) ++
    (KeyMap.values seen).flatMap fun pids => pids.filter fun p => (tree.get p).isSome).dedup

/-- The tree the sweep runs on. -/
def managedTree (tree : ProcessTree) (roots : List (String × Pid))
    (seen : KeyMap String (List Pid)) : ProcessTree :=
  ProcessTree.fromSamples ((managedPids tree roots seen).filterMap tree.get)

/-- The roots of the sweep, one for each task. -/
def managedRoots (roots : List (String × Pid)) : List RootSpec :=
  roots.map fun r => ⟨r.2, .task r.1⟩

/-- The task each seen pid was reported for. -/
def managedExpected (seen : KeyMap String (List Pid)) : KeyMap Pid String :=
  KeyMap.ofList (seen.entries.flatMap fun e => e.2.map fun p => (p, e.1))

theorem managedReconcile_eq (tree : ProcessTree) (roots : List (String × Pid))
    (seen : KeyMap String (List Pid)) :
    managedReconcile tree roots seen
      = reconcileTree (managedTree tree roots seen) (managedRoots roots) (managedExpected seen) :=
  rfl

/-- Some task's set of seen pids holds `p`. -/
def WasSeen (seen : KeyMap String (List Pid)) (p : Pid) : Prop := ∃ e ∈ seen.entries, p ∈ e.2

/-- A sampled task root is `p` or lies above it. -/
def UnderRoot (tree : ProcessTree) (roots : List (String × Pid)) (p : Pid) : Prop :=
  ∃ r ∈ roots, (tree.get r.2).isSome ∧ ReflTransGen tree.IsChild r.2 p

section Managed

variable {tree : ProcessTree} {roots : List (String × Pid)} {seen : KeyMap String (List Pid)}

theorem UnderRoot.isSome {p : Pid} (h : UnderRoot tree roots p) : (tree.get p).isSome := by
  obtain ⟨r, -, hr, hrp⟩ := h
  rcases reflTransGen_iff_eq_or_transGen.mp hrp with rfl | hrp
  · exact hr
  · exact ProcessTree.isSome_of_reach hrp

/-- The managed pids are those under a root and the sampled ones ever seen. -/
theorem mem_managedPids {p : Pid} :
    p ∈ managedPids tree roots seen
      ↔ UnderRoot tree roots p ∨ (tree.get p).isSome ∧ WasSeen seen p := by
  rw [managedPids, List.mem_dedup, List.mem_append]
  -- the two halves of the list: trees of the roots, and seen pids
  refine or_congr ?_ ?_
  · rw [List.mem_flatMap]
    constructor
    · rintro ⟨r, hr, hp⟩
      split at hp
      · next hsome => exact ⟨r, hr, hsome, ProcessTree.mem_subtree.mp hp⟩
      · cases hp
    · rintro ⟨r, hr, hsome, hrp⟩
      refine ⟨r, hr, ?_⟩
      rw [if_pos hsome]
      exact ProcessTree.mem_subtree.mpr hrp
  · simp only [List.mem_flatMap, KeyMap.values, List.mem_map, List.mem_filter]
    constructor
    · rintro ⟨_, ⟨e, he, rfl⟩, hp, hsome⟩
      exact ⟨hsome, e, he, hp⟩
    · rintro ⟨hsome, e, he, hp⟩
      exact ⟨_, ⟨e, he, rfl⟩, hp, hsome⟩

theorem isSome_of_managed {p : Pid} (h : p ∈ managedPids tree roots seen) :
    (tree.get p).isSome :=
  (mem_managedPids.mp h).elim UnderRoot.isSome fun h => h.1

/-- The samples of the managed tree are the host's samples of managed pids. -/
theorem mem_managedTree {s : ProcessSample} :
    s ∈ (managedTree tree roots seen).samples
      ↔ s.pid ∈ managedPids tree roots seen ∧ tree.get s.pid = some s := by
  show s ∈ (managedPids tree roots seen).filterMap tree.get ↔ _
  rw [List.mem_filterMap]
  constructor
  · rintro ⟨p, hp, hs⟩
    obtain ⟨-, rfl⟩ := ProcessTree.mem_of_get hs
    exact ⟨hp, hs⟩
  · rintro ⟨hp, hs⟩
    exact ⟨s.pid, hp, hs⟩

/-- The pids of the managed tree, in order, are the managed pids. -/
theorem pids_managedTree :
    (managedTree tree roots seen).samples.map (·.pid) = managedPids tree roots seen := by
  have key : ∀ l : List Pid, (∀ p ∈ l, (tree.get p).isSome) →
      (l.filterMap tree.get).map (·.pid) = l := by
    intro l hl
    induction l with
    | nil => rfl
    | cons p l ih =>
        obtain ⟨s, hs⟩ := Option.isSome_iff_exists.mp (hl p List.mem_cons_self)
        rw [List.filterMap_cons_some hs, List.map_cons, (ProcessTree.mem_of_get hs).2,
          ih fun q hq => hl q (List.mem_cons_of_mem _ hq)]
  exact key _ fun p hp => isSome_of_managed hp

theorem distinct_managedTree : (managedTree tree roots seen).Distinct := by
  rw [ProcessTree.Distinct, pids_managedTree]
  exact List.nodup_dedup _

theorem isSome_managedTree {p : Pid} :
    ((managedTree tree roots seen).get p).isSome ↔ p ∈ managedPids tree roots seen := by
  rw [ProcessTree.isSome_get, ← @pids_managedTree tree, List.mem_map]

/-! ### Cutting the host away -/

theorem isChild_of_managedTree {p q : Pid} (h : (managedTree tree roots seen).IsChild p q) :
    tree.IsChild p q := by
  obtain ⟨s, hs, hq, hp⟩ := h
  exact ⟨s, (ProcessTree.mem_of_get (mem_managedTree.mp hs).2).1, hq, hp⟩

/-- Below a sampled root the managed tree has every parent link of the host. -/
theorem isChild_managedTree (ht : tree.Distinct) {p q : Pid} (hp : UnderRoot tree roots p)
    (h : tree.IsChild p q) : (managedTree tree roots seen).IsChild p q := by
  obtain ⟨r, hr, hsome, hrp⟩ := hp
  obtain ⟨s, hs, rfl, rfl⟩ := h
  have hq : UnderRoot tree roots s.pid := ⟨r, hr, hsome, hrp.tail ⟨s, hs, rfl, rfl⟩⟩
  refine ⟨s, mem_managedTree.mpr ⟨mem_managedPids.mpr (.inl hq), ?_⟩, rfl, rfl⟩
  exact ht.get_iff.mpr ⟨hs, rfl⟩

/-- Cutting the rest of the host away keeps every path down from a sampled root. -/
theorem reach_managedTree (ht : tree.Distinct) {r : String × Pid} (hr : r ∈ roots)
    (hsome : (tree.get r.2).isSome) {p : Pid} (h : ReflTransGen tree.IsChild r.2 p) :
    ReflTransGen (managedTree tree roots seen).IsChild r.2 p := by
  induction h with
  | refl => exact .refl
  | tail habove h ih => exact ih.tail (isChild_managedTree ht ⟨r, hr, hsome, habove⟩ h)

/-- **A task root is at or above a pid of the managed tree exactly when it is so on the host.** -/
theorem atOrAbove_managedTree (ht : tree.Distinct) {r : String × Pid} (hr : r ∈ roots) {p : Pid} :
    (managedTree tree roots seen).AtOrAbove r.2 p ↔ tree.AtOrAbove r.2 p := by
  constructor
  · rintro ⟨hmanaged, hrp⟩
    exact ⟨isSome_of_managed (isSome_managedTree.mp hmanaged),
      ReflTransGen.mono (fun _ _ h => isChild_of_managedTree h) _ _ hrp⟩
  · rintro ⟨hsome, hrp⟩
    have hmanaged : r.2 ∈ managedPids tree roots seen :=
      mem_managedPids.mpr (.inl ⟨r, hr, hsome, .refl⟩)
    exact ⟨isSome_managedTree.mpr hmanaged, reach_managedTree ht hr hsome hrp⟩

/-- No task root is found for a sampled pid exactly when it is under none. -/
theorem nearestAncestorIn_managedRoots {t : ProcessTree} (ht : t.Distinct) {p : Pid}
    (hp : (t.get p).isSome) :
    t.nearestAncestorIn p
        (KeyMap.ofList ((managedRoots roots).map fun r => (r.pid, r.owner))).keys = none
      ↔ ¬ UnderRoot t roots p := by
  rw [nearestAncestorIn_roots ht hp]
  constructor
  · rintro hnone ⟨r, hr, hrp⟩
    exact hnone ⟨r.2, .task r.1⟩ (List.mem_map.mpr ⟨r, hr, rfl⟩) hrp
  · intro hnot spec hspec hrp
    obtain ⟨r, hr, rfl⟩ := List.mem_map.mp hspec
    exact hnot ⟨r, hr, hrp⟩

/-- **A sweep finds a root at or above a managed pid exactly when the host has one there.** -/
theorem nearestAncestorIn_managedTree (ht : tree.Distinct) {p : Pid}
    (hp : p ∈ managedPids tree roots seen) :
    (managedTree tree roots seen).nearestAncestorIn p
        (KeyMap.ofList ((managedRoots roots).map fun r => (r.pid, r.owner))).keys = none
      ↔ ¬ UnderRoot tree roots p := by
  rw [nearestAncestorIn_managedRoots distinct_managedTree (isSome_managedTree.mpr hp)]
  refine not_congr (exists_congr fun r => and_congr_right fun hr => ?_)
  exact atOrAbove_managedTree ht hr

/-! ### The classes of a sweep -/

/-- How the sweep classifies a pid. -/
def managedAttribution (tree : ProcessTree) (roots : List (String × Pid))
    (seen : KeyMap String (List Pid)) (p : Pid) : Attribution :=
  attributionOf (managedTree tree roots seen) (managedRoots roots) (managedExpected seen) p

theorem mem_managedExpected {p : Pid} : p ∈ managedExpected seen ↔ WasSeen seen p := by
  rw [managedExpected, KeyMap.mem_ofList]
  simp [WasSeen]

/-- Every root of a sweep is a task's. -/
theorem attributionOf_managedRoots {t : ProcessTree} {expected : KeyMap Pid String} {p root : Pid}
    (h : t.nearestAncestorIn p
      (KeyMap.ofList ((managedRoots roots).map fun r => (r.pid, r.owner))).keys = some root) :
    ∃ task, attributionOf t (managedRoots roots) expected p = .owned task := by
  obtain ⟨_, hspec, hclass⟩ := attributionOf_of_some h
  obtain ⟨r, -, rfl⟩ := List.mem_map.mp hspec
  exact ⟨r.1, hclass⟩

/-- **A managed pid under a task root is owned by a task.** -/
theorem managedAttribution_of_underRoot (ht : tree.Distinct) {p : Pid}
    (h : UnderRoot tree roots p) :
    ∃ task, managedAttribution tree roots seen p = .owned task := by
  have hp : p ∈ managedPids tree roots seen := mem_managedPids.mpr (.inl h)
  cases hroot : (managedTree tree roots seen).nearestAncestorIn p
      (KeyMap.ofList ((managedRoots roots).map fun r => (r.pid, r.owner))).keys with
  | none => exact absurd h ((nearestAncestorIn_managedTree ht hp).mp hroot)
  | some root => exact attributionOf_managedRoots hroot

/-- **A managed pid under no task root is one that was seen, and is reported as escaped.** -/
theorem managedAttribution_of_not_underRoot (ht : tree.Distinct) {p : Pid}
    (hp : p ∈ managedPids tree roots seen) (h : ¬ UnderRoot tree roots p) :
    ∃ task, managedAttribution tree roots seen p = .escaped task := by
  have hseen : WasSeen seen p := ((mem_managedPids.mp hp).resolve_left h).2
  obtain ⟨task, htask⟩ := KeyMap.mem_iff_lookup.mp (mem_managedExpected.mpr hseen)
  rw [managedAttribution, attributionOf_of_none ((nearestAncestorIn_managedTree ht hp).mpr h), htask]
  exact ⟨task, rfl⟩

/-- The pids of one class, among the managed ones. -/
theorem mem_managedMatching {keep : Attribution → Bool} {p : Pid} :
    p ∈ (attributeTree (managedTree tree roots seen) (managedRoots roots)
        (managedExpected seen)).pidsMatching keep
      ↔ p ∈ managedPids tree roots seen ∧ keep (managedAttribution tree roots seen p) := by
  rw [mem_pidsMatching, isSome_managedTree]
  rfl

/-- A pid is escaped for the sweep when it was sampled, was seen, and is under no root. -/
theorem mem_escapedPids (ht : tree.Distinct) {p : Pid} :
    p ∈ (attributeTree (managedTree tree roots seen) (managedRoots roots)
        (managedExpected seen)).escapedPids
      ↔ (tree.get p).isSome ∧ WasSeen seen p ∧ ¬ UnderRoot tree roots p := by
  rw [AttributionReport.escapedPids, mem_managedMatching]
  constructor
  · rintro ⟨hp, hkeep⟩
    have hnot : ¬ UnderRoot tree roots p := by
      intro h
      obtain ⟨task, htask⟩ := @managedAttribution_of_underRoot tree roots seen ht p h
      simp [htask] at hkeep
    obtain ⟨hsome, hseen⟩ := (mem_managedPids.mp hp).resolve_left hnot
    exact ⟨hsome, hseen, hnot⟩
  · rintro ⟨hsome, hseen, hnot⟩
    have hp : p ∈ managedPids tree roots seen := mem_managedPids.mpr (.inr ⟨hsome, hseen⟩)
    obtain ⟨task, htask⟩ := managedAttribution_of_not_underRoot ht hp hnot
    exact ⟨hp, by rw [htask]⟩

/-- No managed pid is unknown to the sweep. -/
theorem managedAttribution_ne_unknown (ht : tree.Distinct) {p : Pid}
    (hp : p ∈ managedPids tree roots seen) : managedAttribution tree roots seen p ≠ .unknown := by
  by_cases h : UnderRoot tree roots p
  · obtain ⟨task, htask⟩ := @managedAttribution_of_underRoot tree roots seen ht p h
    rw [htask]
    exact nofun
  · obtain ⟨task, htask⟩ := managedAttribution_of_not_underRoot ht hp h
    rw [htask]
    exact nofun

theorem unknownPids_eq_nil (ht : tree.Distinct) :
    (attributeTree (managedTree tree roots seen) (managedRoots roots)
      (managedExpected seen)).unknownPids = [] := by
  refine List.eq_nil_iff_forall_not_mem.mpr fun p h => ?_
  obtain ⟨hp, hkeep⟩ := mem_managedMatching.mp h
  have hne := managedAttribution_ne_unknown ht hp
  generalize managedAttribution tree roots seen p = a at hkeep hne
  cases a <;> simp_all

/-! ### Bytes -/

/-- The sweep counts no byte as unknown. -/
theorem unknownBytes_eq_zero (ht : tree.Distinct) :
    (attributeTree (managedTree tree roots seen) (managedRoots roots)
      (managedExpected seen)).unknownBytes = 0 := by
  refine congrArg wrapSum
    (List.map_eq_nil_iff.mpr (List.filter_eq_nil_iff.mpr fun e he hkeep => ?_))
  obtain ⟨p, a⟩ := e
  obtain ⟨hp, rfl⟩ := mem_byPid.mp he
  have hne := managedAttribution_ne_unknown ht (isSome_managedTree.mp hp)
  dsimp only at hkeep
  split at hkeep
  · next h => exact hne h
  · exact Bool.false_ne_true hkeep

/-- **Without unknown bytes the attributed fraction is exactly one.** -/
theorem attributedFraction_of_unknownBytes {r : AttributionReport} (h : r.unknownBytes = 0) :
    r.attributedFraction = 1.0 := by
  have htotal : r.totalBytes = wrapSum [r.ownedBytes, r.sharedBytes, r.escapedBytes] := by
    simp [AttributionReport.totalBytes, wrapSum, h]
  rw [AttributionReport.attributedFraction]
  split
  · rfl
  · next hne =>
    rw [← htotal]
    exact Binary64.ofNat_div_self hne (Nat.mod_lt _ (by decide))

/-- **A managed reconciliation is exact**: it reports nothing unknown and counts no unknown bytes,
so that the attributed fraction is one and the gate at 0.95 stays open; and the escaped pids are,
in increasing order, the sampled pids seen under a task that no sampled root is, or lies
above, in the tree of the whole host. -/
theorem managedReconcile_exact (tree : ProcessTree) (ht : (tree.samples.map (·.pid)).Nodup)
    (roots : List (String × Pid)) (seen : KeyMap String (List Pid)) :
    (managedReconcile tree roots seen).unknown = [] ∧
      (attributeTree (managedTree tree roots seen) (managedRoots roots)
        (managedExpected seen)).unknownBytes = 0 ∧
      (managedReconcile tree roots seen).attributedFraction = 1.0 ∧
      ¬ (managedReconcile tree roots seen).attributedFraction < 0.95 ∧
      ((managedReconcile tree roots seen).escaped.map (·.pid)).Pairwise (· < ·) ∧
      ∀ p, p ∈ (managedReconcile tree roots seen).escaped.map (·.pid) ↔
        (tree.get p).isSome ∧ (∃ e ∈ seen.entries, p ∈ e.2) ∧
          ¬ ∃ r ∈ roots, (tree.get r.2).isSome ∧ ReflTransGen tree.IsChild r.2 p := by
  have hone : (managedReconcile tree roots seen).attributedFraction = 1.0 := by
    rw [managedReconcile_eq, reconcileTree]
    dsimp only
    rw [attributedFraction_of_unknownBytes (unknownBytes_eq_zero ht)]
  have hescaped : (managedReconcile tree roots seen).escaped.map (·.pid)
      = (attributeTree (managedTree tree roots seen) (managedRoots roots)
          (managedExpected seen)).escapedPids := by
    rw [managedReconcile_eq, reconcileTree, List.map_map]
    exact List.map_id' _
  refine ⟨?_, unknownBytes_eq_zero ht, hone, ?_, ?_, fun p => ?_⟩
  · rw [managedReconcile_eq, reconcileTree, unknownPids_eq_nil ht]
    rfl
  · rw [hone]
    decide +kernel
  · rw [hescaped]
    exact pairwise_pidsMatching _
  · rw [hescaped]
    exact mem_escapedPids ht

/-- A provider with one child, and a server it once ran that now hangs off init: the hypothesis
of `managedReconcile_exact` is satisfiable. -/
theorem managedReconcile_exact_reparented :
    let tree := ProcessTree.fromSamples [⟨10, 1, "claude", 5, none, none⟩,
      ⟨11, 10, "node", 3, none, none⟩, ⟨12, 1, "server", 2, none, none⟩]
    let seen := KeyMap.ofList [("task_1", [10, 11, 12])]
    (managedReconcile tree [("task_1", 10)] seen).unknown = [] ∧
      (managedReconcile tree [("task_1", 10)] seen).attributedFraction = 1.0 ∧
      ∀ p, p ∈ (managedReconcile tree [("task_1", 10)] seen).escaped.map (·.pid) ↔
        (tree.get p).isSome ∧ (∃ e ∈ seen.entries, p ∈ e.2) ∧
          ¬ ∃ r ∈ [("task_1", (10 : Pid))], (tree.get r.2).isSome ∧
            ReflTransGen tree.IsChild r.2 p := by
  intro tree seen
  obtain ⟨hunknown, -, hone, -, -, hescaped⟩ :=
    managedReconcile_exact tree (by decide) [("task_1", 10)] seen
  exact ⟨hunknown, hone, hescaped⟩

end Managed

end MemMux
