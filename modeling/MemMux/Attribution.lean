/-
MemMux/Attribution.lean

What an attribution says (`attribute` in `memmux-metrics/src/attribution.rs`), and the used bytes of
a sampling (`sample_tick` in `memmuxd/src/daemon.rs`).

A pid is escaped when no root of any owner is at or above it, while the report was about one
task; the two differ where a pid reported for one task sits under a root of another owner.

The sampling walks down from each root, and the attribution walks up from each pid.  When no root
lies above another, the subtrees of the roots are disjoint and hold the owned pids.
-/
import Mathlib.Data.List.Nodup
import MemMux.Daemon
import MemMux.Managed
import MemMux.Walks

namespace MemMux

open Relation

section

variable {tree : ProcessTree} {roots : List RootSpec} {expected : KeyMap Pid String}

/-! ### The class of a pid -/

/-- **A pid is escaped exactly when it was reported and no root is at or above it.** -/
theorem attributionOf_escaped_iff (ht : tree.Distinct) {p : Pid} (hp : (tree.get p).isSome)
    {task : String} :
    attributionOf tree roots expected p = .escaped task
      ↔ (∀ r ∈ roots, ¬ tree.AtOrAbove r.pid p) ∧ expected.lookup p = some task := by
  rw [← nearestAncestorIn_roots ht hp]
  cases hroot : tree.nearestAncestorIn p
      (KeyMap.ofList (roots.map fun r => (r.pid, r.owner))).keys with
  | none =>
      rw [attributionOf_of_none hroot, and_iff_right rfl]
      cases expected.lookup p with
      | none => exact iff_of_false nofun nofun
      | some task' =>
          rw [Option.map_some, Option.getD_some, Attribution.escaped.injEq, Option.some.injEq]
  | some root =>
      obtain ⟨r, -, hclass⟩ := @attributionOf_of_some tree roots expected p root hroot
      rw [hclass]
      refine iff_of_false ?_ fun h => Option.some_ne_none root h.1
      cases r.owner <;> exact nofun

/-! ### Each pid once, and all bytes -/

/-- The accounted bytes of a pid. -/
def accountedOf (tree : ProcessTree) (p : Pid) : Nat := ((tree.get p).map (·.accountedBytes)).getD 0

/-- Over the pids of a tree the accounted bytes are those of its samples. -/
theorem ProcessTree.Distinct.sum_accountedOf (ht : tree.Distinct) :
    (tree.pids.map (accountedOf tree)).sum = (tree.samples.map (·.accountedBytes)).sum := by
  have hpids : tree.pids = tree.samples.map (·.pid) := ht.dedup
  rw [hpids, List.map_map]
  refine congrArg List.sum (List.map_congr_left fun s hs => ?_)
  have hget : tree.get s.pid = some s := ht.get_iff.mpr ⟨hs, rfl⟩
  show accountedOf tree s.pid = s.accountedBytes
  rw [accountedOf, hget]
  rfl

/-- The four classes split a sum. -/
theorem sum_classes (f : Pid → Nat) (es : List (Pid × Attribution)) :
    ((es.filter fun e => match e.2 with | .owned _ => true | _ => false).map fun e => f e.1).sum
      + ((es.filter fun e => match e.2 with | .shared _ => true | _ => false).map fun e => f e.1).sum
      + ((es.filter fun e => match e.2 with | .escaped _ => true | _ => false).map fun e => f e.1).sum
      + ((es.filter fun e => match e.2 with | .unknown => true | _ => false).map fun e => f e.1).sum
      = ((es.map (·.1)).map f).sum := by
  induction es with
  | nil => rfl
  | cons e es ih =>
      obtain ⟨p, a⟩ := e
      rw [List.map_cons, List.map_cons, List.sum_cons, ← ih]
      cases a <;> simp <;> omega

/-- Wrapping the parts of a sum loses nothing but multiples of `u64Size`, and nothing if it fits. -/
theorem wrapped_parts {a b c d total : Nat} (h : a + b + c + d = total) :
    (a % u64Size + b % u64Size + c % u64Size + d % u64Size) % u64Size = total % u64Size ∧
      (total < u64Size → a % u64Size + b % u64Size + c % u64Size + d % u64Size = total) := by
  unfold u64Size
  omega

/-- **The four totals make up the bytes of the whole tree**, up to the wrapping of the sums. -/
theorem total_classes (ht : tree.Distinct) :
    let report := attributeTree tree roots expected
    (report.ownedBytes + report.sharedBytes + report.escapedBytes + report.unknownBytes) % u64Size
        = (tree.samples.map (·.accountedBytes)).sum % u64Size
      ∧ ((tree.samples.map (·.accountedBytes)).sum < u64Size →
          report.ownedBytes + report.sharedBytes + report.escapedBytes + report.unknownBytes
            = (tree.samples.map (·.accountedBytes)).sum) := by
  intro report
  have hsum := sum_classes (accountedOf tree) report.byPid
  rw [byPid_pids, ht.sum_accountedOf] at hsum
  exact wrapped_parts hsum

/-! ### What escaped means -/

/-- **An attribution as documented**: every sampled pid has one class, the four totals make up the
bytes of the tree, and a pid reported for a task is escaped if no root of that task is at or above
it, and only then. -/
structure AttributionExact (tree : ProcessTree) (roots : List RootSpec)
    (expected : KeyMap Pid String) : Prop where
  once : ((attributeTree tree roots expected).byPid.map (·.1)).Nodup
  classified (p : Pid) :
    p ∈ (attributeTree tree roots expected).byPid.map (·.1) ↔ (tree.get p).isSome
  wrapped :
    let report := attributeTree tree roots expected
    (report.ownedBytes + report.sharedBytes + report.escapedBytes + report.unknownBytes) % u64Size
      = (tree.samples.map (·.accountedBytes)).sum % u64Size
  total :
    let report := attributeTree tree roots expected
    (tree.samples.map (·.accountedBytes)).sum < u64Size →
      report.ownedBytes + report.sharedBytes + report.escapedBytes + report.unknownBytes
        = (tree.samples.map (·.accountedBytes)).sum
  escaped (p : Pid) (task : String) : (tree.get p).isSome → expected.lookup p = some task →
    ((p, .escaped task) ∈ (attributeTree tree roots expected).byPid
      ↔ ¬ ∃ r ∈ roots, r.owner = .task task ∧ tree.AtOrAbove r.pid p)

/-- No reported pid has left its task's subtree for that of another owner. -/
def StraysOutside (tree : ProcessTree) (roots : List RootSpec) (expected : KeyMap Pid String) : Prop :=
  ∀ p task, (tree.get p).isSome → expected.lookup p = some task →
    (∃ r ∈ roots, tree.AtOrAbove r.pid p) →
      ∃ r ∈ roots, r.owner = .task task ∧ tree.AtOrAbove r.pid p

/-- **When an attribution is exact.**  The classes are single and the totals complete on any tree;
escapes are told apart exactly if no reported pid has left for the subtree of another owner. -/
theorem attributionExact_iff (ht : (tree.samples.map (·.pid)).Nodup) :
    AttributionExact tree roots expected ↔ StraysOutside tree roots expected := by
  constructor
  · intro h p task hp htask hunder
    by_contra hnone
    obtain ⟨-, hclass⟩ := mem_byPid.mp ((h.escaped p task hp htask).mpr hnone)
    obtain ⟨hno, -⟩ := (attributionOf_escaped_iff ht hp).mp hclass
    obtain ⟨r, hr, habove⟩ := hunder
    exact hno r hr habove
  · intro h
    obtain ⟨hwrapped, htotal⟩ := @total_classes tree roots expected ht
    refine ⟨nodup_byPid, fun p => by rw [byPid_pids, ProcessTree.mem_pids],
      hwrapped, htotal, fun p task hp htask => ?_⟩
    rw [mem_byPid, and_iff_right hp, attributionOf_escaped_iff ht hp, and_iff_left htask]
    constructor
    · rintro hno ⟨r, hr, -, habove⟩
      exact hno r hr habove
    · intro hnone r hr habove
      exact hnone (h p task hp htask ⟨r, hr, habove⟩)

/-- A server that task A launched and that task B's provider adopted. -/
def adopted : ProcessTree :=
  ProcessTree.fromSamples [⟨1, 0, "init", 5, none, none⟩, ⟨10, 1, "claude", 8, none, none⟩,
    ⟨20, 1, "codex", 8, none, none⟩, ⟨21, 20, "server", 3, none, none⟩]

/-- The adopted server is reported for A, is outside A's subtree, and counts as owned by B. -/
theorem adopted_not_escaped :
    let roots := [⟨10, .task "A"⟩, ⟨20, .task "B"⟩]
    let expected := KeyMap.ofList [(21, "A")]
    (21, Attribution.owned "B") ∈ (attributeTree adopted roots expected).byPid ∧
      ¬ AttributionExact adopted roots expected := by
  intro roots expected
  refine ⟨by decide +kernel, fun h => ?_⟩
  have hout : ¬ ∃ r ∈ roots, r.owner = .task "A" ∧ adopted.AtOrAbove r.pid 21 := by
    rintro ⟨r, hr, hA, -, hreach⟩
    have hno : ∀ r ∈ roots, r.owner = .task "A" → 21 ∉ r.pid :: adopted.descendants r.pid := by
      decide +kernel
    exact hno r hr hA (ProcessTree.mem_subtree.mpr hreach)
  have hin := (h.escaped 21 "A" (by decide) (by decide)).mpr hout
  exact absurd hin (by decide +kernel)

/-- A server that left task A for init: the hypothesis of `attributionExact_iff` is satisfiable. -/
theorem attributionExact_reparented :
    let tree := ProcessTree.fromSamples [⟨1, 0, "init", 5, none, none⟩,
      ⟨10, 1, "claude", 8, none, none⟩, ⟨11, 1, "server", 3, none, none⟩]
    AttributionExact tree [⟨10, .task "A"⟩] (KeyMap.ofList [(11, "A")])
      ↔ StraysOutside tree [⟨10, .task "A"⟩] (KeyMap.ofList [(11, "A")]) :=
  attributionExact_iff (by decide)

end

/-! ### Sampled and attributed bytes -/

section

variable {tree : ProcessTree}

/-- With distinct pids no process has two parents, so of two pids above a third one lies above the
other. -/
theorem ProcessTree.Distinct.above_or_above (ht : tree.Distinct) {p q x : Pid}
    (hp : ReflTransGen tree.IsChild p x) (hq : ReflTransGen tree.IsChild q x) :
    ReflTransGen tree.IsChild p q ∨ ReflTransGen tree.IsChild q p := by
  rw [ht.isChild_eq] at hp hq ⊢
  have hparent : Relator.RightUnique (Function.swap tree.IsParent) := by
    rintro x p q ⟨s, hs, rfl⟩ ⟨s', hs', rfl⟩
    rw [Option.some.inj (hs.symm.trans hs')]
  have hboth := ReflTransGen.total_of_right_unique hparent (reflTransGen_swap.mpr hp)
    (reflTransGen_swap.mpr hq)
  exact hboth.symm.imp reflTransGen_swap.mp reflTransGen_swap.mp

/-- **Roots that do not lie above one another have disjoint subtrees.** -/
theorem nodup_subtrees (ht : tree.Distinct) {roots : List Pid} (hnodup : roots.Nodup)
    (hsampled : ∀ r ∈ roots, (tree.get r).isSome)
    (hapart : ∀ r ∈ roots, ∀ r' ∈ roots, r ∉ tree.ancestors r') :
    (roots.flatMap fun r => r :: tree.descendants r).Nodup := by
  -- a root other than `r'` that reaches `r'` is an ancestor of it
  have hnot : ∀ r ∈ roots, ∀ r' ∈ roots, r ≠ r' → ¬ ReflTransGen tree.IsChild r r' := by
    intro r hr r' hr' hne hreach
    have habove := (reflTransGen_iff_eq_or_transGen.mp hreach).resolve_left hne.symm
    exact hapart r hr r' hr' (ht.mem_ancestors.mpr ⟨hne, hsampled r hr, habove⟩)
  refine List.nodup_flatMap.mpr ⟨fun r _ => ?_, hnodup.imp_of_mem fun hr hr' hne => ?_⟩
  · obtain ⟨hdown, hself⟩ := (tree.runs_descendants r).nodup
    exact List.nodup_cons.mpr ⟨fun h => hself r h List.mem_cons_self, hdown⟩
  · intro p hp hp'
    rcases ht.above_or_above (ProcessTree.mem_subtree.mp hp) (ProcessTree.mem_subtree.mp hp')
      with hreach | hreach
    · exact hnot _ hr _ hr' hne hreach
    · exact hnot _ hr' _ hr hne.symm hreach

/-- The pids that an attribution to task roots counts as owned. -/
def ownedPids (tree : ProcessTree) (roots : List (String × Pid)) (expected : KeyMap Pid String) :
    List Pid :=
  ((attributeTree tree (managedRoots roots) expected).byPid.filter fun e =>
    match e.2 with | .owned _ => true | _ => false).map (·.1)

variable {roots : List (String × Pid)} {expected : KeyMap Pid String}

theorem ownedBytes_eq : (attributeTree tree (managedRoots roots) expected).ownedBytes
    = wrapSum ((ownedPids tree roots expected).map (accountedOf tree)) := by
  rw [ownedPids, List.map_map]
  rfl

theorem nodup_ownedPids : (ownedPids tree roots expected).Nodup :=
  nodup_byPid.sublist (List.filter_sublist.map _)

/-- With task roots only, a pid is owned exactly when one of them is at or above it. -/
theorem attributionOf_owned_iff (ht : tree.Distinct) {p : Pid} (hp : (tree.get p).isSome) :
    (∃ task, attributionOf tree (managedRoots roots) expected p = .owned task)
      ↔ UnderRoot tree roots p := by
  have hnone := @nearestAncestorIn_managedRoots roots tree ht p hp
  cases hroot : tree.nearestAncestorIn p
      (KeyMap.ofList ((managedRoots roots).map fun r => (r.pid, r.owner))).keys with
  | none =>
      rw [attributionOf_of_none hroot]
      refine iff_of_false ?_ (hnone.mp hroot)
      rintro ⟨task, htask⟩
      cases hlook : expected.lookup p <;> simp [hlook] at htask
  | some root =>
      refine iff_of_true (attributionOf_managedRoots hroot) ?_
      by_contra hnot
      exact Option.some_ne_none root (hroot.symm.trans (hnone.mpr hnot))

theorem mem_ownedPids {p : Pid} : p ∈ ownedPids tree roots expected
    ↔ ∃ task, (p, .owned task) ∈ (attributeTree tree (managedRoots roots) expected).byPid := by
  rw [ownedPids, List.mem_map]
  constructor
  · rintro ⟨⟨q, a⟩, he, rfl⟩
    obtain ⟨hin, hkeep⟩ := List.mem_filter.mp he
    cases a with
    | owned task => exact ⟨task, hin⟩
    | shared _ => exact absurd hkeep Bool.false_ne_true
    | escaped _ => exact absurd hkeep Bool.false_ne_true
    | unknown => exact absurd hkeep Bool.false_ne_true
  · rintro ⟨task, hin⟩
    exact ⟨(p, .owned task), List.mem_filter.mpr ⟨hin, rfl⟩, rfl⟩

/-- The pids that the sampling walks over are the owned ones. -/
theorem mem_subtrees_iff (ht : tree.Distinct) (hsampled : ∀ r ∈ roots, (tree.get r.2).isSome)
    {p : Pid} :
    p ∈ (roots.flatMap fun r => r.2 :: tree.descendants r.2) ↔ p ∈ ownedPids tree roots expected := by
  have hunder : p ∈ (roots.flatMap fun r => r.2 :: tree.descendants r.2) ↔ UnderRoot tree roots p := by
    rw [List.mem_flatMap]
    constructor
    · rintro ⟨r, hr, hp⟩
      exact ⟨r, hr, hsampled r hr, ProcessTree.mem_subtree.mp hp⟩
    · rintro ⟨r, hr, -, hreach⟩
      exact ⟨r, hr, ProcessTree.mem_subtree.mpr hreach⟩
  rw [hunder, mem_ownedPids]
  constructor
  · intro h
    obtain ⟨task, hclass⟩ := (attributionOf_owned_iff ht h.isSome).mpr h
    exact ⟨task, mem_byPid.mpr ⟨h.isSome, hclass⟩⟩
  · rintro ⟨task, hin⟩
    obtain ⟨hp, hclass⟩ := mem_byPid.mp hin
    exact (attributionOf_owned_iff ht hp).mp ⟨task, hclass⟩

/-- The sum that a sampling stores is that of the pids it walks over. -/
theorem usedBytes_sampleAll (h : Host) (now : UInt64) (w : World) :
    (sampleAll h tree roots now w).mem.usedBytes
      = wrapSum ((roots.flatMap fun r => r.2 :: tree.descendants r.2).map (accountedOf tree)) := by
  rw [List.map_flatMap, ← wrapSum_flatMap]
  rfl

/-- **A sampling and an attribution count the same bytes**: if no task root is an ancestor of
another, the used bytes are the owned bytes, whatever was reported; the sampling walks over no
process twice, and over the owned ones exactly. -/
theorem used_eq_owned (h : Host) (now : UInt64) (w : World)
    (ht : (tree.samples.map (·.pid)).Nodup) (hnodup : (roots.map (·.2)).Nodup)
    (hsampled : ∀ r ∈ roots, (tree.get r.2).isSome)
    (hapart : ∀ r ∈ roots, ∀ r' ∈ roots, r.2 ∉ tree.ancestors r'.2) :
    (sampleAll h tree roots now w).mem.usedBytes
        = (attributeTree tree (managedRoots roots) expected).ownedBytes ∧
      (roots.flatMap fun r => r.2 :: tree.descendants r.2).Nodup ∧
      ∀ p, p ∈ (roots.flatMap fun r => r.2 :: tree.descendants r.2) ↔
        ∃ task, (p, .owned task) ∈ (attributeTree tree (managedRoots roots) expected).byPid := by
  have hwalked : (roots.flatMap fun r => r.2 :: tree.descendants r.2).Nodup := by
    rw [← List.flatMap_map (fun r : String × Pid => r.2) fun p => p :: tree.descendants p]
    refine nodup_subtrees ht hnodup ?_ ?_
    · exact List.forall_mem_map.mpr hsampled
    · exact List.forall_mem_map.mpr fun r hr => List.forall_mem_map.mpr (hapart r hr)
  have hperm : List.Perm (roots.flatMap fun r => r.2 :: tree.descendants r.2)
      (ownedPids tree roots expected) :=
    (List.perm_ext_iff_of_nodup hwalked nodup_ownedPids).mpr fun _ => mem_subtrees_iff ht hsampled
  refine ⟨?_, hwalked, fun p => (mem_subtrees_iff ht hsampled).trans mem_ownedPids⟩
  rw [usedBytes_sampleAll, ownedBytes_eq]
  exact congrArg (· % u64Size) (hperm.map _).sum_eq

/-- Two tasks of the adopted server's host: the hypotheses of `used_eq_owned` are satisfiable. -/
theorem used_eq_owned_adopted :
    let roots := [("A", (10 : Pid)), ("B", 20)]
    (sampleAll steadyHost adopted roots 0 runningWorld).mem.usedBytes
        = (attributeTree adopted (managedRoots roots) ∅).ownedBytes ∧
      ∀ p, p ∈ (roots.flatMap fun r => r.2 :: adopted.descendants r.2) ↔
        ∃ task, (p, .owned task) ∈ (attributeTree adopted (managedRoots roots) ∅).byPid := by
  intro roots
  obtain ⟨hbytes, -, hpids⟩ := @used_eq_owned adopted roots ∅ steadyHost 0 runningWorld (by decide)
    (by decide) (by decide) (by decide +kernel)
  exact ⟨hbytes, hpids⟩

end

end MemMux
