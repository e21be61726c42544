/-
MemMux/Accounting.lean

The accounting of one snapshot in the benchmark (`memmux-bench/src/sampler.rs`): which processes are
an agent's, which are the multiplexer's own, and what they hold.

The subtrees of the roots overlap in any way, agents below the multiplexer most of all.  A process is
counted once all the same, and with the agents if it is below both (`counts_once`).
-/
import Mathlib.Algebra.BigOperators.Group.Finset.Basic
import MemMux.Attribution

namespace MemMux

open Relation

/-! ### Folds that insert -/

/-- A loop that inserts elements into a set, if each round inserts those that stand in a relation to
its item, inserts those that stand in it to some item. -/
theorem mem_foldl_of_step {α β : Type} {f : Finset α → β → Finset α} {P : β → α → Prop}
    (hstep : ∀ s b a, a ∈ f s b ↔ a ∈ s ∨ P b a) (bs : List β) (s : Finset α) (a : α) :
    a ∈ bs.foldl f s ↔ a ∈ s ∨ ∃ b ∈ bs, P b a := by
  induction bs generalizing s with
  | nil => simp
  | cons b bs ih =>
      rw [List.foldl_cons, ih, hstep, List.exists_mem_cons_iff, or_assoc]

/-! ### Providers and managers -/

/-- Where a launcher's processes hang: the roots of its own process trees, and those of the agents. -/
structure LaunchTopology where
  managerPids : List Pid
  agentRoots : List Pid
  deriving DecidableEq, Repr

/-- The body of the loops of `partition`: the subtree of one root, less the pids to leave out. -/
def insertSubtree (tree : ProcessTree) (out set : Finset Pid) (root : Pid) : Finset Pid :=
  let set := if (tree.get root).isSome ∧ root ∉ out then insert root set else set
  (tree.descendants root).foldl (fun set d => if d ∉ out then insert d set else set) set

/-- Partition a tree into the pids of the agents and those of the multiplexer only. -/
def partition (tree : ProcessTree) (topology : LaunchTopology) : Finset Pid × Finset Pid :=
  let provider := topology.agentRoots.foldl (insertSubtree tree ∅) ∅
  (provider, topology.managerPids.foldl (insertSubtree tree provider) ∅)

/-- The provider-vs-manager accounting of one snapshot. -/
structure SampleAccounting where
  totalBytes : Nat
  providerBytes : Nat
  managerOverheadBytes : Nat
  providerProcCount : Nat
  managerProcCount : Nat
  unknownProcCount : Nat
  deriving DecidableEq, Repr

/-- The accounted bytes of a set of pids. -/
def bytesOf (tree : ProcessTree) (pids : Finset Pid) : Nat :=
  (∑ p ∈ pids, accountedOf tree p) % u64Size

/-- Classify a process tree into provider and manager-overhead accounting for a topology. -/
def classify (tree : ProcessTree) (topology : LaunchTopology) : SampleAccounting :=
  let (provider, manager) := partition tree topology
  let providerBytes := bytesOf tree provider
  let managerOverheadBytes := bytesOf tree manager
  { totalBytes := (providerBytes + managerOverheadBytes) % u64Size
    providerBytes := providerBytes
    managerOverheadBytes := managerOverheadBytes
    providerProcCount := provider.card
    managerProcCount := manager.card
    unknownProcCount := 0 }

/-! ### At or above -/

/-- `r` is `p`, or is met on the way up from `p` along the parent links; it need not be sampled. -/
def ProcessTree.Above (tree : ProcessTree) (r p : Pid) : Prop := ReflTransGen tree.IsParent r p

variable {tree : ProcessTree}

theorem ProcessTree.Distinct.above_iff (ht : tree.Distinct) {r p : Pid} :
    tree.Above r p ↔ p = r ∨ p ∈ tree.descendants r := by
  rw [← List.mem_cons, ProcessTree.mem_subtree, ht.isChild_eq, ProcessTree.Above]

/-- **One subtree inserts the sampled pids below its root**, but for those to leave out. -/
theorem mem_insertSubtree (ht : tree.Distinct) (out set : Finset Pid) (root p : Pid) :
    p ∈ insertSubtree tree out set root ↔
      p ∈ set ∨ (tree.get p).isSome ∧ p ∉ out ∧ tree.Above root p := by
  have hround : ∀ (s : Finset Pid) (d a : Pid),
      a ∈ (if d ∉ out then insert d s else s) ↔ a ∈ s ∨ a = d ∧ d ∉ out := by
    intro s d a
    by_cases hout : d ∈ out
    · simp [hout]
    · rw [if_pos hout, Finset.mem_insert, and_iff_left hout, or_comm]
  have hroot : p ∈ (if (tree.get root).isSome ∧ root ∉ out then insert root set else set) ↔
      p ∈ set ∨ p = root ∧ (tree.get root).isSome ∧ root ∉ out := by
    split_ifs with hin
    · rw [Finset.mem_insert, and_iff_left hin, or_comm]
    · simp [hin]
  rw [insertSubtree, mem_foldl_of_step hround, hroot, ht.above_iff, or_assoc]
  refine or_congr_right ⟨?_, ?_⟩
  · rintro (⟨rfl, hsome, hout⟩ | ⟨d, hd, rfl, hout⟩)
    · exact ⟨hsome, hout, .inl rfl⟩
    · -- a descendant was sampled
      exact ⟨ProcessTree.isSome_of_reach (ProcessTree.mem_descendants.mp hd).2, hout, .inr hd⟩
  · rintro ⟨hsome, hout, rfl | hd⟩
    · exact .inl ⟨rfl, hsome, hout⟩
    · exact .inr ⟨p, hd, rfl, hout⟩

/-- The subtrees of several roots, one after the other. -/
theorem mem_foldl_insertSubtree (ht : tree.Distinct) (out : Finset Pid) (roots : List Pid)
    (p : Pid) :
    p ∈ roots.foldl (insertSubtree tree out) ∅ ↔
      (tree.get p).isSome ∧ p ∉ out ∧ ∃ r ∈ roots, tree.Above r p := by
  rw [mem_foldl_of_step (mem_insertSubtree ht out)]
  simp only [Finset.notMem_empty, false_or]
  constructor
  · rintro ⟨r, hr, hsome, hout, habove⟩
    exact ⟨hsome, hout, r, hr, habove⟩
  · rintro ⟨hsome, hout, r, hr, habove⟩
    exact ⟨r, hr, hsome, hout, habove⟩

/-! ### Every process once -/

/-- The pids that are counted. -/
def accountedPids (tree : ProcessTree) (topology : LaunchTopology) : Finset Pid :=
  (partition tree topology).1 ∪ (partition tree topology).2

/-- **An accounting that counts every process once.**  The agents' processes are the sampled ones with
an agent root at or above them, the multiplexer's the others with a root of its own at or above
them; and the total is the sum of the accounted bytes over both, as a `u64`. -/
structure CountsOnce (tree : ProcessTree) (topology : LaunchTopology) : Prop where
  provider (p : Pid) : p ∈ (partition tree topology).1 ↔
    (tree.get p).isSome ∧ ∃ r ∈ topology.agentRoots, tree.Above r p
  manager (p : Pid) : p ∈ (partition tree topology).2 ↔
    (tree.get p).isSome ∧ (¬ ∃ r ∈ topology.agentRoots, tree.Above r p) ∧
      ∃ r ∈ topology.managerPids, tree.Above r p
  disjoint : Disjoint (partition tree topology).1 (partition tree topology).2
  wrapped : (classify tree topology).totalBytes
    = (∑ p ∈ accountedPids tree topology, accountedOf tree p) % u64Size
  total : ∑ p ∈ accountedPids tree topology, accountedOf tree p < u64Size →
    (classify tree topology).totalBytes = ∑ p ∈ accountedPids tree topology, accountedOf tree p

/-- **Benchmark accounting counts every process once**, however the roots overlap, are nested or
repeated, and whether or not they are sampled themselves. -/
theorem counts_once (tree : ProcessTree) (topology : LaunchTopology)
    (ht : (tree.samples.map (·.pid)).Nodup) : CountsOnce tree topology := by
  have hprovider : ∀ p, p ∈ (partition tree topology).1 ↔
      (tree.get p).isSome ∧ ∃ r ∈ topology.agentRoots, tree.Above r p := by
    intro p
    rw [partition, mem_foldl_insertSubtree ht, and_iff_right (Finset.notMem_empty p)]
  have hmanager : ∀ p, p ∈ (partition tree topology).2 ↔ (tree.get p).isSome ∧
      p ∉ (partition tree topology).1 ∧ ∃ r ∈ topology.managerPids, tree.Above r p :=
    mem_foldl_insertSubtree ht _ topology.managerPids
  have hdisjoint : Disjoint (partition tree topology).1 (partition tree topology).2 :=
    Finset.disjoint_right.mpr fun p hp => ((hmanager p).mp hp).2.1
  have hwrapped : (classify tree topology).totalBytes
      = (∑ p ∈ accountedPids tree topology, accountedOf tree p) % u64Size := by
    rw [accountedPids, Finset.sum_union hdisjoint, classify]
    exact (Nat.add_mod _ _ _).symm
  refine ⟨hprovider, fun p => ?_, hdisjoint, hwrapped, fun hlt => ?_⟩
  · rw [hmanager, hprovider]
    constructor
    · rintro ⟨hsome, hnot, habove⟩
      exact ⟨hsome, fun h => hnot ⟨hsome, h⟩, habove⟩
    · rintro ⟨hsome, hnot, habove⟩
      exact ⟨hsome, fun h => hnot h.2, habove⟩
  · rw [hwrapped, Nat.mod_eq_of_lt hlt]

/-- A server with two agents below it, one of them a root twice, and a root that is gone. -/
def serverWithAgents : ProcessTree :=
  ProcessTree.fromSamples [⟨900, 1, "server", 700, none, none⟩,
    ⟨100, 900, "agent", 500, none, none⟩, ⟨200, 900, "agent", 400, none, none⟩,
    ⟨201, 150, "orphan", 30, none, none⟩, ⟨999, 1, "other", 12345, none, none⟩]

/-- The hypothesis of `counts_once` is satisfiable. -/
theorem counts_once_server :
    (serverWithAgents.samples.map (·.pid)).Nodup ∧
      CountsOnce serverWithAgents ⟨[900], [100, 200, 100, 150]⟩ ∧
      classify serverWithAgents ⟨[900], [100, 200, 100, 150]⟩ = ⟨1630, 930, 700, 3, 1, 0⟩ :=
  ⟨by decide, counts_once _ _ (by decide), by decide +kernel⟩

end MemMux
