/-
MemMux/BenchRecord.lean

The record of one benchmark sample (`from_snapshot_topology` in `memmux-bench/src/sampler.rs`) and the
attribution gate that is read off the records (`run.rs`, `gates.rs`).

The record measures how much of the first agent root's tree is attributed to the benchmark's task.
The tree is walked down from the root, and each pid of it is attributed by walking up to a root;
so the walk up finds what the walk down found, and the fraction is one whatever was sampled
(`tree_attribution_one`).
-/
import MemMux.Accounting

namespace MemMux

/-! ### Records -/

/-- All processes that were sampled at one time. -/
structure ProcessSnapshot where
  takenAtUnixMs : Nat
  sampleDurationMicros : Nat
  samples : List ProcessSample
  deriving DecidableEq, Repr

/-- A single row of the sampled time series. -/
structure TimeSeriesRecord where
  tUnixMs : Nat
  elapsedMs : Nat
  launcher : String
  scenario : String
  sampleDurationUs : Nat
  processCount : Nat
  totalBytes : Nat
  ownedBytes : Nat
  sharedBytes : Nat
  escapedBytes : Nat
  unknownBytes : Nat
  attributedFraction : Float
  rootSubtreeBytes : Nat
  rootProcessCount : Nat
  treeAttributedFraction : Float
  providerBytes : Nat
  managerOverheadBytes : Nat
  providerProcCount : Nat
  managerProcCount : Nat
  launcherVersion : String
  agents : Nat

/-- Whether the process is mapped to a task or a shared service; an escaped one is mapped to a
task. -/
def Attribution.isAttributed : Attribution → Bool
  | .unknown => false
  | _ => true

/-- The report has the pid, and as attributed. -/
def AttributionReport.isAttributed (report : AttributionReport) (pid : Pid) : Bool :=
  (report.byPid.find? (·.1 == pid)).any (·.2.isAttributed)

/-- The body of the loop over the tree: total bytes, and attributed ones. -/
def countPid (tree : ProcessTree) (report : AttributionReport) (acc : Nat × Nat) (pid : Pid) :
    Nat × Nat :=
  match tree.get pid with
  | none => acc
  | some sample =>
      ((acc.1 + sample.accountedBytes) % u64Size,
        if report.isAttributed pid then (acc.2 + sample.accountedBytes) % u64Size else acc.2)

/-- The bytes of the tree of `root`, and the attributed ones of them. -/
def countTree (tree : ProcessTree) (report : AttributionReport) (root : Pid) : Nat × Nat :=
  (tree.descendants root ++ [root]).foldl (countPid tree report) (0, 0)

/-- All agent roots are owned by one benchmark task. -/
def benchRoots (topology : LaunchTopology) : List RootSpec :=
  topology.agentRoots.map fun p => ⟨p, .task "task_bench"⟩

def benchReport (tree : ProcessTree) (topology : LaunchTopology) : AttributionReport :=
  attributeTree tree (benchRoots topology) ∅

/-- The first agent root, and the bytes counted over its tree: all, and the attributed ones. -/
def countFirstRoot (tree : ProcessTree) (report : AttributionReport) (topology : LaunchTopology) :
    Option (Pid × Nat × Nat) :=
  topology.agentRoots.head?.map fun root => (root, countTree tree report root)

/-- Build a record from a snapshot and a topology. -/
def fromSnapshotTopology (snapshot : ProcessSnapshot) (topology : LaunchTopology)
    (launcher version scenario : String) (elapsedMs agents : Nat) : TimeSeriesRecord :=
  let tree := ProcessTree.fromSamples snapshot.samples
  let acct := classify tree topology
  let report := benchReport tree topology
  let (rootSubtreeBytes, rootProcessCount, treeAttributedFraction) : Nat × Nat × Float :=
    match countFirstRoot tree report topology with
    | some (root, total, attributed) =>
        (tree.subtreeAccountedBytes root, (tree.descendants root).length + 1,
          if total = 0 then 1.0 else Float.ofNat attributed / Float.ofNat total)
    | none => (0, 0, 1.0)
  { tUnixMs := snapshot.takenAtUnixMs
    elapsedMs := elapsedMs
    launcher := launcher
    scenario := scenario
    sampleDurationUs := snapshot.sampleDurationMicros % u64Size
    processCount := snapshot.samples.length
    totalBytes := acct.totalBytes
    ownedBytes := report.ownedBytes
    sharedBytes := report.sharedBytes
    escapedBytes := report.escapedBytes
    unknownBytes := report.unknownBytes
    attributedFraction := report.attributedFraction
    rootSubtreeBytes := rootSubtreeBytes
    rootProcessCount := rootProcessCount
    treeAttributedFraction := treeAttributedFraction
    providerBytes := acct.providerBytes
    managerOverheadBytes := acct.managerOverheadBytes
    providerProcCount := acct.providerProcCount
    managerProcCount := acct.managerProcCount
    launcherVersion := version
    agents := agents }

/-! ### The attribution gate -/

/-- `f64::min`: of a number and a NaN it is the number. -/
def f64Min (a b : Float) : Float :=
  if a.isNaN then b else if b.isNaN then a else if a ≤ b then a else b

def infinity : Float := 1.0 / 0.0

/-- Minimum launched-tree attribution observed in a time series. -/
def minTreeAttributedFraction (records : List TimeSeriesRecord) : Float :=
  f64Min ((records.map (·.treeAttributedFraction)).foldl f64Min infinity) 1.0

/-- The gate's input: the worst launched-tree attribution across every run that has records. -/
def minAttributedFraction (runs : List (List TimeSeriesRecord)) : Option Float :=
  let minAttr := ((runs.filter (!·.isEmpty)).map minTreeAttributedFraction).foldl f64Min infinity
  if minAttr.isFinite then some minAttr else none

inductive GateStatus
  | pass
  | fail
  | skipped
  deriving DecidableEq, Repr

def attributionMin : Float := 0.95

/-- The attribution gate of `evaluate_gates`. -/
def attributionGate : Option Float → GateStatus
  | some frac => if attributionMin ≤ frac then .pass else .fail
  | none => .skipped

/-! ### Every pid of the tree is attributed -/

section

variable {tree : ProcessTree} {topology : LaunchTopology}

theorem Owner.isAttributed (owner : Owner) : owner.attribution.isAttributed := by
  cases owner <;> rfl

/-- **A sampled pid with an agent root at or above it is attributed.** -/
theorem benchReport_isAttributed (ht : tree.Distinct) {root p : Pid}
    (hroot : root ∈ topology.agentRoots) (habove : tree.AtOrAbove root p)
    (hp : (tree.get p).isSome) : (benchReport tree topology).isAttributed p := by
  -- the walk up from the pid finds a root
  have hspec : ⟨root, .task "task_bench"⟩ ∈ benchRoots topology := List.mem_map_of_mem hroot
  have hfound : tree.nearestAncestorIn p
      (KeyMap.ofList ((benchRoots topology).map fun r => (r.pid, r.owner))).keys ≠ none :=
    fun hnone => (nearestAncestorIn_roots ht hp).mp hnone _ hspec habove
  obtain ⟨r, hr⟩ := Option.ne_none_iff_exists'.mp hfound
  obtain ⟨spec, -, hclass⟩ := @attributionOf_of_some tree (benchRoots topology) ∅ p r hr
  -- and the report has the pid with what was found for it
  have hmem : (p, attributionOf tree (benchRoots topology) ∅ p)
      ∈ (benchReport tree topology).byPid := mem_byPid.mpr ⟨hp, rfl⟩
  obtain ⟨e, he⟩ : ∃ e, (benchReport tree topology).byPid.find? (·.1 == p) = some e :=
    Option.isSome_iff_exists.mp (List.find?_isSome.mpr ⟨_, hmem, beq_self_eq_true p⟩)
  have hkey : e.1 = p := by simpa using List.find?_some he
  obtain ⟨-, hattr⟩ := mem_byPid.mp (List.mem_of_find?_eq_some he)
  rw [AttributionReport.isAttributed, he, Option.any_some, ← hattr, hkey, hclass]
  exact spec.owner.isAttributed

/-- A pid that is attributed if it was sampled adds the same to both counts. -/
theorem countPid_eq {report : AttributionReport} {acc : Nat × Nat} {pid : Pid}
    (hacc : acc.1 = acc.2 ∧ acc.1 < u64Size)
    (h : (tree.get pid).isSome → report.isAttributed pid) :
    (countPid tree report acc pid).1 = (countPid tree report acc pid).2 ∧
      (countPid tree report acc pid).1 < u64Size := by
  unfold countPid
  cases hget : tree.get pid with
  | none => exact hacc
  | some sample =>
      dsimp only
      rw [if_pos (h (hget ▸ rfl)), hacc.1]
      exact ⟨rfl, Nat.mod_lt _ (by decide)⟩

theorem foldl_countPid_eq {report : AttributionReport} {pids : List Pid}
    (h : ∀ p ∈ pids, (tree.get p).isSome → report.isAttributed p) {acc : Nat × Nat}
    (hacc : acc.1 = acc.2 ∧ acc.1 < u64Size) :
    (pids.foldl (countPid tree report) acc).1 = (pids.foldl (countPid tree report) acc).2 ∧
      (pids.foldl (countPid tree report) acc).1 < u64Size := by
  induction pids generalizing acc with
  | nil => exact hacc
  | cons p pids ih =>
      exact ih (fun q hq => h q (List.mem_cons_of_mem p hq))
        (countPid_eq hacc (h p List.mem_cons_self))

/-- **All bytes of the tree of an agent root are attributed.** -/
theorem countTree_eq (ht : tree.Distinct) {root : Pid} (hroot : root ∈ topology.agentRoots)
    (hpresent : (tree.get root).isSome) :
    (countTree tree (benchReport tree topology) root).1
        = (countTree tree (benchReport tree topology) root).2 ∧
      (countTree tree (benchReport tree topology) root).1 < u64Size := by
  refine foldl_countPid_eq (fun p hp hsome => ?_) ⟨rfl, by decide⟩
  have hreach : p ∈ root :: tree.descendants root := by
    rwa [List.mem_append, List.mem_singleton, or_comm, ← List.mem_cons] at hp
  exact benchReport_isAttributed ht hroot ⟨hpresent, ProcessTree.mem_subtree.mp hreach⟩ hsome

end

/-! ### The gate cannot fail -/

theorem foldl_f64Min_one {xs : List Float} (h : ∀ x ∈ xs, x = 1.0) {acc : Float}
    (hacc : acc = infinity ∨ acc = 1.0) :
    xs.foldl f64Min acc = infinity ∨ xs.foldl f64Min acc = 1.0 := by
  induction xs generalizing acc with
  | nil => exact hacc
  | cons x xs ih =>
      refine ih (fun y hy => h y (List.mem_cons_of_mem x hy)) (.inr ?_)
      rw [h x List.mem_cons_self]
      rcases hacc with rfl | rfl <;> decide +kernel

theorem minTreeAttributedFraction_one {records : List TimeSeriesRecord}
    (h : ∀ r ∈ records, r.treeAttributedFraction = 1.0) :
    minTreeAttributedFraction records = 1.0 := by
  have hxs : ∀ x ∈ records.map (·.treeAttributedFraction), x = 1.0 := by
    intro x hx
    obtain ⟨r, hr, rfl⟩ := List.mem_map.mp hx
    exact h r hr
  unfold minTreeAttributedFraction
  rcases foldl_f64Min_one hxs (.inl rfl) with hmin | hmin <;> rw [hmin] <;> decide +kernel

/-- **Records whose fraction is one do not fail the gate.** -/
theorem attributionGate_ne_fail {runs : List (List TimeSeriesRecord)}
    (h : ∀ run ∈ runs, ∀ r ∈ run, r.treeAttributedFraction = 1.0) :
    attributionGate (minAttributedFraction runs) ≠ .fail := by
  have hxs : ∀ x ∈ (runs.filter (!·.isEmpty)).map minTreeAttributedFraction, x = 1.0 := by
    intro x hx
    obtain ⟨run, hrun, rfl⟩ := List.mem_map.mp hx
    exact minTreeAttributedFraction_one (h run (List.mem_of_mem_filter hrun))
  unfold minAttributedFraction
  rcases foldl_f64Min_one hxs (.inl rfl) with hmin | hmin <;> rw [hmin] <;> decide +kernel

/-! ### The fraction is one -/

/-- One call of `from_snapshot_topology`. -/
structure BenchSample where
  snapshot : ProcessSnapshot
  topology : LaunchTopology
  launcher : String
  version : String
  scenario : String
  elapsedMs : Nat
  agents : Nat

namespace BenchSample

def tree (b : BenchSample) : ProcessTree := ProcessTree.fromSamples b.snapshot.samples

def record (b : BenchSample) : TimeSeriesRecord :=
  fromSnapshotTopology b.snapshot b.topology b.launcher b.version b.scenario b.elapsedMs b.agents

/-- The pids are distinct, and the first agent root was sampled. -/
structure RootPresent (b : BenchSample) : Prop where
  distinct : (b.snapshot.samples.map (·.pid)).Nodup
  present : ∃ root, b.topology.agentRoots.head? = some root ∧
    root ∈ b.snapshot.samples.map (·.pid)

/-- The bytes counted over the first agent root's tree, and the attributed ones. -/
def counts (b : BenchSample) : Option (Nat × Nat) :=
  (countFirstRoot b.tree (benchReport b.tree b.topology) b.topology).map (·.2)

theorem counts_eq {b : BenchSample} (h : b.RootPresent) :
    ∃ total, b.counts = some (total, total) ∧ total < u64Size := by
  obtain ⟨root, hhead, hin⟩ := h.present
  obtain ⟨s, hs, hpid⟩ := List.mem_map.mp hin
  have hpresent : (b.tree.get root).isSome := ProcessTree.isSome_get.mpr ⟨s, hs, hpid⟩
  have hdistinct : b.tree.Distinct := h.distinct
  obtain ⟨heq, hlt⟩ := countTree_eq hdistinct (List.mem_of_mem_head? hhead) hpresent
  refine ⟨_, ?_, hlt⟩
  rw [counts, countFirstRoot, hhead, Option.map_some, Option.map_some]
  exact congrArg some (Prod.ext rfl heq.symm)

theorem treeAttributedFraction_one {b : BenchSample} (h : b.RootPresent) :
    b.record.treeAttributedFraction = 1.0 := by
  obtain ⟨total, hcounts, hlt⟩ := counts_eq h
  obtain ⟨⟨root, total', attributed⟩, hfirst, hcount⟩ := Option.map_eq_some_iff.mp hcounts
  obtain ⟨rfl, rfl⟩ := Prod.mk.inj hcount
  unfold tree at hfirst
  rw [record, fromSnapshotTopology, hfirst]
  dsimp only
  split_ifs with hzero
  · rfl
  · exact Binary64.ofNat_div_self hzero hlt

end BenchSample

/-- **The benchmark's tree attribution is identically one**: in every sample with distinct pids whose
first agent root was sampled, cyclic parent links or not, all bytes counted over the root's tree
are attributed, so the fraction is one; and the gate that is measured on such samples cannot
fail. -/
theorem tree_attribution_one (runs : List (List BenchSample))
    (h : ∀ run ∈ runs, ∀ b ∈ run, b.RootPresent) :
    (∀ run ∈ runs, ∀ b ∈ run,
      (∃ total, b.counts = some (total, total)) ∧ b.record.treeAttributedFraction = 1.0) ∧
      attributionGate (minAttributedFraction (runs.map fun run => run.map BenchSample.record))
        ≠ .fail := by
  refine ⟨fun run hrun b hb => ?_, attributionGate_ne_fail fun records hrecords r hr => ?_⟩
  · obtain ⟨total, hcounts, -⟩ := BenchSample.counts_eq (h run hrun b hb)
    exact ⟨⟨total, hcounts⟩, BenchSample.treeAttributedFraction_one (h run hrun b hb)⟩
  · obtain ⟨run, hrun, rfl⟩ := List.mem_map.mp hrecords
    obtain ⟨b, hb, rfl⟩ := List.mem_map.mp hr
    exact BenchSample.treeAttributedFraction_one (h run hrun b hb)

/-- A root and its child that are each other's parents, and an orphan. -/
def cyclicSample : BenchSample where
  snapshot := ⟨1000, 200, [⟨100, 101, "agent", 500, none, none⟩,
    ⟨101, 100, "node", 300, none, none⟩, ⟨102, 1, "lost", 70, none, none⟩]⟩
  topology := ⟨[], [100]⟩
  launcher := "memmux"
  version := "memmux 0.9.0"
  scenario := "burst"
  elapsedMs := 10
  agents := 1

/-- The hypothesis of `tree_attribution_one` is satisfiable. -/
theorem tree_attribution_one_cyclic :
    (∀ run ∈ [[cyclicSample]], ∀ b ∈ run, b.RootPresent) ∧
      cyclicSample.counts = some (800, 800) ∧ cyclicSample.record.treeAttributedFraction = 1.0 := by
  have hpresent : ∀ run ∈ [[cyclicSample]], ∀ b ∈ run, b.RootPresent := by
    intro run hrun b hb
    obtain rfl := List.mem_singleton.mp hrun
    obtain rfl := List.mem_singleton.mp hb
    exact ⟨by decide, 100, by decide, by decide⟩
  obtain ⟨hone, -⟩ := tree_attribution_one [[cyclicSample]] hpresent
  exact ⟨hpresent, by decide +kernel,
    (hone [cyclicSample] List.mem_cons_self cyclicSample List.mem_cons_self).2⟩

end MemMux
