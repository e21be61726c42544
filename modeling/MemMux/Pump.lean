/-
MemMux/Pump.lean

The periodic pump (`memmuxd/src/daemon.rs`): retiring exited providers, memory sampling, the
pressure ladder, RSS recycle triggers, and one more admission pass.

A hash map is walked in the order the host gives (`Host.order`); everything the ladder decides
is decided after sorting, or by a minimum.
-/
import MemMux.Freeze

namespace MemMux

variable (codec : CheckpointCodec) (h : Host)

/-! ### Natural exits -/

/-- The task keys of a map, in the order its walk visits them. -/
def walk {β : Type} (m : KeyMap String β) (w : World) : List String := h.order w.calls m.keys

/-- Drive a task whose provider exited to `Terminated`. -/
def retireTask (id : String) (now : UInt64) (w : World) : World :=
  match w.mem.tasks.lookup id with
  | none => w
  | some task =>
      if task.state.isTerminal ∨ task.state = .terminating then w
      else
        let w := advance h id .terminating "provider exited" now w
        let w := advance h id .terminated "provider exited" now w
        saveTask h id w

/-- Retire one exited provider: drop its runtime, reap what it left, tear its worktree down and
free its reservation. -/
def retire (now : UInt64) (w : World) (id : String) : World :=
  let rootPid := (w.mem.runtimes.lookup id).bind (·.pid)
  let w : World := { w with mem := { w.mem with runtimes := w.mem.runtimes.erase id } }
  let w := flushHistory h id w
  let w := reapTaskProcesses h id rootPid w
  let w := retireTask h id now w
  let w := cleanupWorktree h id w
  let w := releaseReservation id w
  event h (some id) "process" "process_exited" "info" w

/-- The first loop of `pump`: drain every runtime, and collect those that are not running. -/
def drainRuntimes : List String → World → World × List String
  | [], w => (w, [])
  | id :: ids, w =>
      let w := flushHistory h id w
      let running := h.running w.calls
      let (w, exited) := drainRuntimes ids w.ask
      (w, if running then exited else id :: exited)

/-! ### Sampling -/

/-- The running tasks with a known provider pid. -/
def taskRoots (m : DaemonState) (ids : List String) : List (String × Pid) :=
  ids.filterMap fun id => ((m.runtimes.lookup id).bind (·.pid)).map fun pid => (id, asI32 pid)

/-- Sample one task: its subtree's bytes, and the pids seen under its root. -/
def sampleOne (tree : ProcessTree) (now : UInt64) (w : World) (root : String × Pid) : World :=
  let (id, pid) := root
  let s : TaskSample := ⟨tree.subtreeRssBytes pid, tree.subtreeAccountedBytes pid⟩
  let seen := ((pid :: tree.descendants pid) ++ (w.mem.seenPids.lookup id).getD []).dedup
  let w := exec h (.recordSample now (some id) s.rssBytes s.accountedBytes) w
  { w with
      mem := { w.mem with
        samples := w.mem.samples.insert id s
        seenPids := w.mem.seenPids.insert id (seen.filter fun p => (tree.get p).isSome) } }

/-- Reconcile the managed process set: every root with its live descendants, and every sampled pid
ever seen under a task. -/
def managedReconcile (tree : ProcessTree) (roots : List (String × Pid))
    (seen : KeyMap String (List Pid)) : ReconciliationReport :=
  let under := roots.flatMap fun r =>
    if (tree.get r.2).isSome then r.2 :: tree.descendants r.2 else []
  let known := (KeyMap.values seen).flatMap fun pids => pids.filter fun p => (tree.get p).isSome
  let managed := (under ++ known).dedup
  let managedTree := ProcessTree.fromSamples (managed.filterMap tree.get)
  let expected : KeyMap Pid String :=
    KeyMap.ofList (seen.entries.flatMap fun e => e.2.map fun p => (p, e.1))
  reconcileTree managedTree (roots.map fun r => ⟨r.2, .task r.1⟩) expected

/-- Surface one process that left its task's subtree. -/
def reportEscaped (w : World) (f : FlaggedProcess) : World :=
  if f.pid ∈ w.mem.escapedReported then w
  else
    let w : World :=
      { w with mem := { w.mem with escapedReported := f.pid :: w.mem.escapedReported } }
    let w := appendEvent h none "process" "process_escaped" "warn"
      (some [("pid", .num f.pid), ("name", .str f.name), ("bytes", .num f.bytes)]) w
    audit h none "process_escaped"
      ("pid " ++ toString f.pid ++ " (" ++ f.name ++ ") escaped its task subtree")
      (some [("pid", .num f.pid), ("bytes", .num f.bytes)]) w

/-- The sampling loop of `sample_tick`: one sample a task, and one of their sum. -/
def sampleAll (tree : ProcessTree) (roots : List (String × Pid)) (now : UInt64) (w : World) :
    World :=
  let w : World :=
    { w with
        mem := { w.mem with
          seenPids := KeyMap.filter (fun id _ => decide (id ∈ roots.map (·.1))) w.mem.seenPids
          samples := ∅ } }
  let w := roots.foldl (sampleOne h tree now) w
  let used := wrapSum (roots.map fun r => tree.subtreeAccountedBytes r.2)
  let w : World := { w with mem := { w.mem with usedBytes := used } }
  exec h (.recordSample now none used used) w

/-- The reconciliation of `sample_tick`: how much of the managed set is attributed, and what
escaped. -/
def reconcileManaged (report : ReconciliationReport) (w : World) : World :=
  let w : World :=
    { w with mem := { w.mem with attributedFraction := report.attributedFraction } }
  let w := if report.attributedFraction < 0.95 then
      event h none "process" "attribution_below_gate" "warn" w
    else w
  let w := report.escaped.foldl (reportEscaped h) w
  { w with
      mem := { w.mem with
        escapedReported := w.mem.escapedReported.filter fun p =>
          decide (p ∈ report.escaped.map (·.pid)) } }

/-- The part of `sample_tick` after a successful snapshot. -/
def sampleRoots (roots : List (String × Pid)) (now : UInt64) (w : World) : World :=
  let tree := ProcessTree.fromSamples w.procs
  let w := sampleAll h tree roots now w
  reconcileManaged h (managedReconcile tree roots w.mem.seenPids) w

/-- `now.saturating_sub(last) < interval`. -/
def throttled (now last interval : UInt64) : Bool :=
  decide ((if last ≤ now then now - last else 0) < interval)

/-- Throttled per-task memory sampling. -/
def sampleTick (now : UInt64) (w : World) : World :=
  if throttled now w.mem.lastSampleMs 1000 then w
  else
    let w : World := { w with mem := { w.mem with lastSampleMs := now } }
    let roots := taskRoots w.mem (walk h w.mem.runtimes w)
    let w := w.ask
    if roots = [] then
      { w with
          mem := { w.mem with
            samples := ∅
            seenPids := ∅
            escapedReported := []
            usedBytes := 0
            attributedFraction := 1.0 } }
    else if !h.sampler w.calls then w.ask
    else sampleRoots h roots now w.ask

/-! ### The pressure ladder -/

/-- `(id, priority, created_at_ms)` of a task with a live provider. -/
abbrev ReclaimCandidate := String × Priority × UInt64

/-- The order reclamation victims are taken in: lowest priority, then oldest, then by id. -/
def victimCmp (a b : ReclaimCandidate) : Ordering :=
  (compare a.2.1.rank b.2.1.rank).then
    ((compare a.2.2.toNat b.2.2.toNat).then (compare a.1 b.1))

/-- Every task with a live provider, the reclamation pool. -/
def runningCandidates (w : World) : List ReclaimCandidate :=
  (walk h w.mem.runtimes w).filterMap fun id =>
    (w.mem.tasks.lookup id).map fun t => (id, t.spec.priority, t.createdAtMs)

/-- `Iterator::min_by`: the first of the minimal elements. -/
def minBy {α : Type} (cmp : α → α → Ordering) : List α → Option α
  | [] => none
  | a :: as => some (as.foldl (fun best b => if cmp best b = .gt then b else best) a)

theorem mem_of_minBy {α : Type} {cmp : α → α → Ordering} {as : List α} {m : α}
    (hm : minBy cmp as = some m) : m ∈ as := by
  cases as with
  | nil => cases hm
  | cons a as =>
      obtain rfl := Option.some.inj hm
      clear hm
      induction as generalizing a with
      | nil => exact List.mem_cons_self
      | cons b bs ih =>
          rw [List.foldl_cons]
          split
          · exact List.mem_cons_of_mem _ (ih b)
          · rcases List.mem_cons.mp (ih a) with heq | hin
            · rw [heq]
              exact List.mem_cons_self
            · exact List.mem_cons_of_mem _ (List.mem_cons_of_mem _ hin)

/-- When the comparison is that of a key, what `minBy` picks has a least key. -/
theorem minBy_le {α β : Type} [LinearOrder β] {key : α → β} {cmp : α → α → Ordering}
    (hcmp : ∀ a b, cmp a b = .gt ↔ key b < key a) {as : List α} {m : α}
    (hm : minBy cmp as = some m) : ∀ a ∈ as, key m ≤ key a := by
  cases as with
  | nil => cases hm
  | cons a as =>
      obtain rfl := Option.some.inj hm
      clear hm
      induction as generalizing a with
      | nil => simp
      | cons b bs ih =>
          rw [List.foldl_cons]
          by_cases hgt : cmp a b = .gt
          · -- `b` replaces `a`, which has a larger key
            rw [if_pos hgt]
            have hb := ih b
            have hle := hb b List.mem_cons_self
            have ha := hle.trans ((hcmp a b).mp hgt).le
            exact List.forall_mem_cons.mpr ⟨ha, hb⟩
          · rw [if_neg hgt]
            obtain ⟨ha, hrest⟩ := List.forall_mem_cons.mp (ih a)
            have hb := ha.trans (not_lt.mp (mt (hcmp a b).mpr hgt))
            exact List.forall_mem_cons.mpr ⟨ha, List.forall_mem_cons.mpr ⟨hb, hrest⟩⟩

/-- Pick the reclamation victim: the lowest priority, then the oldest, then by id. -/
def pickLowestPriorityVictim (cs : List ReclaimCandidate) : Option String :=
  (minBy victimCmp cs).map (·.1)

/-- Whether task `id` is currently at a safe point. -/
def isSafePoint (id : String) (m : DaemonState) : Bool :=
  match m.tasks.lookup id with
  | some t => decide (assess (activity t) = .ready)
  | none => false

/-- Reclaim processes that escaped their task's subtree. -/
def actReclaimEscaped (evidence : JsonObject) (w : World) : World :=
  let pids := w.mem.escapedReported
  if pids = [] then w
  else
    let w : World := { w with mem := { w.mem with escapedReported := [] } }
    match terminatePids h pids w with
    | (w, some report) =>
        let w := audit h none "reclaim_idle_children"
          ("reclaimed " ++ toString (report.targeted.length - report.survivors.length)
            ++ " escaped process(es)") (some evidence) w
        event h none "pressure" "reclaim_idle_children" "warn" w
    | (w, none) => w

/-- Hibernate the single lowest-priority running task that is at a safe point. -/
def actHibernateLowPriority (evidence : JsonObject) (w : World) : World :=
  let candidates := (runningCandidates h w).insertionSort fun a b => victimCmp a b ≠ .gt
  let w := w.ask
  match candidates.find? fun c => isSafePoint c.1 w.mem with
  | none => w
  | some (id, _) =>
      let w := audit h (some id) "hibernate_low_priority"
        PressureAction.hibernateLowPriority.describe (some evidence) w
      let w := (hibernate codec h id w).1
      event h (some id) "pressure" "hibernate_low_priority" "warn" w

/-- The running provider with the largest sampled subtree: the last maximum of the walk. -/
def bloatedVictim (w : World) : Option (String × Nat) :=
  ((walk h w.mem.samples w).filter (· ∈ w.mem.runtimes)).foldl
    (fun best id =>
      let rss := ((w.mem.samples.lookup id).map (·.rssBytes)).getD 0
      match best with
      | none => some (id, rss)
      | some b => if b.2 ≤ rss then some (id, rss) else some b) none

/-- The recycle of the largest provider, if it is at a safe point: whose, and the world it starts
in. -/
def bloatedRecycle (evidence : JsonObject) (w : World) : Option (String × World) :=
  match bloatedVictim h w with
  | none => none
  | some (id, rss) =>
      if isSafePoint id w.mem then
        some (id, audit h (some id) "recycle_bloated"
          ("recycling largest provider (" ++ toString rss ++ " bytes rss)") (some evidence) w.ask)
      else none

/-- Such a recycle starts once it has been announced. -/
theorem bloatedRecycle_some {evidence : JsonObject} {w : World} {x : String × World}
    (hx : bloatedRecycle h evidence w = some x) :
    ∃ reason, x.2 = audit h (some x.1) "recycle_bloated" reason (some evidence) w.ask := by
  unfold bloatedRecycle at hx
  split at hx
  · cases hx
  · next id rss _ =>
    split at hx
    · obtain rfl := Option.some.inj hx
      exact ⟨_, rfl⟩
    · cases hx

/-- Recycle the running provider with the largest sampled subtree RSS, at a safe point. -/
def actRecycleBloated (evidence : JsonObject) (w : World) : World :=
  match bloatedRecycle h evidence w with
  | none => w.ask
  | some (id, w) => event h (some id) "pressure" "recycle_bloated" "warn" (recycle codec h id w).1

/-- What is recorded about a preserved victim. -/
def announcePreserved (id : String) (cp : Checkpoint) (evidence : JsonObject) (w : World) :
    World :=
  let w := audit h (some id) "preserve_git_state"
    ("Git state preserved (patch " ++ cp.gitPatchHash ++ ") before termination")
    (some evidence) w
  appendEvent h (some id) "pressure" "preserve_git_state" "warn"
    (some [("git_head", .str cp.gitHead), ("git_patch_hash", .str cp.gitPatchHash),
      ("git_dirty", .bool (isDirtyPatch cp.gitPatchHash)),
      ("checkpoint_integrity", .str cp.integrity)]) w

/-- The checkpoint of a victim: it is preserved only if the checkpoint persisted. -/
def preserveVictim (id : String) (task : Task) (evidence : JsonObject) (w : World) :
    World × Option String :=
  let (w, cp) := captureCheckpoint codec h id task (h.now w.calls) w.ask
  match persistCheckpoint codec h cp w with
  | (w, .ok ()) => (announcePreserved h id cp evidence w, some id)
  | (w, .error e) =>
      (audit h (some id) "preserve_git_state_failed"
        ("checkpoint failed, refusing to terminate: " ++ e) none w, none)

/-- Preserve the lowest-priority running victim's Git state, returning the victim only if the
checkpoint persisted. -/
def actPreserveGitState (evidence : JsonObject) (w : World) : World × Option String :=
  let victim := pickLowestPriorityVictim (runningCandidates h w)
  let w := w.ask
  match victim with
  | none => (w, none)
  | some id =>
      match w.mem.tasks.lookup id with
      | none => (w.ask, none)
      | some task => preserveVictim codec h id task evidence w

/-- Terminate a victim whose Git state has already been preserved. -/
def actTerminateVictim (id : String) (evidence : JsonObject) (w : World) : World :=
  let w := audit h (some id) "terminate_lowest_priority"
    PressureAction.terminateLowestPriorityTree.describe (some evidence) w
  let w := (terminate h id w).1
  event h (some id) "pressure" "terminate_lowest_priority" "error" w

/-- One action of a stage; the second component is the preserved victim. -/
def applyAction (evidence : JsonObject) (s : World × Option String) (action : PressureAction) :
    World × Option String :=
  let (w, preserved) := s
  match action with
  | .reclaimIdleChildren => (actReclaimEscaped h evidence w, preserved)
  | .hibernateLowPriority => (actHibernateLowPriority codec h evidence w, preserved)
  | .recycleBloatedProviders => (actRecycleBloated codec h evidence w, preserved)
  | .preserveGitState => actPreserveGitState codec h evidence w
  | .terminateLowestPriorityTree =>
      match preserved with
      | some id => (actTerminateVictim h id evidence w, none)
      | none => (w, none)
  | .blockLowPriorityStarts =>
      (event h none "pressure" "block_low_priority_starts" "warn" w, preserved)
  | .notifyOperator =>
      (event h none "pressure" "operator_attention" "error"
        (audit h none "operator_attention" action.describe (some evidence) w), preserved)
  | other =>
      (event h none "pressure" "pressure_action_advisory" "info"
        (audit h none "pressure_action_advisory" other.describe (some evidence) w), preserved)

/-- Execute the deterministic actions for `stage`. -/
def applyPressureStage (stage : PressureStage) (evidence : JsonObject) (w : World) : World :=
  (stage.actions.foldl (applyAction codec h evidence) (w, none)).1

/-- A percentage as the source rounds it. -/
def utilizationPct (utilization : Float) : Nat := (utilization * 100.0).round.toUInt64.toNat

/-- The reading of a pressure tick: the stage, the evidence every action of it records, and the
announcement of a change. -/
def readPressure (now : UInt64) (w : World) : World × PressureStage × JsonObject :=
  let w : World := { w with mem := { w.mem with lastPressureCheckMs := now } }
  let used := w.mem.usedBytes
  let budget := w.mem.envelope.agentBudgetBytes
  let utilization := w.mem.envelope.utilization used
  let swapNow := h.swap w.calls
  let swapGrowing := match swapNow, w.mem.lastSwapUsedBytes with
    | some n, some p => decide (p < n)
    | _, _ => false
  let stage := PressureStage.classify utilization swapGrowing (decide (budget < used))
  let prev := w.mem.pressureStage
  let w : World :=
    { w.ask with
        mem := { w.mem with
          lastSwapUsedBytes := swapNow.or w.mem.lastSwapUsedBytes
          pressureStage := stage } }
  let evidence : JsonObject :=
    [("stage", .str stage.debug), ("utilization_pct", .num (utilizationPct utilization)),
      ("used_bytes", .num used), ("budget_bytes", .num budget),
      ("swap_growing", .bool swapGrowing)]
  let w :=
    if stage ≠ prev then
      event h none "pressure" "pressure_stage" stage.severity
        (audit h none "pressure_stage"
          ("memory pressure " ++ prev.debug ++ " -> " ++ stage.debug) (some evidence) w)
    else w
  (w, stage, evidence)

/-- Throttled pressure-ladder tick. -/
def pressureTick (now : UInt64) (w : World) : World :=
  if throttled now w.mem.lastPressureCheckMs 2000 then w
  else
    let (w, stage, evidence) := readPressure h now w
    if stage = .normal then w else applyPressureStage codec h stage evidence w

/-! ### Recycle triggers -/

/-- The providers over their RSS threshold, with the measured bytes and the reason. -/
def overThreshold : List String → World → List (String × Nat × String)
  | [], _ => []
  | id :: ids, w =>
      let rest := overThreshold ids w.ask
      match w.mem.tasks.lookup id, (w.mem.runtimes.lookup id).bind (·.pid) with
      | some task, some pid =>
          let rss := sampleSubtreeRss h pid w
          match (RecyclePolicy.forProvider task.spec.provider).shouldRecycle rss with
          | some reason => (id, rss, reason) :: rest
          | none => rest
      | _, _ => rest

/-- A triggered recycle is announced before it starts. -/
def announceTrigger (w : World) (t : String × Nat × String) : World :=
  let (id, rss, reason) := t
  audit h (some id) "recycle_triggered" reason (some [("rss_bytes", .num rss)]) w

/-- One triggered recycle. -/
def triggerRecycle (w : World) (t : String × Nat × String) : World :=
  (recycle codec h t.1 (announceTrigger h w t)).1

/-- The threshold check: when it was made, and what it found. -/
def measureProviders (now : UInt64) (w : World) : World × List (String × Nat × String) :=
  let w : World := { w with mem := { w.mem with lastRecycleCheckMs := now } }
  (w.ask, overThreshold h (walk h w.mem.runtimes w) w.ask)

/-- Throttled RSS-threshold recycle trigger. -/
def checkRecycleTriggers (now : UInt64) (w : World) : World :=
  if throttled now w.mem.lastRecycleCheckMs 5000 then w
  else
    let (w, triggers) := measureProviders h now w
    triggers.foldl (triggerRecycle codec h) w

/-! ### The pump -/

/-- The first part of `pump`: drain output, and retire the tasks whose provider exited. -/
def retireExited (now : UInt64) (w : World) : World :=
  let (w, exited) := drainRuntimes h (walk h w.mem.runtimes w) w.ask
  exited.foldl (retire h now) w

/-- Pump all live runtimes: drain output, retire exited tasks, then sample, apply the pressure
ladder, check recycle triggers and admit waiting tasks. -/
def pump (now : UInt64) (w : World) : World :=
  let w := retireExited h now w
  let w := sampleTick h now w
  let w := pressureTick codec h now w
  let w := checkRecycleTriggers codec h now w
  tryAdmitPending h now w

end MemMux
