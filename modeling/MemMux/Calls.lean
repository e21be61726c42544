/-
MemMux/Calls.lean

The handlers an operation calls, and the worlds it calls them in.

A request calls its own handler; a tick of the pump may recycle several providers, at the
pressure stage and on a threshold.  `recyclesOf` lists the recycles of an operation,
each with the world it starts in, so that a condition on every recycle of a run can be
stated where the recycle happens.  `launchesOf` does the same for the launches of an operation,
and `callsOf` for the calls to the handlers that stop a provider.  `directLaunch` is the launch
of a request that does not go through admission: a restart's or a resume's.
-/
import MemMux.Daemon

namespace MemMux

variable (codec : CheckpointCodec) (h : Host)

/-- The recycles of a stage application that still has the given actions to do. -/
def stageRecycles (evidence : JsonObject) :
    List PressureAction → World × Option String → List (String × World)
  | [], _ => []
  | a :: as, s =>
      (if a = .recycleBloatedProviders then (bloatedRecycle h evidence s.1).toList else [])
        ++ stageRecycles evidence as (applyAction codec h evidence s a)

/-- The recycles of a pressure tick. -/
def pressureRecycles (now : UInt64) (w : World) : List (String × World) :=
  if throttled now w.mem.lastPressureCheckMs 2000 then []
  else
    let (w, stage, evidence) := readPressure h now w
    if stage = .normal then [] else stageRecycles codec h evidence stage.actions (w, none)

/-- The recycles of a list of triggers. -/
def triggered : List (String × Nat × String) → World → List (String × World)
  | [], _ => []
  | t :: ts, w => (t.1, announceTrigger h w t) :: triggered ts (triggerRecycle codec h w t)

/-- The recycles of the threshold check. -/
def thresholdRecycles (now : UInt64) (w : World) : List (String × World) :=
  if throttled now w.mem.lastRecycleCheckMs 5000 then []
  else
    let (w, triggers) := measureProviders h now w
    triggered codec h triggers w

/-- The recycles of one pump, in order. -/
def pumpRecycles (now : UInt64) (w : World) : List (String × World) :=
  let w := sampleTick h now (retireExited h now w)
  pressureRecycles codec h now w ++ thresholdRecycles codec h now (pressureTick codec h now w)

/-- The recycles an operation makes: whose, and the world each starts in. -/
def recyclesOf (i : Input) (w : World) : List (String × World) :=
  match i with
  | .request (.recycleTask id) => [(id, w.begin h)]
  | .request _ => []
  | .tick => pumpRecycles codec h (h.now 0) ((w.begin h).ask)

/-- Whether the recycle of `id` reaches its checkpoint and its relaunch then fails. -/
def rollsBack (id : String) (w : World) : Bool :=
  match checkpointLive codec h "recycle" "recycle checkpoint failed: " id (h.now w.calls)
    w.ask.ask with
  | (_, .error _) => false
  | (w', .ok (task, cp)) =>
      match (relaunchLive h id task cp (h.now w.calls) w').2.2 with
      | .error _ => true
      | .ok _ => false

/-- Whether the launch that `launch_queued` attempts is answered with a provider. -/
def launchSucceeds (id : String) (snapshot : Task) (now : UInt64) (w : World) : Bool :=
  (h.spawn (beginLaunch h id now (ensureWorktree h id snapshot w).1).calls).isSome

/-- The provider a restart or a resume brings up, if it gets as far as launching one and the launch
succeeds: whose, and of which class. -/
def directLaunch (i : Input) (w : World) : Option (String × ResourceClass) :=
  match i with
  | .request (.restartTask id) =>
      match prepareRestart h id (w.begin h) with
      | (_, .error _) => none
      | (w', .ok task) =>
          if launchSucceeds h id task (h.now 0) w' then some (id, task.spec.resourceClass) else none
  | .request (.resumeTask id) =>
      match prepareResume codec id (w.begin h).ask with
      | .error _ => none
      | .ok (task, cp) =>
          match (relaunchFromCheckpoint h id task cp (w.begin h).ask).2 with
          | .error _ => none
          | .ok _ => some (id, task.spec.resourceClass)
  | _ => none

/-! ### Launches -/

/-- A launch that is about to happen: the task and the snapshot it is launched from, the world its
directory is chosen in, and whether a worktree may be cut for it. -/
structure Launch where
  id : String
  task : Task
  world : World
  cuts : Bool

/-- The directory of a launch for a task that holds no worktree. -/
def Launch.dir (l : Launch) : Path :=
  if l.cuts then (ensureWorktree h l.id l.task l.world).2 else l.task.spec.repositoryPath

/-- The launch of one admitted task. -/
def admitLaunch (id : String) (w : World) : Option Launch :=
  (w.mem.tasks.lookup id).map fun snapshot =>
    ⟨id, snapshot, audit h (some id) "admitted" "scored in and fits the budget" none w, true⟩

/-- The launches of a list of admitted tasks. -/
def admitLaunches (now : UInt64) : List String → World → List Launch
  | [], _ => []
  | id :: ids, w => (admitLaunch h id w).toList ++ admitLaunches now ids (admitOne h now w id)

/-- What an admission pass decides before it launches anything. -/
def planPass (now : UInt64) (w : World) : World × AdmissionPlan :=
  let pending := w.mem.pendingAdmission.dedup.insertionSort (· ≤ ·)
  let (m, candidates) := collectCandidates now pending w.mem
  ({ w with mem := m }, planAdmission candidates (m.envelope.availableBytes (reservedBytes m)))

/-- The launches of an admission pass. -/
def passLaunches (now : UInt64) (w : World) : List Launch :=
  let (w, plan) := planPass now w
  admitLaunches h now plan.admitted w

/-- The pass that `start_task` runs, with its task among the pending ones. -/
def startLaunches (id : String) (w : World) : List Launch :=
  if id ∈ w.mem.runtimes then []
  else
    match w.mem.tasks.lookup id with
    | none => []
    | some snapshot =>
        if snapshot.state ≠ .queued then []
        else
          passLaunches h (h.now w.calls)
            { w.ask with
                mem := { w.mem with
                  pendingAdmission := id :: w.mem.pendingAdmission.filter (· ≠ id) } }

/-- The relaunch of a recycle, if it gets that far. -/
def recycleLaunch (r : String × World) : Option Launch :=
  match checkpointLive codec h "recycle" "recycle checkpoint failed: " r.1 (h.now r.2.calls)
    r.2.ask.ask with
  | (_, .error _) => none
  | (w, .ok (task, _)) =>
      some ⟨r.1, task, beginRecycle h r.1 (h.now r.2.calls) (shutdownRuntime h r.1 w).1, false⟩

/-- The launch of a restart, if it gets that far. -/
def restartLaunch (id : String) (w : World) : Option Launch :=
  match prepareRestart h id w with
  | (_, .error _) => none
  | (w', .ok requeued) => some ⟨id, requeued, w', true⟩

/-- The relaunch of a resume, if it gets that far. -/
def resumeLaunch (id : String) (w : World) : Option Launch :=
  match prepareResume codec id w.ask with
  | .error _ => none
  | .ok (task, _) => some ⟨id, task, w.ask, false⟩

/-- The launches of one pump: those of its recycles, and those of its admission pass. -/
def pumpLaunches (now : UInt64) (w : World) : List Launch :=
  (pumpRecycles codec h now w).flatMap (fun r => (recycleLaunch codec h r).toList)
    ++ passLaunches h now (checkRecycleTriggers codec h now
      (pressureTick codec h now (sampleTick h now (retireExited h now w))))

/-- The launches an operation attempts. -/
def launchesOf (i : Input) (w : World) : List Launch :=
  match i with
  | .request (.startTask id) => startLaunches h id (w.begin h)
  | .request (.restartTask id) => (restartLaunch h id (w.begin h)).toList
  | .request (.resumeTask id) => (resumeLaunch codec id (w.begin h)).toList
  | .request (.recycleTask id) => (recycleLaunch codec h (id, w.begin h)).toList
  | .request _ => []
  | .tick => pumpLaunches codec h (h.now 0) ((w.begin h).ask)

/-! ### Stops -/

/-- The hibernation of the lowest-priority provider at a safe point, if there is one: whose, and the
world it starts in. -/
def lowHibernate (evidence : JsonObject) (w : World) : Option (String × World) :=
  let candidates := (runningCandidates h w).insertionSort fun a b => victimCmp a b ≠ .gt
  let w := w.ask
  match candidates.find? fun c => isSafePoint c.1 w.mem with
  | none => none
  | some (id, _) =>
      some (id, audit h (some id) "hibernate_low_priority"
        PressureAction.hibernateLowPriority.describe (some evidence) w)

/-- The handlers that stop a provider. -/
inductive Stopper
  | hibernate
  | recycle
  | terminate
  deriving DecidableEq

/-- A call to one of them: for whom, and the world it starts in. -/
structure StopCall where
  stopper : Stopper
  id : String
  world : World

/-- The world a call ends in. -/
def StopCall.run (c : StopCall) : World :=
  match c.stopper with
  | .hibernate => (hibernate codec h c.id c.world).1
  | .recycle => (recycle codec h c.id c.world).1
  | .terminate => (terminate h c.id c.world).1

/-- The calls of one action of the ladder. -/
def actionCalls (evidence : JsonObject) (s : World × Option String) : PressureAction → List StopCall
  | .hibernateLowPriority =>
      (lowHibernate h evidence s.1).toList.map fun x => ⟨.hibernate, x.1, x.2⟩
  | .recycleBloatedProviders =>
      (bloatedRecycle h evidence s.1).toList.map fun x => ⟨.recycle, x.1, x.2⟩
  | .terminateLowestPriorityTree =>
      s.2.toList.map fun id =>
        ⟨.terminate, id, audit h (some id) "terminate_lowest_priority"
          PressureAction.terminateLowestPriorityTree.describe (some evidence) s.1⟩
  | _ => []

/-- The calls of a stage application that still has the given actions to do. -/
def stageCalls (evidence : JsonObject) :
    List PressureAction → World × Option String → List StopCall
  | [], _ => []
  | a :: as, s => actionCalls h evidence s a ++ stageCalls evidence as (applyAction codec h evidence s a)

/-- The calls of a pressure tick. -/
def pressureCalls (now : UInt64) (w : World) : List StopCall :=
  if throttled now w.mem.lastPressureCheckMs 2000 then []
  else
    let (w, stage, evidence) := readPressure h now w
    if stage = .normal then [] else stageCalls codec h evidence stage.actions (w, none)

/-- The calls of one pump, in order. -/
def pumpCalls (now : UInt64) (w : World) : List StopCall :=
  let w := sampleTick h now (retireExited h now w)
  pressureCalls codec h now w
    ++ (thresholdRecycles codec h now (pressureTick codec h now w)).map
      fun x => ⟨.recycle, x.1, x.2⟩

/-- The calls an operation makes to the handlers that stop a provider, in order. -/
def callsOf (i : Input) (w : World) : List StopCall :=
  match i with
  | .request (.hibernateTask id) => [⟨.hibernate, id, w.begin h⟩]
  | .request (.recycleTask id) => [⟨.recycle, id, w.begin h⟩]
  | .request (.terminateTask id) => [⟨.terminate, id, w.begin h⟩]
  | .request _ => []
  | .tick => pumpCalls codec h (h.now 0) ((w.begin h).ask)

end MemMux
