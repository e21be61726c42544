/-
MemMux/Cleanup.lean

What a benchmark trial leaves behind (`memmux-bench/src/cleanup.rs`, `escape.rs`, and the end of a trial
in `run.rs`).

Before a launcher tears its session down, the trial captures who is in the subtree of an agent, and
afterwards it looks, every half second, who of them is still there.  It goes by pids, and a pid may be
free again by then.  Here its snapshots and its kills interleave with what the processes do.

No leak is under-reported, then or later (`leak_never_underreported`), and the report is exact when
nobody else has got the pid of a captured process (`leak_exact_iff`).
-/
import MemMux.Managed
import MemMux.PidTable
import MemMux.Run

namespace MemMux.Cleanup

open Relation (ReflTransGen)

/-! ### The measurements -/

/-- One owned process captured before teardown: its pid and the bytes accounted to it. -/
structure OwnedProc where
  pid : Pid
  accountedBytes : Nat
  deriving DecidableEq, Repr

/-- The cleanup outcome of a trial. -/
structure CleanupResult where
  ownedProcs : Nat
  leakedProcs : Nat
  leakedBytes : Nat
  cleanupFraction : Option Float

/-- The reclaimed fraction `(owned - leaked) / owned`, or `none` when nothing was owned. -/
def cleanupFraction (ownedProcs leakedProcs : Nat) : Option Float :=
  if ownedProcs = 0 then none
  else
    let leaked := min leakedProcs ownedProcs
    some (Float.ofNat (ownedProcs - leaked) / Float.ofNat ownedProcs)

def CleanupResult.fromOwnedAndSurvivors (owned : List OwnedProc) (survivors : List Pid) :
    CleanupResult :=
  let ownedProcs := owned.length
  let leakedProcs := survivors.length
  let leakedBytes := wrapSum ((owned.filter (·.pid ∈ survivors)).map (·.accountedBytes))
  ⟨ownedProcs, leakedProcs, leakedBytes, Cleanup.cleanupFraction ownedProcs leakedProcs⟩

/-- Which of the `owned` pids are still present in a process tree. -/
def survivorsOf (owned : List OwnedProc) (tree : ProcessTree) : List Pid :=
  (owned.map (·.pid)).filter fun pid => (tree.get pid).isSome

/-- One live poll.  Without a snapshot everything is taken to survive. -/
def currentSurvivors (owned : List OwnedProc) : Option (List ProcessSample) → List Pid
  | some samples => survivorsOf owned (.fromSamples samples)
  | none => owned.map (·.pid)

/-- One pid of `capture_owned_set`: those that were captured, and those that were seen. -/
def capturePid (tree : ProcessTree) (s : List OwnedProc × List Pid) (pid : Pid) :
    List OwnedProc × List Pid :=
  if pid ∈ s.2 then s
  else
    match tree.get pid with
    | some sample => (s.1 ++ [⟨pid, sample.accountedBytes⟩], pid :: s.2)
    | none => (s.1, pid :: s.2)

/-- One agent root of `capture_owned_set`; a dead one contributes nothing. -/
def captureRoot (tree : ProcessTree) (s : List OwnedProc × List Pid) (root : Pid) :
    List OwnedProc × List Pid :=
  if (tree.get root).isSome then (root :: tree.descendants root).foldl (capturePid tree) s else s

/-- The owned set: every live pid in the subtree of an agent root. -/
def captureOwnedSet (roots : List Pid) : Option (List ProcessSample) → List OwnedProc
  | some samples => (roots.foldl (captureRoot (.fromSamples samples)) ([], [])).1
  | none => []

/-- What one tick of the sampling loop adds to `ever_seen_under_root`. -/
def recordSeen (roots : List Pid) (tree : ProcessTree) (seen : List Pid) : List Pid :=
  roots.foldl (fun seen root =>
    if (tree.get root).isSome then (seen ++ root :: tree.descendants root).dedup else seen) seen

/-- Which candidates are alive, and outside the subtree of every agent root. -/
def confirmReparented (tree : ProcessTree) (candidates agentRoots : List Pid) : List Pid :=
  candidates.filter fun pid =>
    (tree.get pid).isSome && (tree.nearestAncestorIn pid agentRoots).isNone

/-- The confirmation of `measure_escape`.  Without a snapshot nobody is confirmed. -/
def confirmEscapes (candidates agentRoots : List Pid) : Option (List ProcessSample) → List Pid
  | some samples => confirmReparented (.fromSamples samples) candidates agentRoots
  | none => []

/-- `CLEANUP_GRACE_MS / CLEANUP_POLL_MS`. -/
def polls : Nat := max (10000 / 500) 1

/-! ### Who is captured -/

section Capture

variable {tree : ProcessTree}

/-- What a capture has at any time: every captured pid once, with its sample; and of the pids that were
seen those in the tree. -/
structure Captures (tree : ProcessTree) (s : List OwnedProc × List Pid) : Prop where
  nodup : (s.1.map (·.pid)).Nodup
  mem : ∀ p, p ∈ s.1.map (·.pid) ↔ p ∈ s.2 ∧ (tree.get p).isSome
  bytes : ∀ o ∈ s.1, ∃ x, tree.get o.pid = some x ∧ o.accountedBytes = x.accountedBytes

theorem Captures.pid {s : List OwnedProc × List Pid} (hs : Captures tree s) (pid : Pid) :
    Captures tree (capturePid tree s pid) ∧
      ∀ p, p ∈ (capturePid tree s pid).2 ↔ p ∈ s.2 ∨ p = pid := by
  unfold capturePid
  split
  · next hin =>
    refine ⟨hs, fun p => ⟨.inl, ?_⟩⟩
    rintro (hp | rfl)
    · exact hp
    · exact hin
  · next hin =>
    have hnew : ∀ p, p ∈ pid :: s.2 ↔ p ∈ s.2 ∨ p = pid := fun p =>
      List.mem_cons.trans or_comm
    cases hget : tree.get pid with
    | none =>
        refine ⟨⟨hs.nodup, fun p => ?_, hs.bytes⟩, hnew⟩
        rw [hs.mem, hnew]
        refine and_congr_left fun hsome => ⟨.inl, ?_⟩
        rintro (hp | rfl)
        · exact hp
        · rw [hget] at hsome
          cases hsome
    | some sample =>
        refine ⟨⟨?_, fun p => ?_, fun o ho => ?_⟩, hnew⟩
        · rw [List.map_append, List.nodup_append]
          refine ⟨hs.nodup, List.nodup_singleton _, ?_⟩
          rintro p hp q hq rfl
          rw [List.mem_singleton.mp hq] at hp
          exact hin ((hs.mem pid).mp hp).1
        · rw [List.map_append, List.mem_append, hs.mem, List.map_singleton, List.mem_singleton, hnew]
          constructor
          · rintro (⟨hp, hsome⟩ | rfl)
            · exact ⟨.inl hp, hsome⟩
            · exact ⟨.inr rfl, by rw [hget]; rfl⟩
          · rintro ⟨hp | rfl, hsome⟩
            · exact .inl ⟨hp, hsome⟩
            · exact .inr rfl
        · rcases List.mem_append.mp ho with ho | ho
          · exact hs.bytes o ho
          · obtain rfl := List.mem_singleton.mp ho
            exact ⟨sample, hget, rfl⟩

theorem Captures.pids {s : List OwnedProc × List Pid} (hs : Captures tree s) (ps : List Pid) :
    Captures tree (ps.foldl (capturePid tree) s) ∧
      ∀ p, p ∈ (ps.foldl (capturePid tree) s).2 ↔ p ∈ s.2 ∨ p ∈ ps := by
  induction ps generalizing s with
  | nil => exact ⟨hs, fun p => by simp⟩
  | cons pid ps ih =>
      obtain ⟨hone, hmem⟩ := hs.pid pid
      obtain ⟨hall, hmem'⟩ := ih hone
      refine ⟨hall, fun p => ?_⟩
      rw [List.foldl_cons, hmem', hmem, or_assoc, List.mem_cons]

theorem Captures.roots {s : List OwnedProc × List Pid} (hs : Captures tree s) (roots : List Pid) :
    Captures tree (roots.foldl (captureRoot tree) s) ∧
      ∀ p, p ∈ (roots.foldl (captureRoot tree) s).2 ↔
        p ∈ s.2 ∨ ∃ r ∈ roots, tree.AtOrAbove r p := by
  induction roots generalizing s with
  | nil => exact ⟨hs, fun p => by simp⟩
  | cons r roots ih =>
      have hone : Captures tree (captureRoot tree s r) ∧
          ∀ p, p ∈ (captureRoot tree s r).2 ↔ p ∈ s.2 ∨ tree.AtOrAbove r p := by
        unfold captureRoot ProcessTree.AtOrAbove
        split
        · next hsome =>
          obtain ⟨hall, hmem⟩ := hs.pids (r :: tree.descendants r)
          refine ⟨hall, fun p => ?_⟩
          rw [hmem, ProcessTree.mem_subtree, and_iff_right hsome]
        · next hnone => exact ⟨hs, fun p => by simp [hnone]⟩
      obtain ⟨hall, hmem⟩ := ih hone.1
      refine ⟨hall, fun p => ?_⟩
      rw [List.foldl_cons, hmem, hone.2, or_assoc, List.exists_mem_cons_iff]

/-- **The owned set**: the pids in the tree that are at or under a live root, each once, with the bytes of
their samples. -/
theorem mem_captureOwnedSet (roots : List Pid) (samples : List ProcessSample) :
    ((captureOwnedSet roots (some samples)).map (·.pid)).Nodup ∧
      ∀ p, p ∈ (captureOwnedSet roots (some samples)).map (·.pid) ↔
        ∃ r ∈ roots, (ProcessTree.fromSamples samples).AtOrAbove r p := by
  have hnil : Captures (.fromSamples samples) ([], []) :=
    ⟨List.nodup_nil, fun p => by simp, fun o ho => absurd ho List.not_mem_nil⟩
  obtain ⟨hall, hmem⟩ := hnil.roots roots
  refine ⟨hall.nodup, fun p => ?_⟩
  show p ∈ ((roots.foldl (captureRoot (.fromSamples samples)) ([], [])).1).map (·.pid) ↔ _
  rw [hall.mem, hmem]
  refine ⟨fun h => h.1.resolve_left List.not_mem_nil, fun h => ⟨.inr h, ?_⟩⟩
  obtain ⟨r, -, hr, hrp⟩ := h
  rcases Relation.reflTransGen_iff_eq_or_transGen.mp hrp with rfl | hrp
  · exact hr
  · exact ProcessTree.isSome_of_reach hrp

theorem mem_recordSeen {roots : List Pid} {seen : List Pid} {p : Pid} :
    p ∈ recordSeen roots tree seen ↔ p ∈ seen ∨ ∃ r ∈ roots, tree.AtOrAbove r p := by
  unfold recordSeen
  induction roots generalizing seen with
  | nil => simp
  | cons r roots ih =>
      rw [List.foldl_cons, ih, List.exists_mem_cons_iff, ← or_assoc]
      refine or_congr_left ?_
      unfold ProcessTree.AtOrAbove
      split
      · next hsome =>
        rw [List.mem_dedup, List.mem_append, ProcessTree.mem_subtree, and_iff_right hsome]
      · next hnone => simp [hnone]

end Capture

/-! ### The trial -/

/-- How far a trial is. -/
inductive Phase
  /-- the sampling loop -/
  | sampling
  /-- the owned set is captured -/
  | captured (owned : List OwnedProc)
  /-- the escaped processes that were confirmed are killed -/
  | reaping (owned : List OwnedProc) (queue : List Pid)
  /-- the session was stopped; so many polls are still to come -/
  | polling (owned : List OwnedProc) (left : Nat)
  /-- the survivors are killed -/
  | killing (owned : List OwnedProc) (result : CleanupResult) (queue : List Pid)
  /-- nothing was owned, and nothing is measured -/
  | skipped

/-- The pids that get the next kills. -/
def Phase.queue : Phase → List Pid
  | .reaping _ queue | .killing _ _ queue => queue
  | _ => []

/-- What was captured. -/
def Phase.owned : Phase → List OwnedProc
  | .captured owned | .reaping owned _ | .polling owned _ | .killing owned _ _ => owned
  | .sampling | .skipped => []

/-- A trial among the processes of its machine. -/
structure Trial where
  table : PidTable Pid
  /-- `ever_seen_under_root` -/
  seen : List Pid
  confirmed : List Pid
  phase : Phase
  /-- the table as it was when the owned set was captured, which the trial does not know -/
  atCapture : PidTable Pid

/-- A machine with the agents of a session, given by the pids of their roots. -/
structure Session where
  table : PidTable Pid
  valid : table.Valid (· ≤ 1)
  roots : List Pid
  real : ∀ r ∈ roots, 1 < r

/-- One step of a process or of the trial.  Snapshots are what the sampler answers. -/
inductive Event
  | fork (parent pid : Pid)
  | exit (pid : Pid)
  /-- the exit of a process is waited for -/
  | release (pid : Pid)
  /-- a tick of the sampling loop -/
  | sample (snap : List ProcessSample)
  | capture (snap : Option (List ProcessSample))
  /-- `measure_escape` -/
  | escape (snap : Option (List ProcessSample))
  /-- `session.stop()` has returned -/
  | stop
  | poll (snap : Option (List ProcessSample))
  /-- the next `kill -9` -/
  | kill

/-- A poll of `measure_cleanup`: the last one, or one that finds nobody, makes the result. -/
def Phase.poll (owned : List OwnedProc) (left : Nat) (survivors : List Pid) : Phase :=
  if survivors = [] ∨ left = 0 then
    .killing owned (.fromOwnedAndSurvivors owned survivors) survivors
  else .polling owned left

/-- The pid that is killed next. -/
def Phase.afterKill : Phase → Option (Pid × Phase)
  | .reaping owned (p :: queue) => some (p, .reaping owned queue)
  | .killing owned result (p :: queue) => some (p, .killing owned result queue)
  | _ => none

/-- What an event does; one that is not due does nothing. -/
def step (m : Session) (s : Trial) : Event → Trial
  | .fork parent pid =>
      if s.table.running parent = true ∧ s.table.procs pid = none ∧ 1 < pid then
        { s with table := s.table.birth parent pid }
      else s
  | .exit pid => { s with table := s.table.exit 1 pid }
  | .release pid =>
      if s.table.running pid = false then { s with table := s.table.release pid } else s
  | .sample snap =>
      match s.phase with
      | .sampling => { s with seen := recordSeen m.roots (.fromSamples snap) s.seen }
      | _ => s
  | .capture snap =>
      match s.phase with
      | .sampling =>
          { s with phase := .captured (captureOwnedSet m.roots snap), atCapture := s.table }
      | _ => s
  | .escape snap =>
      match s.phase with
      | .captured owned =>
          { s with
              confirmed := confirmEscapes s.seen m.roots snap
              phase := .reaping owned (confirmEscapes s.seen m.roots snap) }
      | _ => s
  | .stop =>
      match s.phase with
      | .captured owned | .reaping owned [] =>
          { s with phase := if owned = [] then .skipped else .polling owned polls }
      | _ => s
  | .poll snap =>
      match s.phase with
      | .polling owned (left + 1) =>
          { s with phase := .poll owned left (currentSurvivors owned snap) }
      | _ => s
  | .kill =>
      match s.phase.afterKill with
      | some (p, phase) => { s with table := s.table.exit 1 p, phase := phase }
      | none => s

/-- The session was launched, and nothing is sampled yet. -/
def start (m : Session) : Trial := ⟨m.table, [], [], .sampling, m.table⟩

/-- **A snapshot shows the processes that run**, each with its parent; of the reserved pids only their
own. -/
structure Shows (t : PidTable Pid) (snap : List ProcessSample) : Prop where
  runs : ∀ p, 1 < p → ∀ q, (ProcessTree.fromSamples snap).IsChild q p ↔
    ∃ pr, t.procs p = some pr ∧ pr.exited = false ∧ pr.parent = q
  reserved : ∀ x ∈ snap, x.pid ≤ 1 → x.ppid ≤ 1
  distinct : (ProcessTree.fromSamples snap).Distinct

/-- What the sampler answers is so. -/
def Faithful (s : Trial) : Event → Prop
  | .sample snap | .capture (some snap) | .escape (some snap) | .poll (some snap) =>
      Shows s.table snap
  | _ => True

/-! ### What snapshots say -/

section Snapshots

variable {t : PidTable Pid} {snap : List ProcessSample}

/-- `p` is in the subtree of a process under one of the pids `roots`. -/
def InSubtree (roots : List Pid) (t : PidTable Pid) (p : Pid) : Prop :=
  PidTable.Under (fun i => ∃ r ∈ roots, ∃ pr, t.procs r = some pr ∧ pr.ident = i) t p

theorem one_lt_of_procs (hv : t.Valid (· ≤ 1)) {p : Pid} {pr : Process Pid}
    (hp : t.procs p = some pr) : 1 < p := by
  by_contra hle
  rw [hv.free p (not_lt.mp hle)] at hp
  cases hp

/-- A snapshot shows a pid whose process runs, and no other. -/
theorem Shows.get_iff (hs : Shows t snap) {p : Pid} (hp : 1 < p) :
    ((ProcessTree.fromSamples snap).get p).isSome ↔ t.running p = true := by
  rw [ProcessTree.isSome_get, PidTable.running_iff]
  constructor
  · rintro ⟨x, hx, rfl⟩
    obtain ⟨pr, hpr, hrun, -⟩ := (hs.runs x.pid hp x.ppid).mp ⟨x, hx, rfl, rfl⟩
    exact ⟨pr, hpr, hrun⟩
  · rintro ⟨pr, hpr, hrun⟩
    obtain ⟨x, hx, hpid, -⟩ := (hs.runs p hp pr.parent).mpr ⟨pr, hpr, hrun, rfl⟩
    exact ⟨x, hx, hpid⟩

/-- A shown child of a real pid is a real pid. -/
theorem Shows.one_lt (hs : Shows t snap) {p q : Pid} (hq : 1 < q)
    (hc : (ProcessTree.fromSamples snap).IsChild q p) : 1 < p := by
  obtain ⟨x, hx, rfl, rfl⟩ := hc
  by_contra hle
  exact absurd (hs.reserved x hx (not_lt.mp hle)) (not_le.mpr hq)

/-- **What a snapshot shows at or under the roots**: the processes that run in their subtrees. -/
theorem Shows.atOrAbove_iff (hs : Shows t snap) (hv : t.Valid (· ≤ 1)) {roots : List Pid}
    (hroots : ∀ r ∈ roots, 1 < r) (p : Pid) :
    (∃ r ∈ roots, (ProcessTree.fromSamples snap).AtOrAbove r p) ↔
      t.running p = true ∧ InSubtree roots t p := by
  constructor
  · rintro ⟨r, hr, hsome, hrp⟩
    have hrun := (hs.get_iff (hroots r hr)).mp hsome
    obtain ⟨pr, hpr, -⟩ := PidTable.running_iff.mp hrun
    have hroot : InSubtree roots t r := .root hpr ⟨r, hr, pr, hpr, rfl⟩
    have hall : 1 < p ∧ t.running p = true ∧ InSubtree roots t p := by
      induction hrp with
      | refl => exact ⟨hroots r hr, hrun, hroot⟩
      | tail _ hc ih =>
          have hp := hs.one_lt ih.1 hc
          obtain ⟨pr, hpr, hex, rfl⟩ := (hs.runs _ hp _).mp hc
          exact ⟨hp, PidTable.running_iff.mpr ⟨pr, hpr, hex⟩, .child hpr ih.2.2⟩
    exact hall.2
  · rintro ⟨hrun, hin⟩
    induction hin with
    | root hp hr =>
        obtain ⟨r, hr, pr, hpr, heq⟩ := hr
        obtain rfl := hv.distinct _ _ _ _ hpr hp heq
        exact ⟨r, hr, (hs.get_iff (hroots r hr)).mpr hrun, .refl⟩
    | @child p pr hp hup ih =>
        -- the parent of a process runs, or is reserved; and who is in a subtree is not reserved
        obtain ⟨pr', hpr', hex⟩ := PidTable.running_iff.mp hrun
        obtain rfl := Option.some.inj (hp.symm.trans hpr')
        have hparent : t.running pr.parent = true := by
          refine (hv.parents p pr hp).resolve_left fun hle => ?_
          obtain ⟨pr'', hpr''⟩ := hup.procs
          rw [hv.free _ hle] at hpr''
          cases hpr''
        obtain ⟨r, hr, hsome, hrp⟩ := ih hparent
        have hc := (hs.runs p (one_lt_of_procs hv hp) pr.parent).mpr ⟨pr, hp, hex, rfl⟩
        exact ⟨r, hr, hsome, hrp.tail hc⟩

end Snapshots

/-! ### What a run keeps -/

/-- The owned set holds the processes that ran in the subtrees of the agents when it was captured. -/
def Captured (m : Session) (t : PidTable Pid) (owned : List OwnedProc) : Prop :=
  (owned.map (·.pid)).Nodup ∧
    ∀ p, p ∈ owned.map (·.pid) ↔ t.running p = true ∧ InSubtree m.roots t p

open Classical in
/-- **What is leaked**: the captured processes that still run. -/
noncomputable def Trial.leaked (s : Trial) (owned : List OwnedProc) : List OwnedProc :=
  owned.filter fun o => decide (s.atCapture.Outlives s.table o.pid)

/-- Only what was captured is measured, and the result counts all of it as owned and at least `leaked`
of it as leaked. -/
def Phase.Reports (leaked : List OwnedProc → Nat) : Phase → Prop
  | .polling owned _ => owned ≠ []
  | .killing owned r _ => owned ≠ [] ∧ r.ownedProcs = owned.length ∧ leaked owned ≤ r.leakedProcs
  | _ => True

/-- A table that makes sense, and the record of an earlier one. -/
structure Inv (m : Session) (s : Trial) : Prop where
  valid : s.table.Valid (· ≤ 1)
  captureValid : s.atCapture.Valid (· ≤ 1)
  since : s.atCapture.Since s.table
  owned : s.phase.owned ≠ [] → Captured m s.atCapture s.phase.owned
  reported : s.phase.Reports fun owned => (s.leaked owned).length

section Invariant

variable {m : Session} {s : Trial}

open Classical in
theorem leaked_sublist {t t₀ : PidTable Pid} {P : Pid → Bool} (owned : List OwnedProc)
    (hP : ∀ p, t₀.Outlives t p → P p = true) (s : Trial) (ht : s.table = t)
    (ht₀ : s.atCapture = t₀) : (s.leaked owned).Sublist (owned.filter fun o => P o.pid) := by
  subst ht ht₀
  exact List.monotone_filter_right owned fun o ho => hP o.pid (of_decide_eq_true ho)

open Classical in
/-- Less and less is leaked. -/
theorem leaked_le (hi : Inv m s) {t : PidTable Pid} (hs : s.table.Since t) (phase : Phase)
    (owned : List OwnedProc) :
    (Trial.leaked { s with table := t, phase := phase } owned).length
      ≤ (s.leaked owned).length := by
  refine List.Sublist.length_le (List.monotone_filter_right _ fun o ho => ?_)
  exact decide_eq_true ((of_decide_eq_true ho).of_since hi.captureValid hi.since hs)

theorem Phase.Reports.mono {phase : Phase} {f g : List OwnedProc → Nat} (h : phase.Reports f)
    (hle : ∀ owned, g owned ≤ f owned) : phase.Reports g := by
  cases phase with
  | killing owned r queue => exact ⟨h.1, h.2.1, (hle owned).trans h.2.2⟩
  | _ => exact h

/-- The processes go on, and the trial with what it has captured. -/
theorem Inv.table (hi : Inv m s) {t : PidTable Pid} {phase : Phase} (hv : t.Valid (· ≤ 1))
    (hs : s.table.Since t) (howned : phase.owned = s.phase.owned)
    (hphase : ∀ f, s.phase.Reports f → phase.Reports f) :
    Inv m { s with table := t, phase := phase } := by
  refine ⟨hv, hi.captureValid, hi.since.trans hs, fun hne => ?_, ?_⟩
  · show Captured m s.atCapture phase.owned
    rw [howned]
    exact hi.owned (howned ▸ hne)
  · exact (hphase _ hi.reported).mono (leaked_le hi hs phase)

/-- Only what the trial has in its hands changes. -/
theorem Inv.hold (hi : Inv m s) {phase : Phase} (seen confirmed : List Pid)
    (howned : phase.owned ≠ [] → Captured m s.atCapture phase.owned)
    (hphase : phase.Reports fun owned => (s.leaked owned).length) :
    Inv m { s with seen := seen, confirmed := confirmed, phase := phase } :=
  ⟨hi.valid, hi.captureValid, hi.since, howned, hphase⟩

theorem Phase.afterKill_some {phase phase' : Phase} {p : Pid}
    (h : phase.afterKill = some (p, phase')) :
    phase.queue = p :: phase'.queue ∧ phase'.owned = phase.owned ∧
      ∀ f, phase.Reports f → phase'.Reports f := by
  cases phase with
  | reaping owned queue =>
      cases queue with
      | nil => cases h
      | cons q queue =>
          obtain ⟨rfl, rfl⟩ := Prod.mk.inj (Option.some.inj h)
          exact ⟨rfl, rfl, fun _ _ => trivial⟩
  | killing owned r queue =>
      cases queue with
      | nil => cases h
      | cons q queue =>
          obtain ⟨rfl, rfl⟩ := Prod.mk.inj (Option.some.inj h)
          exact ⟨rfl, rfl, fun _ hr => hr⟩
  | _ => cases h

theorem currentSurvivors_eq (owned : List OwnedProc) (snap : Option (List ProcessSample)) :
    currentSurvivors owned snap = (owned.filter fun o => snap.all fun samples =>
      ((ProcessTree.fromSamples samples).get o.pid).isSome).map (·.pid) := by
  cases snap with
  | none => simp [currentSurvivors]
  | some samples =>
      simp only [currentSurvivors, survivorsOf, List.filter_map, Option.all_some]
      rfl

/-- **A captured process that runs is found by a poll.** -/
theorem found_of_outlives (hi : Inv m s) {snap : Option (List ProcessSample)}
    (hf : Faithful s (.poll snap)) {p : Pid} (ho : s.atCapture.Outlives s.table p) :
    (snap.all fun samples => ((ProcessTree.fromSamples samples).get p).isSome) = true := by
  cases snap with
  | none => rfl
  | some samples =>
      have hrun := ho.running hi.captureValid hi.since
      obtain ⟨pr, hpr, -⟩ := PidTable.running_iff.mp hrun
      exact ((hf : Shows s.table samples).get_iff (one_lt_of_procs hi.valid hpr)).mpr hrun

theorem leaked_le_survivors (hi : Inv m s) {snap : Option (List ProcessSample)}
    (hf : Faithful s (.poll snap)) (owned : List OwnedProc) :
    (s.leaked owned).length ≤ (currentSurvivors owned snap).length := by
  rw [currentSurvivors_eq, List.length_map]
  exact (leaked_sublist owned (fun p ho => found_of_outlives hi hf ho) s rfl rfl).length_le

theorem inv_step (m : Session) (s : Trial) (e : Event) (hi : Inv m s) (hf : Faithful s e) :
    Inv m (step m s e) := by
  cases e with
  | fork parent pid =>
      dsimp only [step]
      split
      · next hok =>
        obtain ⟨hrun, hfree, h1⟩ := hok
        exact hi.table (hi.valid.birth (not_le.mpr h1) hfree hrun) (PidTable.since_birth _ _ _) rfl
          fun _ h => h
      · exact hi
  | exit pid =>
      exact hi.table (hi.valid.exit le_rfl pid) (PidTable.since_exit _ _ _) rfl fun _ h => h
  | release pid =>
      dsimp only [step]
      split
      · next hrun =>
        exact hi.table (hi.valid.release hrun) (PidTable.since_release _ _) rfl fun _ h => h
      · exact hi
  | sample snap =>
      dsimp only [step]
      split
      · exact hi.hold _ _ hi.owned hi.reported
      · exact hi
  | capture snap =>
      dsimp only [step]
      split
      · refine ⟨hi.valid, hi.valid, .refl _, fun hne => ?_, trivial⟩
        cases snap with
        | none => exact absurd rfl hne
        | some samples =>
            obtain ⟨hnodup, hmem⟩ := mem_captureOwnedSet m.roots samples
            refine ⟨hnodup, fun p => ?_⟩
            exact (hmem p).trans ((hf : Shows s.table samples).atOrAbove_iff hi.valid m.real p)
      · exact hi
  | escape snap =>
      dsimp only [step]
      split
      · next owned hphase =>
        have howned := hi.owned
        rw [hphase] at howned
        exact hi.hold _ _ howned trivial
      · exact hi
  | stop =>
      have hstop : Inv m { s with
          phase := if s.phase.owned = [] then .skipped else .polling s.phase.owned polls } := by
        split
        · exact hi.hold _ _ (fun hne => absurd rfl hne) trivial
        · next hne => exact hi.hold _ _ (fun _ => hi.owned hne) hne
      dsimp only [step]
      split
      · next owned hphase =>
        rw [hphase] at hstop
        exact hstop
      · next owned hphase =>
        rw [hphase] at hstop
        exact hstop
      · exact hi
  | poll snap =>
      dsimp only [step]
      split
      · next owned left hphase =>
        have howned := hi.owned
        have hne := hi.reported
        rw [hphase] at howned hne
        unfold Phase.poll
        -- the result counts whom the poll has found, and whoever is leaked is found
        split
        · exact hi.hold _ _ howned ⟨hne, rfl, leaked_le_survivors hi hf owned⟩
        · exact hi.hold _ _ howned hne
      · exact hi
  | kill =>
      dsimp only [step]
      split
      · next p phase hkill =>
        obtain ⟨-, howned, hphase⟩ := Phase.afterKill_some hkill
        exact hi.table (hi.valid.exit le_rfl p) (PidTable.since_exit _ _ _) howned hphase
      · exact hi

theorem inv_start (m : Session) : Inv m (start m) :=
  ⟨m.valid, m.valid, .refl _, fun hne => absurd rfl hne, trivial⟩

theorem inv_run (m : Session) {es : List Event} (hes : Run.Allowed (step m) Faithful (start m) es) :
    Inv m (Run.run (step m) (start m) es) :=
  Run.invariant (inv_step m) (inv_start m) hes

/-- What a poll finds: without a snapshot everybody, else whoever runs. -/
theorem found_iff {snap : Option (List ProcessSample)}
    (hf : Faithful s (.poll snap)) {p : Pid} (hp : 1 < p) :
    (snap.all fun samples => ((ProcessTree.fromSamples samples).get p).isSome) = true ↔
      (snap.isSome = true → s.table.running p = true) := by
  cases snap with
  | none => simp
  | some samples => simpa using (hf : Shows s.table samples).get_iff hp

/-- The result is made from whom the last poll has found. -/
theorem poll_result {snap : Option (List ProcessSample)} {owned owned' : List OwnedProc} {left : Nat}
    (hdue : s.phase = .polling owned left) {r : CleanupResult} {queue : List Pid}
    (hend : (step m s (.poll snap)).phase = .killing owned' r queue) :
    r = .fromOwnedAndSurvivors owned (currentSurvivors owned snap) := by
  dsimp only [step] at hend
  rw [hdue] at hend
  cases left with
  | zero => cases hdue.symm.trans hend
  | succ left =>
      dsimp only [Phase.poll] at hend
      split at hend
      · exact (Phase.killing.inj hend).2.1.symm
      · cases hend

/-- The bytes of a result are those of the processes that the poll has found. -/
theorem bytes_fromOwnedAndSurvivors (owned : List OwnedProc) (f : Pid → Bool) :
    (CleanupResult.fromOwnedAndSurvivors owned
      ((owned.filter fun o => f o.pid).map (·.pid))).leakedBytes
        = wrapSum ((owned.filter fun o => f o.pid).map (·.accountedBytes)) := by
  have hfilter : owned.filter (fun o => decide (o.pid ∈ (owned.filter fun o => f o.pid).map (·.pid)))
      = owned.filter fun o => f o.pid := by
    refine List.filter_congr fun o ho => ?_
    rw [Bool.eq_iff_iff, decide_eq_true_iff, List.mem_map]
    constructor
    · rintro ⟨o', ho', heq⟩
      rw [← heq]
      exact (List.mem_filter.mp ho').2
    · exact fun hfound => ⟨o, List.mem_filter.mpr ⟨ho, hfound⟩, rfl⟩
  exact congrArg (fun l => wrapSum (l.map (·.accountedBytes))) hfilter

end Invariant

/-! ### The report -/

/-- An agent that runs by itself. -/
def loneAgent : ProcessSample := ⟨100, 1, "agent", 1000, none, none⟩

/-- The table with it alone. -/
def loneTable : PidTable Pid where
  procs p := if p = 100 then some ⟨1, 0, false⟩ else none
  born := 1

theorem procs_loneTable {p : Pid} {pr : Process Pid} :
    loneTable.procs p = some pr ↔ p = 100 ∧ pr = ⟨1, 0, false⟩ := by
  show (if p = 100 then some (⟨1, 0, false⟩ : Process Pid) else none) = some pr ↔ _
  split
  · next hp => exact ⟨fun h => ⟨hp, (Option.some.inj h).symm⟩, fun h => congrArg some h.2.symm⟩
  · next hp => exact ⟨nofun, fun h => absurd h.1 hp⟩

def loneSession : Session where
  table := loneTable
  valid := by
    refine ⟨fun p hp => ?_, fun p pr hp => ?_, fun p q pr pr' hp hq _ => ?_, fun p pr hp => ?_⟩
    · refine if_neg ?_
      rintro rfl
      exact absurd hp (by decide)
    · rw [(procs_loneTable.mp hp).2]
      decide
    · rw [(procs_loneTable.mp hp).1, (procs_loneTable.mp hq).1]
    · rw [(procs_loneTable.mp hp).2]
      exact .inl le_rfl
  roots := [100]
  real := by decide

theorem shows_loneTable : Shows loneTable [loneAgent] := by
  refine ⟨fun p _ q => ?_, by decide, List.nodup_singleton _⟩
  simp only [procs_loneTable]
  constructor
  · rintro ⟨x, hx, rfl, rfl⟩
    obtain rfl := List.mem_singleton.mp hx
    exact ⟨_, ⟨rfl, rfl⟩, rfl, rfl⟩
  · rintro ⟨pr, ⟨rfl, rfl⟩, -, rfl⟩
    exact ⟨loneAgent, List.mem_cons_self, rfl, rfl⟩

/-- Once it has exited, nobody runs. -/
theorem shows_loneTable_exit : Shows (loneTable.exit 1 100) [] := by
  refine ⟨fun p _ q => ?_, by decide, List.nodup_nil⟩
  constructor
  · rintro ⟨x, hx, -⟩
    exact absurd hx List.not_mem_nil
  · rintro ⟨pr, hpr, hrun, -⟩
    obtain ⟨old, hold, rfl⟩ := PidTable.procs_exit.mp hpr
    obtain ⟨rfl, rfl⟩ := procs_loneTable.mp hold
    cases hrun

/-- **No leak is under-reported.**  However the processes fork and exit while the trial goes on, once
there is a result, then and ever after, at least as many processes are reported as leaked as still run
of those that ran in the subtrees of the agents when the owned set was captured. -/
theorem leak_never_underreported (m : Session) (es : List Event)
    (hes : Run.Allowed (step m) Faithful (start m) es) {owned : List OwnedProc} {r : CleanupResult}
    {queue : List Pid} (hend : (Run.run (step m) (start m) es).phase = .killing owned r queue) :
    let s := Run.run (step m) (start m) es
    Captured m s.atCapture owned ∧ r.ownedProcs = owned.length ∧
      (s.leaked owned).length ≤ r.leakedProcs := by
  intro s
  have hi := inv_run m hes
  have howned := hi.owned
  have hreports := hi.reported
  rw [hend] at howned hreports
  exact ⟨howned hreports.1, hreports.2⟩

/-- The agent does not go, and no poll gets a snapshot. -/
theorem leak_never_underreported_blind :
    ∃ owned r queue,
      let es := [.capture (some [loneAgent]), .stop] ++ List.replicate 20 (.poll none)
      let s := Run.run (step loneSession) (start loneSession) es
      s.phase = .killing owned r queue ∧ Captured loneSession s.atCapture owned ∧
        r.ownedProcs = owned.length ∧ (s.leaked owned).length ≤ r.leakedProcs := by
  refine ⟨_, _, _, rfl, leak_never_underreported loneSession _ ?_ rfl⟩
  refine ⟨shows_loneTable, trivial, ?_⟩
  repeat' constructor

open Classical in
/-- **When the report is exact.**  When the last poll makes the result, it counts the processes that are
leaked, and their bytes, if and only if no other process runs under the pid of a captured one, and,
should there be no snapshot, all captured processes still run. -/
theorem leak_exact_iff (m : Session) (es : List Event)
    (hes : Run.Allowed (step m) Faithful (start m) es) {snap : Option (List ProcessSample)}
    (hf : Faithful (Run.run (step m) (start m) es) (.poll snap)) {owned : List OwnedProc} {left : Nat}
    (hdue : (Run.run (step m) (start m) es).phase = .polling owned left) {r : CleanupResult}
    {queue : List Pid}
    (hend : (step m (Run.run (step m) (start m) es) (.poll snap)).phase = .killing owned r queue) :
    let s := Run.run (step m) (start m) es
    (r.leakedProcs = (s.leaked owned).length ∧
        r.leakedBytes = wrapSum ((s.leaked owned).map (·.accountedBytes))) ↔
      ∀ o ∈ owned, (snap.isSome = true → s.table.running o.pid = true) →
        s.atCapture.Outlives s.table o.pid := by
  intro s
  have hi : Inv m s := inv_run m hes
  have hcapt : Captured m s.atCapture owned := by
    have howned := hi.owned
    have hreports := hi.reported
    rw [show s.phase = _ from hdue] at howned hreports
    exact howned hreports
  let found : Pid → Bool :=
    fun p => snap.all fun samples => ((ProcessTree.fromSamples samples).get p).isSome
  have hr : r = .fromOwnedAndSurvivors owned ((owned.filter fun o => found o.pid).map (·.pid)) :=
    (poll_result hdue hend).trans (by rw [currentSurvivors_eq])
  have hreal : ∀ o ∈ owned, 1 < o.pid := by
    intro o ho
    obtain ⟨hrun, -⟩ := (hcapt.2 o.pid).mp (List.mem_map_of_mem ho)
    obtain ⟨pr, hpr, -⟩ := PidTable.running_iff.mp hrun
    exact one_lt_of_procs hi.captureValid hpr
  have hsub : (s.leaked owned).Sublist (owned.filter fun o => found o.pid) :=
    leaked_sublist owned (fun p ho => found_of_outlives hi hf ho) s rfl rfl
  have hprocs : r.leakedProcs = (owned.filter fun o => found o.pid).length := by
    rw [hr]
    exact List.length_map _
  have hbytes : r.leakedBytes
      = wrapSum ((owned.filter fun o => found o.pid).map (·.accountedBytes)) := by
    rw [hr]
    exact bytes_fromOwnedAndSurvivors owned found
  constructor
  · rintro ⟨hcount, -⟩ o ho hseen
    have heq : s.leaked owned = owned.filter fun o => found o.pid :=
      hsub.eq_of_length (hcount.symm.trans hprocs)
    have hin : o ∈ s.leaked owned := by
      rw [heq]
      exact List.mem_filter.mpr ⟨ho, (found_iff hf (hreal o ho)).mpr hseen⟩
    exact of_decide_eq_true (List.mem_filter.mp hin).2
  · intro hall
    have heq : s.leaked owned = owned.filter fun o => found o.pid := by
      refine List.filter_congr fun o ho => ?_
      rw [Bool.eq_iff_iff, decide_eq_true_iff]
      refine ⟨fun hout => found_of_outlives hi hf hout, fun hfound => ?_⟩
      exact hall o ho ((found_iff hf (hreal o ho)).mp hfound)
    rw [heq]
    exact ⟨hprocs, hbytes⟩

/-- The agent goes, and the first poll sees it. -/
theorem leak_exact_iff_gone :
    ∃ owned left r,
      let s := Run.run (step loneSession) (start loneSession)
        [.capture (some [loneAgent]), .stop, .exit 100]
      s.phase = .polling owned left ∧
        (step loneSession s (.poll (some []))).phase = .killing owned r [] ∧
        ((r.leakedProcs = (s.leaked owned).length ∧
            r.leakedBytes = wrapSum ((s.leaked owned).map (·.accountedBytes))) ↔
          ∀ o ∈ owned, (true = true → s.table.running o.pid = true) →
            s.atCapture.Outlives s.table o.pid) :=
  ⟨_, _, _, rfl, rfl, @leak_exact_iff loneSession [.capture (some [loneAgent]), .stop, .exit 100]
    ⟨shows_loneTable, trivial, trivial, trivial⟩ (some []) shows_loneTable_exit _ _ rfl _ _ rfl⟩

/-! ### Escapes -/

/-- In the sampling loop a tick found `p` running in the subtree of an agent. -/
def SeenUnderRoot (m : Session) (es : List Event) (p : Pid) : Prop :=
  ∃ q snap, q ++ [.sample snap] <+: es ∧ (Run.run (step m) (start m) q).phase = .sampling ∧
    (Run.run (step m) (start m) q).table.running p = true ∧
      InSubtree m.roots (Run.run (step m) (start m) q).table p

/-- Nothing but the loop records pids. -/
theorem seen_step (m : Session) (s : Trial) (e : Event) (hi : Inv m s) (hf : Faithful s e) (p : Pid) :
    p ∈ (step m s e).seen ↔ p ∈ s.seen ∨ (∃ snap, e = .sample snap) ∧ s.phase = .sampling ∧
      s.table.running p = true ∧ InSubtree m.roots s.table p := by
  cases e with
  | sample snap =>
      dsimp only [step]
      split
      · next hphase =>
        rw [mem_recordSeen, (hf : Shows s.table snap).atOrAbove_iff hi.valid m.real]
        refine or_congr_right ⟨fun h => ⟨⟨snap, rfl⟩, hphase, h⟩, fun h => h.2.2⟩
      · next hphase => exact ⟨.inl, fun h => h.resolve_right fun h => hphase h.2.1⟩
  | _ =>
      refine Iff.trans ?_ (or_iff_left (by rintro ⟨⟨snap, heq⟩, -⟩; cases heq)).symm
      dsimp only [step]
      first
        | exact Iff.rfl
        | split <;> exact Iff.rfl

/-- **What the loop has recorded.** -/
theorem mem_seen (m : Session) {es : List Event} (hes : Run.Allowed (step m) Faithful (start m) es)
    (p : Pid) : p ∈ (Run.run (step m) (start m) es).seen ↔ SeenUnderRoot m es p := by
  induction es using List.reverseRecOn with
  | nil =>
      refine ⟨fun hp => absurd hp List.not_mem_nil, ?_⟩
      rintro ⟨q, snap, hq, -⟩
      simp at hq
  | append_singleton es e ih =>
      obtain ⟨hes, hf, -⟩ := Run.allowed_append.mp hes
      rw [Run.run_append, Run.run_cons, Run.run_nil, seen_step m _ e (inv_run m hes) hf, ih hes]
      constructor
      · rintro (⟨q, snap, hq, h⟩ | ⟨⟨snap, rfl⟩, h⟩)
        · exact ⟨q, snap, hq.trans (List.prefix_append _ _), h⟩
        · exact ⟨es, snap, List.prefix_rfl, h⟩
      · rintro ⟨q, snap, hq, h⟩
        -- the last event, or an earlier one
        rcases List.prefix_concat_iff.mp hq with heq | hq
        · obtain ⟨rfl, he⟩ := List.append_inj' heq rfl
          exact .inr ⟨⟨snap, (List.singleton_injective he).symm⟩, h⟩
        · exact .inl ⟨q, snap, hq, h⟩

theorem mem_confirmReparented {tree : ProcessTree} (ht : tree.Distinct)
    {candidates agentRoots : List Pid} {p : Pid} :
    p ∈ confirmReparented tree candidates agentRoots ↔
      p ∈ candidates ∧ (tree.get p).isSome ∧ ¬ ∃ r ∈ agentRoots, tree.AtOrAbove r p := by
  rw [confirmReparented, List.mem_filter, Bool.and_eq_true, Option.isNone_iff_eq_none]
  refine and_congr_right fun _ => and_congr_right fun hsome => ?_
  rw [ht.nearestAncestorIn_eq_none hsome]
  push Not
  rfl

/-- **What the harness confirms as escaped**: the pids that the sampling loop found in the subtree of an
agent, and that run outside all of these subtrees by now. -/
theorem confirmed_iff (m : Session) (es : List Event)
    (hes : Run.Allowed (step m) Faithful (start m) es) {snap : List ProcessSample}
    (hsnap : Shows (Run.run (step m) (start m) es).table snap) {owned : List OwnedProc}
    (hdue : (Run.run (step m) (start m) es).phase = .captured owned) (p : Pid) :
    let s := Run.run (step m) (start m) es
    p ∈ (step m s (.escape (some snap))).confirmed ↔
      SeenUnderRoot m es p ∧ s.table.running p = true ∧ ¬ InSubtree m.roots s.table p := by
  intro s
  have hi : Inv m s := inv_run m hes
  have hconf : (step m s (.escape (some snap))).confirmed
      = confirmReparented (.fromSamples snap) s.seen m.roots := by
    dsimp only [step]
    rw [show s.phase = _ from hdue]
    rfl
  rw [hconf, mem_confirmReparented hsnap.distinct, hsnap.atOrAbove_iff hi.valid m.real, mem_seen m hes]
  refine and_congr_right fun hseen => ?_
  -- a pid that was seen is no reserved one
  have hp : 1 < p := by
    obtain ⟨q, snap', ⟨rest, rfl⟩, -, hrun, -⟩ := hseen
    have hq := (Run.allowed_append.mp (Run.allowed_append.mp hes).1).1
    obtain ⟨pr, hpr, -⟩ := PidTable.running_iff.mp hrun
    exact one_lt_of_procs (inv_run m hq).valid hpr
  rw [hsnap.get_iff hp]
  exact and_congr_right fun hrun => not_congr (and_iff_right hrun)

/-- The agent was seen and is still an agent. -/
theorem confirmed_iff_seen :
    let es := [.sample [loneAgent], .capture (some [loneAgent])]
    let s := Run.run (step loneSession) (start loneSession) es
    (100 : Pid) ∈ (step loneSession s (.escape (some [loneAgent]))).confirmed ↔
      SeenUnderRoot loneSession es 100 ∧ s.table.running 100 = true ∧
        ¬ InSubtree loneSession.roots s.table 100 :=
  confirmed_iff loneSession [.sample [loneAgent], .capture (some [loneAgent])]
    ⟨shows_loneTable, shows_loneTable, trivial⟩ shows_loneTable rfl 100

/-- **The harness and the daemon agree on escapes**: on one snapshot, with the same roots and the same
pids seen under them, the harness confirms the processes that the daemon's reconciliation flags. -/
theorem confirmed_iff_flagged (tree : ProcessTree) (ht : (tree.samples.map (·.pid)).Nodup)
    (roots : List (String × Pid)) (seen : KeyMap String (List Pid)) {candidates : List Pid}
    (hseen : ∀ p, p ∈ candidates ↔ ∃ e ∈ seen.entries, p ∈ e.2) (p : Pid) :
    p ∈ confirmReparented tree candidates (roots.map (·.2)) ↔
      p ∈ (managedReconcile tree roots seen).escaped.map (·.pid) := by
  have hflagged : (managedReconcile tree roots seen).escaped.map (·.pid)
      = (attributeTree (managedTree tree roots seen) (managedRoots roots)
          (managedExpected seen)).escapedPids := by
    rw [managedReconcile_eq, reconcileTree, List.map_map]
    exact List.map_id' _
  rw [hflagged, mem_escapedPids ht, mem_confirmReparented ht, hseen]
  constructor
  · rintro ⟨hp, hsome, hnot⟩
    refine ⟨hsome, hp, ?_⟩
    rintro ⟨r, hr, habove⟩
    exact hnot ⟨r.2, List.mem_map_of_mem hr, habove⟩
  · rintro ⟨hsome, hp, hnot⟩
    refine ⟨hp, hsome, ?_⟩
    rintro ⟨q, hq, habove⟩
    obtain ⟨r, hr, rfl⟩ := List.mem_map.mp hq
    exact hnot ⟨r, hr, habove⟩

/-- A provider with a child, and a server it once ran that hangs off init by now. -/
theorem confirmed_iff_flagged_server :
    let tree := ProcessTree.fromSamples [⟨10, 1, "claude", 5, none, none⟩,
      ⟨11, 10, "node", 3, none, none⟩, ⟨12, 1, "server", 2, none, none⟩]
    ∀ p, p ∈ confirmReparented tree [11, 12] [10] ↔
      p ∈ (managedReconcile tree [("task_1", 10)] (.ofList [("task_1", [11, 12])])).escaped.map
        (·.pid) := by
  refine confirmed_iff_flagged _ (by decide) [("task_1", 10)] _ fun p => ?_
  simp [KeyMap.ofList]

end MemMux.Cleanup
