/-
MemMux/Teardown.lean

`terminate_subtree` among the processes it is to end (`memmux-metrics/src/terminate.rs`).

The targets are sampled once, at the first snapshot.  Meanwhile processes fork and exit, and the
children of those that exit are adopted by others.  Here every statement of the sweep is a step of
its own, and a run is any interleaving of these steps with those of the processes.

`gone_of_fullyCleaned` says what a clean report means: whoever was in the subtree of the root at the
first snapshot is gone.  A child forked afterwards was not sampled, and nothing looks for it
(`clean_report_with_orphan`).
-/
import MemMux.Reaping

namespace MemMux.Teardown

open Reaping (sweepTargets)

/-! ### Processes -/

/-- When a process was first there, seen from the first snapshot. -/
inductive Origin
  /-- the first snapshot is still to come -/
  | early
  /-- in the subtree of the root at the first snapshot -/
  | listed
  /-- there at the first snapshot, outside the subtree -/
  | outside
  /-- forked after the first snapshot -/
  | late
  deriving DecidableEq, Repr

/-- A live process: what a sampler sees of it, and what no sampler sees, whether it descends from
the root or from a target, and its origin. -/
structure Proc where
  sample : ProcessSample
  kin : Bool
  origin : Origin
  deriving DecidableEq, Repr

/-- `p` is in the subtree of `root`. -/
def inSubtree (samples : List ProcessSample) (root p : Pid) : Bool :=
  decide (p ∈ root :: (ProcessTree.fromSamples samples).descendants root)

/-- A child of the process under `parent`, if there is one, under a pid that is free. -/
def fork (parent child : Pid) (late : Bool) (procs : List Proc) : List Proc :=
  match procs.find? (·.sample.pid == parent) with
  | some p =>
      if procs.any (·.sample.pid == child) then procs
      else
        procs ++ [⟨{ p.sample with pid := child, ppid := parent }, p.kin,
          if late then .late else .early⟩]
  | none => procs

/-- The process under `pid` is gone, and `heir` adopts its children. -/
def leave (pid heir : Pid) (procs : List Proc) : List Proc :=
  (procs.filter (·.sample.pid != pid)).map fun p =>
    if p.sample.ppid = pid then { p with sample := { p.sample with ppid := heir } } else p

/-- The first snapshot: who is in the subtree of the root is a target. -/
def Proc.mark (samples : List ProcessSample) (root : Pid) (p : Proc) : Proc :=
  if inSubtree samples root p.sample.pid then { p with kin := true, origin := .listed }
  else { p with origin := .outside }

/-! ### The sweep -/

/-- The next statement of the sweep. -/
inductive Phase
  /-- the first snapshot -/
  | begin
  /-- SIGTERM to the pids of `queue`, then, after the grace period, the second snapshot -/
  | term (targeted queue : List Pid)
  /-- SIGKILL to the pids of `queue`, then the final snapshot -/
  | kill (targeted survivors queue : List Pid)
  /-- the report, made from the final snapshot -/
  | done (report : TerminationReport)
  /-- an error was returned -/
  | failed
  deriving DecidableEq, Repr

/-- A sweep of the subtree of `root` among all processes. -/
structure Sweep where
  root : Pid
  procs : List Proc
  phase : Phase
  deriving DecidableEq, Repr

/-- What a sampler sees. -/
def Sweep.samples (s : Sweep) : List ProcessSample := s.procs.map (·.sample)

/-- The call of `terminate_subtree`. -/
def start (root : Pid) (samples : List ProcessSample) : Sweep :=
  ⟨root, samples.map fun x => ⟨x, inSubtree samples root x.pid, .early⟩, .begin⟩

/-- `terminate_pids` begins. -/
def Phase.ofPids (pids : List Pid) : Phase :=
  if sweepTargets pids = [] then .done ⟨sweepTargets pids, [], false⟩
  else .term (sweepTargets pids) (sweepTargets pids).reverse

/-- The pids that a snapshot shows. -/
def Sweep.seen (s : Sweep) (pids : List Pid) : List Pid :=
  pids.filter fun p => ((ProcessTree.fromSamples s.samples).get p).isSome

/-- The next statement.  `ok` is what the outside answers: a snapshot can be taken, a process obeys
SIGTERM.  Nobody survives SIGKILL. -/
def Sweep.next (s : Sweep) (ok : Bool) (heir : Pid) : Sweep :=
  match s.phase with
  | .begin =>
      if s.root ≤ 1 ∨ !ok then { s with phase := .failed }
      else
        { s with
            procs := s.procs.map (·.mark s.samples s.root)
            phase := .ofPids (terminationTargets (ProcessTree.fromSamples s.samples) s.root) }
  | .term targeted (p :: queue) =>
      { s with
          procs := if ok then leave p heir s.procs else s.procs
          phase := .term targeted queue }
  | .term targeted [] =>
      if !ok then { s with phase := .failed }
      else if s.seen targeted = [] then { s with phase := .done ⟨targeted, [], false⟩ }
      else { s with phase := .kill targeted (s.seen targeted) (s.seen targeted) }
  | .kill targeted survivors (p :: queue) =>
      { s with procs := leave p heir s.procs, phase := .kill targeted survivors queue }
  | .kill targeted survivors [] =>
      if !ok then { s with phase := .failed }
      else { s with phase := .done ⟨targeted, s.seen survivors, true⟩ }
  | .done _ | .failed => s

/-- The call has returned. -/
def Phase.returned : Phase → Bool
  | .done _ | .failed => true
  | _ => false

/-- One step of a process or of the sweep. -/
inductive Event
  | fork (parent child : Pid)
  | exit (pid heir : Pid)
  | sweep (ok : Bool) (heir : Pid)
  deriving DecidableEq, Repr

/-- What an event does.  What happens after the final snapshot is not looked at. -/
def step (s : Sweep) (e : Event) : Sweep :=
  if s.phase.returned then s
  else
    match e with
    | .fork parent child => { s with procs := fork parent child (s.phase != .begin) s.procs }
    | .exit pid heir => { s with procs := leave pid heir s.procs }
    | .sweep ok heir => s.next ok heir

/-- **An honest report**: a clean one leaves no descendant of the root or of a target alive. -/
def Honest (s : Sweep) : Prop :=
  ∀ r, s.phase = .done r → r.fullyCleaned = true → ∀ p ∈ s.procs, p.kin = false

/-! ### Who may still be alive -/

/-- Who is there after an exit was there before, maybe with another parent. -/
theorem of_mem_leave {pid heir : Pid} {procs : List Proc} {p : Proc}
    (hp : p ∈ leave pid heir procs) :
    ∃ q ∈ procs, q.sample.pid = p.sample.pid ∧ q.origin = p.origin := by
  obtain ⟨q, hq, rfl⟩ := List.mem_map.mp hp
  refine ⟨q, (List.mem_filter.mp hq).1, ?_⟩
  split <;> exact ⟨rfl, rfl⟩

/-- Who is there after a fork was there before, or is the child. -/
theorem of_mem_fork {parent child : Pid} {late : Bool} {procs : List Proc} {p : Proc}
    (hp : p ∈ fork parent child late procs) :
    p ∈ procs ∨ p.origin = if late then .late else .early := by
  unfold fork at hp
  split at hp
  · split at hp
    · exact .inl hp
    · rcases List.mem_append.mp hp with hp | hp
      · exact .inl hp
      · rw [List.mem_singleton.mp hp]
        exact .inr rfl
  · exact .inl hp

theorem mem_sweepTargets {pids : List Pid} {p : Pid} :
    p ∈ sweepTargets pids ↔ p ∈ pids ∧ 1 < p := by
  rw [sweepTargets, List.mem_insertionSort, List.mem_dedup, List.mem_filter, decide_eq_true_iff]

/-- A snapshot shows whoever is there. -/
theorem mem_seen {s : Sweep} {pids : List Pid} {p : Proc} (hp : p ∈ s.procs)
    (hin : p.sample.pid ∈ pids) : p.sample.pid ∈ s.seen pids :=
  List.mem_filter.mpr ⟨hin, ProcessTree.isSome_get.mpr ⟨_, List.mem_map_of_mem hp, rfl⟩⟩

/-- The pids that the sweep holds for alive. -/
def Phase.suspects : Phase → Option (List Pid)
  | .term targeted _ => some targeted
  | .kill _ survivors _ => some survivors
  | .done report => some report.survivors
  | .begin | .failed => none

/-- **Whoever was in the subtree at the first snapshot, and is still there, is under a pid that the
sweep holds for alive.** -/
def Accounted (s : Sweep) : Prop :=
  ∀ pids, s.phase.suspects = some pids → ∀ p ∈ s.procs,
    p.origin ≠ .early ∧ (p.origin = .listed → 1 < p.sample.pid → p.sample.pid ∈ pids)

theorem Accounted.leave {s : Sweep} {phase : Phase} (hs : Accounted s)
    (hphase : phase.suspects = s.phase.suspects) (pid heir : Pid) :
    Accounted { s with procs := leave pid heir s.procs, phase := phase } := by
  intro pids hpids p hp
  obtain ⟨q, hq, hpid, horigin⟩ := of_mem_leave hp
  rw [← hpid, ← horigin]
  exact hs pids (hphase.symm.trans hpids) q hq

/-- The first snapshot targets the whole subtree. -/
theorem accounted_ofPids (s : Sweep) :
    Accounted { s with
      procs := s.procs.map (·.mark s.samples s.root)
      phase := .ofPids (terminationTargets (ProcessTree.fromSamples s.samples) s.root) } := by
  intro pids hpids p hp
  obtain ⟨q, hq, rfl⟩ := List.mem_map.mp hp
  set targets := terminationTargets (ProcessTree.fromSamples s.samples) s.root with htargets
  have hsuspects : sweepTargets targets = pids := by
    unfold Phase.ofPids at hpids
    split at hpids
    · next hnil => rw [hnil]; exact Option.some.inj hpids
    · exact Option.some.inj hpids
  unfold Proc.mark
  split
  · next hin =>
    refine ⟨nofun, fun _ hlt => ?_⟩
    show q.sample.pid ∈ pids
    rw [← hsuspects, mem_sweepTargets, htargets, mem_terminationTargets]
    exact ⟨⟨(List.mem_cons.mp (of_decide_eq_true hin)).symm, hlt⟩, hlt⟩
  · exact ⟨nofun, nofun⟩

/-- Whom a snapshot does not show any more is gone. -/
theorem Accounted.seen {s : Sweep} {pids : List Pid} {phase : Phase} (hs : Accounted s)
    (hpids : s.phase.suspects = some pids) (hphase : phase.suspects = some (s.seen pids)) :
    Accounted { s with phase := phase } := by
  intro pids' hpids' p hp
  obtain rfl : s.seen pids = pids' := Option.some.inj (hphase.symm.trans hpids')
  obtain ⟨hearly, hlisted⟩ := hs pids hpids p hp
  exact ⟨hearly, fun hor hlt => mem_seen hp (hlisted hor hlt)⟩

theorem accounted_failed (s : Sweep) : Accounted { s with phase := .failed } :=
  fun _ hpids => nomatch hpids

theorem accounted_next {s : Sweep} (hs : Accounted s) (ok : Bool) (heir : Pid) :
    Accounted (s.next ok heir) := by
  unfold Sweep.next
  split
  · split
    · exact accounted_failed s
    · exact accounted_ofPids s
  · next targeted p queue hphase =>
    cases ok with
    | true => exact hs.leave (by rw [hphase]; rfl) p heir
    | false => exact fun pids hpids => hs pids (by rw [hphase]; exact hpids)
  · next targeted hphase =>
    have hsuspects : s.phase.suspects = some targeted := by rw [hphase]; rfl
    split
    · exact accounted_failed s
    · split
      · next hnil => exact hs.seen hsuspects (by rw [hnil]; rfl)
      · exact hs.seen hsuspects rfl
  · next targeted survivors p queue hphase => exact hs.leave (by rw [hphase]; rfl) p heir
  · next targeted survivors hphase =>
    split
    · exact accounted_failed s
    · exact hs.seen (by rw [hphase]; rfl) rfl
  · exact hs
  · exact hs

theorem accounted_step (s : Sweep) (e : Event) (hs : Accounted s) : Accounted (step s e) := by
  unfold step
  split
  · exact hs
  · cases e with
    | fork parent child =>
        intro pids hpids p hp
        rcases of_mem_fork hp with hp | hnew
        · exact hs pids hpids p hp
        · -- targets are held for alive only after the first snapshot
          have hlate : (s.phase != .begin) = true := by
            cases hphase : s.phase with
            | begin =>
                have hnone : s.phase.suspects = some pids := hpids
                rw [hphase] at hnone
                cases hnone
            | _ => rfl
          rw [hlate] at hnew
          rw [hnew]
          exact ⟨nofun, nofun⟩
    | exit pid heir => exact hs.leave rfl pid heir
    | sweep ok heir => exact accounted_next hs ok heir

theorem accounted_run (root : Pid) (samples : List ProcessSample) (es : List Event) :
    Accounted (Run.run step (start root samples) es) := by
  refine Run.always accounted_step (fun pids hpids => ?_) es
  cases (show (none : Option (List Pid)) = some pids from hpids)

/-! ### The sweep by itself -/

theorem exitProcesses_none (procs : List ProcessSample) :
    exitProcesses (fun _ => false) procs = procs := by
  simp [exitProcesses]

/-- Two rounds of exits are one. -/
theorem exitProcesses_exitProcesses (g g' : Pid → Bool) (procs : List ProcessSample) :
    exitProcesses g' (exitProcesses g procs) = exitProcesses (fun p => g p || g' p) procs := by
  unfold exitProcesses
  induction procs with
  | nil => rfl
  | cons x procs ih =>
      by_cases hx : g x.pid
      · simpa [hx] using ih
      · by_cases hx' : g' x.pid
        · by_cases hp : g x.ppid <;> simpa [hx, hx', hp] using ih
        · by_cases hp : g x.ppid
          · simpa [hx, hx', hp] using ih
          · by_cases hp' : g' x.ppid <;> simpa [hx, hx', hp, hp'] using ih

theorem samples_leave (pid : Pid) (procs : List Proc) :
    (leave pid 1 procs).map (·.sample) = exitProcesses (· == pid) (procs.map (·.sample)) := by
  unfold leave exitProcesses
  rw [List.filter_map, List.map_map, List.map_map]
  refine List.map_congr_left fun p _ => ?_
  show (if p.sample.ppid = pid then _ else p).sample
    = if (p.sample.ppid == pid) = true then _ else _
  by_cases hp : p.sample.ppid = pid <;> simp [hp]

/-- A pid that is handled first, and the others. -/
theorem exitProcesses_cons (obeys : Pid → Bool) (p : Pid) (queue : List Pid)
    (procs : List ProcessSample) :
    exitProcesses (fun q => decide (q ∈ queue) && obeys q)
        (if obeys p then exitProcesses (· == p) procs else procs)
      = exitProcesses (fun q => decide (q ∈ p :: queue) && obeys q) procs := by
  by_cases hp : obeys p
  · rw [if_pos hp, exitProcesses_exitProcesses]
    congr 1
    funext q
    by_cases hq : q = p
    · subst hq
      simp [hp]
    · simp [hq]
  · rw [if_neg hp]
    congr 1
    funext q
    by_cases hq : q = p
    · subst hq
      simp [hp]
    · simp [hq]

/-- The sweep comes from one state to another, and no process takes a step meanwhile. -/
def Undisturbed (s s' : Sweep) : Prop :=
  ∃ es : List (Bool × Pid), Run.run step s (es.map fun e => .sweep e.1 e.2) = s'

theorem Undisturbed.refl (s : Sweep) : Undisturbed s s := ⟨[], rfl⟩

theorem Undisturbed.trans {s s' s'' : Sweep} (h₁ : Undisturbed s s') (h₂ : Undisturbed s' s'') :
    Undisturbed s s'' := by
  obtain ⟨es, rfl⟩ := h₁
  obtain ⟨es', rfl⟩ := h₂
  refine ⟨es ++ es', ?_⟩
  rw [List.map_append, Run.run_append]

theorem undisturbed_next {s : Sweep} (hs : s.phase.returned = false) (ok : Bool) (heir : Pid) :
    Undisturbed s (s.next ok heir) := by
  refine ⟨[(ok, heir)], ?_⟩
  show step s (.sweep ok heir) = s.next ok heir
  rw [step, hs, if_neg Bool.false_ne_true]

/-- A round of signals, each obeyed as the host says; `φ` is the phase with a given queue. -/
theorem undisturbed_round (obeys : Pid → Bool) {φ : List Pid → Phase}
    (hφ : ∀ queue, (φ queue).returned = false)
    (hnext : ∀ (s : Sweep) (p : Pid) (queue : List Pid), s.phase = φ (p :: queue) →
      s.next (obeys p) 1 = ⟨s.root, if obeys p then leave p 1 s.procs else s.procs, φ queue⟩)
    {s : Sweep} {queue : List Pid} (hphase : s.phase = φ queue) :
    ∃ procs, Undisturbed s ⟨s.root, procs, φ []⟩ ∧
      procs.map (·.sample) = exitProcesses (fun p => decide (p ∈ queue) && obeys p) s.samples := by
  induction queue generalizing s with
  | nil =>
      refine ⟨s.procs, ?_, ?_⟩
      · rw [← hphase]
        exact .refl s
      · simp only [List.not_mem_nil, decide_false, Bool.false_and]
        exact (exitProcesses_none _).symm
  | cons p queue ih =>
      have hone := hnext s p queue hphase
      obtain ⟨procs, hrest, hsamples⟩ := @ih (s.next (obeys p) 1) (by rw [hone])
      have hroot : (s.next (obeys p) 1).root = s.root := by rw [hone]
      refine ⟨procs, (undisturbed_next (by rw [hphase, hφ]) (obeys p) 1).trans (hroot ▸ hrest), ?_⟩
      rw [hsamples, hone, ← exitProcesses_cons]
      congr 1
      by_cases hp : obeys p
      · rw [if_pos hp, if_pos hp]
        exact samples_leave p s.procs
      · rw [if_neg hp, if_neg hp]
        rfl

variable {h : Host}

/-- The SIGTERM round of a world. -/
theorem undisturbed_term {s : Sweep} {w : World} {targeted queue : List Pid}
    (hphase : s.phase = .term targeted queue) (hsamples : s.samples = w.procs) :
    ∃ s', Undisturbed s s' ∧ s'.phase = .term targeted [] ∧
      s'.samples = (signalAll h false queue w).procs := by
  obtain ⟨procs, hround, hprocs⟩ := @undisturbed_round (fun p => !h.ignoresTerm p) (.term targeted)
    (fun _ => rfl) (fun s p queue hs => by simp only [Sweep.next, hs]) s queue hphase
  refine ⟨_, hround, rfl, hprocs.trans ?_⟩
  rw [hsamples]
  rfl

/-- The SIGKILL round of a world. -/
theorem undisturbed_kill {s : Sweep} {w : World} {targeted survivors queue : List Pid}
    (hphase : s.phase = .kill targeted survivors queue) (hsamples : s.samples = w.procs) :
    ∃ s', Undisturbed s s' ∧ s'.phase = .kill targeted survivors [] ∧
      s'.samples = (signalAll h true queue w).procs := by
  obtain ⟨procs, hround, hprocs⟩ := @undisturbed_round (fun _ => true) (.kill targeted survivors)
    (fun _ => rfl) (fun s p queue hs => by simp only [Sweep.next, hs, if_true]) s queue hphase
  refine ⟨_, hround, rfl, hprocs.trans ?_⟩
  rw [hsamples]
  rfl

/-- The phase after the call has returned. -/
def Phase.ofResult : Option TerminationReport → Phase
  | some report => .done report
  | none => .failed

/-- `terminate_pids` in one go is the sweep that nothing disturbs. -/
theorem undisturbed_terminatePids {s : Sweep} {pids : List Pid} {w : World}
    (hphase : s.phase = .ofPids pids) (hsamples : s.samples = w.procs) :
    ∃ s', Undisturbed s s' ∧ s'.samples = (terminatePids h pids w).1.procs ∧
      s'.phase = .ofResult (terminatePids h pids w).2 := by
  have hfold : ((pids.filter (1 < ·)).dedup).insertionSort (· ≤ ·) = sweepTargets pids := rfl
  unfold terminatePids
  dsimp only
  rw [hfold]
  unfold Phase.ofPids at hphase
  generalize sweepTargets pids = targeted at hphase ⊢
  by_cases hnil : targeted = []
  · rw [if_pos hnil] at hphase ⊢
    exact ⟨s, .refl s, hsamples, hphase⟩
  rw [if_neg hnil] at hphase ⊢
  obtain ⟨s₁, hround₁, hphase₁, hsamples₁⟩ := @undisturbed_term h s w targeted _ hphase hsamples
  generalize signalAll h false targeted.reverse w = w₁ at hsamples₁ ⊢
  have hlook := fun ok => hround₁.trans (undisturbed_next (by rw [hphase₁]; rfl) ok 1)
  have hseen : targeted.filter (fun p => ((ProcessTree.fromSamples w₁.procs).get p).isSome)
      = s₁.seen targeted := by
    rw [Sweep.seen, hsamples₁]
  rw [hseen]
  cases hok : h.sampler w₁.calls with
  | false =>
      refine ⟨_, hlook false, ?_⟩
      simp only [Sweep.next, hphase₁]
      exact ⟨hsamples₁, rfl⟩
  | true =>
      by_cases hgone : s₁.seen targeted = []
      · refine ⟨_, hlook true, ?_⟩
        simp only [Sweep.next, hphase₁, hgone]
        exact ⟨hsamples₁, rfl⟩
      · -- somebody is left, and killed
        have hnext : s₁.next true 1
            = { s₁ with phase := .kill targeted (s₁.seen targeted) (s₁.seen targeted) } := by
          simp only [Sweep.next, hphase₁, hgone]
          rfl
        obtain ⟨s₂, hround₂, hphase₂, hsamples₂⟩ := @undisturbed_kill h (s₁.next true 1) w₁.ask
          targeted _ _ (by rw [hnext]) (by rw [hnext]; exact hsamples₁)
        generalize s₁.seen targeted = survivors at hgone hphase₂ hsamples₂ ⊢
        generalize signalAll h true survivors w₁.ask = w₂ at hsamples₂ ⊢
        have hfinal := fun ok =>
          ((hlook true).trans hround₂).trans (undisturbed_next (by rw [hphase₂]; rfl) ok 1)
        refine ⟨_, hfinal (h.sampler w₂.calls), ?_⟩
        rw [if_neg (by simp), if_neg hgone]
        cases hok₂ : h.sampler w₂.calls with
        | false =>
            simp only [Sweep.next, hphase₂]
            exact ⟨hsamples₂, rfl⟩
        | true =>
            simp only [Sweep.next, hphase₂, Sweep.seen, hsamples₂]
            exact ⟨hsamples₂, rfl⟩

/-- The first snapshot. -/
theorem next_begin {s : Sweep} (hphase : s.phase = .begin) (hroot : ¬ s.root ≤ 1) (heir : Pid) :
    s.next true heir = { s with
      procs := s.procs.map (·.mark s.samples s.root)
      phase := .ofPids (terminationTargets (ProcessTree.fromSamples s.samples) s.root) } := by
  simp only [Sweep.next, hphase, hroot]
  rfl

/-- Being a target does not show. -/
theorem samples_mark (samples : List ProcessSample) (root : Pid) (procs : List Proc) :
    (procs.map (·.mark samples root)).map (·.sample) = procs.map (·.sample) := by
  rw [List.map_map]
  refine List.map_congr_left fun p _ => ?_
  show (p.mark samples root).sample = p.sample
  unfold Proc.mark
  split <;> rfl

/-- **`terminate_subtree` in one go is the sweep that nothing disturbs**: the same report, and the
same processes left. -/
theorem undisturbed_terminateSubtree (root : Pid) (w : World) :
    ∃ s', Undisturbed (start root w.procs) s' ∧
      s'.samples = (terminateSubtree h root w).1.procs ∧
      s'.phase = .ofResult (terminateSubtree h root w).2 := by
  have hsamples : (start root w.procs).samples = w.procs := by
    show (w.procs.map _).map _ = w.procs
    rw [List.map_map]
    exact List.map_id _
  have hbegin := fun ok => @undisturbed_next (start root w.procs) rfl ok 1
  unfold terminateSubtree
  by_cases hroot : root ≤ 1
  · refine ⟨_, hbegin true, ?_⟩
    simp only [Sweep.next, start, hroot]
    exact ⟨hsamples, rfl⟩
  · cases hok : h.sampler w.calls with
    | false =>
        refine ⟨_, hbegin false, ?_⟩
        simp only [Sweep.next, start, hroot]
        exact ⟨hsamples, rfl⟩
    | true =>
        have hnext := @next_begin (start root w.procs) rfl hroot 1
        rw [hsamples] at hnext
        have hmarked : ((start root w.procs).next true 1).samples = w.procs := by
          rw [hnext]
          exact (samples_mark w.procs root _).trans hsamples
        obtain ⟨s', hrest, hprocs, hphase⟩ := @undisturbed_terminatePids h
          ((start root w.procs).next true 1)
          (terminationTargets (ProcessTree.fromSamples w.procs) root) w.ask (by rw [hnext]; rfl)
          hmarked
        refine ⟨s', (hbegin true).trans hrest, ?_⟩
        rw [if_neg hroot, if_neg (by simp)]
        exact ⟨hprocs, hphase⟩

/-! ### What a report means -/

/-- **A clean report is honest about the first snapshot.**  Whoever is alive at the final one,
`init` and the kernel apart, was forked after the first, or was outside the subtree of the root
there. -/
theorem gone_of_fullyCleaned (root : Pid) (samples : List ProcessSample) (es : List Event)
    (r : TerminationReport) (hdone : (Run.run step (start root samples) es).phase = .done r)
    (hclean : r.fullyCleaned = true) :
    ∀ p ∈ (Run.run step (start root samples) es).procs, 1 < p.sample.pid →
      p.origin = .late ∨ p.origin = .outside := by
  intro p hp hlt
  obtain ⟨hearly, hlisted⟩ := accounted_run root samples es r.survivors (by rw [hdone]; rfl) p hp
  cases horigin : p.origin with
  | early => exact absurd horigin hearly
  | listed =>
      have hin := hlisted horigin hlt
      rw [List.isEmpty_iff.mp hclean] at hin
      cases hin
  | outside => exact .inr rfl
  | late => exact .inl rfl

/-- A provider with a shell below it. -/
def shellTree : List ProcessSample :=
  [⟨1, 0, "init", 0, none, none⟩, ⟨100, 1, "claude", 0, none, none⟩,
    ⟨101, 100, "sh", 0, none, none⟩]

/-- The shell ignores SIGTERM, and starts another process before it is killed. -/
def stubbornShell : List Event :=
  [.sweep true 1, .sweep false 1, .fork 101 102, .sweep true 1, .sweep true 1, .sweep true 1,
    .sweep true 1]

theorem stubbornShell_gone :
    (Run.run step (start 100 shellTree) stubbornShell).phase = .done ⟨[100, 101], [], true⟩ ∧
      ∀ p ∈ (Run.run step (start 100 shellTree) stubbornShell).procs, 1 < p.sample.pid →
        p.origin = .late ∨ p.origin = .outside :=
  have hdone : (Run.run step (start 100 shellTree) stubbornShell).phase
      = .done ⟨[100, 101], [], true⟩ := by decide
  ⟨hdone, gone_of_fullyCleaned 100 shellTree stubbornShell _ hdone rfl⟩

/-- **A clean report with a descendant alive**: the shell forks after the first snapshot. -/
theorem clean_report_with_orphan :
    ¬ Honest (Run.run step (start 100 shellTree)
      [.sweep true 1, .fork 101 102, .sweep true 1, .sweep true 1, .sweep true 1]) := by
  intro h
  have hkin := h ⟨[100, 101], [], false⟩ (by decide) rfl
  revert hkin
  decide

end MemMux.Teardown
