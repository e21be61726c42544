/-
MemMux/Startup.lean

Clients that start the daemon of a root (`ensure_daemon` in `memmux/src/supervisor.rs`), and the
daemons they start (`run_serve` in `memmuxd/src/main.rs`, `serve` in `memmuxd/src/server.rs`).

A client probes the socket, spawns a daemon if nobody answers, and polls until somebody does.  A
daemon opens the store, boots its state, removes a socket file that is there, binds and serves.
The only thing they share is the socket file, and a daemon that has not bound it yet leaves no mark
there.  Clients and daemons are numbered; an event is one step of one of them, and a run is any
interleaving.

`one_daemon_iff` says which spawns are safe however the daemons proceed: those at which no daemon
spawned before is alive.  Nothing in the code waits for that.
-/
import Mathlib.Data.Set.Subsingleton
import Mathlib.Logic.Function.Basic
import MemMux.Run

namespace MemMux.Startup

/-! ### Clients and daemons -/

/-- How far a client is in `ensure_daemon`. -/
inductive Client
  | idle
  /-- nobody answered the first probe -/
  | down
  /-- a daemon was spawned; the socket is polled -/
  | polling
  /-- a daemon answers; `true` if this client spawned one -/
  | up (spawned : Bool)
  | failed
  deriving DecidableEq, Repr

/-- How far a daemon is in `run_serve` and `serve`. -/
inductive Daemon
  | unborn
  | starting
  /-- `Store::open` returned -/
  | opened
  /-- `DaemonState::boot` returned -/
  | booted
  /-- `socket.exists()` was true -/
  | occupied
  /-- there is no socket file, or it was removed -/
  | cleared
  /-- the socket is bound -/
  | serving
  | gone
  deriving DecidableEq, Repr

/-- The process is there. -/
def Daemon.alive : Daemon → Bool
  | .unborn | .gone => false
  | _ => true

/-- The process holds state that was booted from the root. -/
def Daemon.holdsState : Daemon → Bool
  | .booted | .occupied | .cleared | .serving => true
  | _ => false

/-- The socket file. -/
inductive SocketFile
  | absent
  /-- left by a daemon of another time -/
  | stale
  | boundBy (d : Nat)
  deriving DecidableEq, Repr

/-- A root with its clients and daemons. -/
structure Site where
  client : Nat → Client
  daemon : Nat → Daemon
  /-- how many daemons were spawned -/
  spawned : Nat
  socket : SocketFile

/-- Nobody has started anything. -/
def start (socket : SocketFile) : Site := ⟨fun _ => .idle, fun _ => .unborn, 0, socket⟩

/-- Daemon `d` answers on the socket. -/
def Site.answering (s : Site) (d : Nat) : Prop := s.socket = .boundBy d ∧ s.daemon d = .serving

/-- `daemon_is_up`: the socket is bound by a daemon that serves. -/
def Site.daemonIsUp (s : Site) : Bool :=
  match s.socket with
  | .boundBy d => s.daemon d == .serving
  | _ => false

theorem daemonIsUp_iff (s : Site) : s.daemonIsUp = true ↔ ∃ d, s.answering d := by
  unfold Site.daemonIsUp Site.answering
  cases hs : s.socket with
  | boundBy d => simp
  | absent => simp
  | stale => simp

/-! ### Events -/

/-- One step of a client or of a daemon.  `ok` says whether the call it makes succeeds. -/
inductive Event
  /-- the first probe of `ensure_daemon` -/
  | probe (c : Nat)
  /-- `cmd.spawn()` -/
  | spawn (c : Nat) (ok : Bool)
  /-- a probe of the loop -/
  | poll (c : Nat)
  /-- the deadline has passed -/
  | timeout (c : Nat)
  /-- the next call of a daemon -/
  | advance (d : Nat) (ok : Bool)
  /-- a daemon exits or is killed -/
  | exit (d : Nat)
  deriving DecidableEq, Repr

def Site.setClient (s : Site) (c : Nat) (stage : Client) : Site :=
  { s with client := Function.update s.client c stage }

def Site.setDaemon (s : Site) (d : Nat) (stage : Daemon) : Site :=
  { s with daemon := Function.update s.daemon d stage }

/-- The next call of daemon `d`; one that fails ends it. -/
def Site.advance (s : Site) (d : Nat) (ok : Bool) : Site :=
  match s.daemon d with
  | .unborn | .gone => s
  | .starting => s.setDaemon d (if ok then .opened else .gone)
  | .opened => s.setDaemon d (if ok then .booted else .gone)
  | .booted =>
      s.setDaemon d (if !ok then .gone else if s.socket = .absent then .cleared else .occupied)
  | .occupied =>
      -- the file may be gone by now, and then its removal fails
      if ok ∧ s.socket ≠ .absent then { s.setDaemon d .cleared with socket := .absent }
      else s.setDaemon d .gone
  | .cleared =>
      -- a file that is there by now is an address in use
      if ok ∧ s.socket = .absent then { s.setDaemon d .serving with socket := .boundBy d }
      else s.setDaemon d .gone
  | .serving => s.setDaemon d (if ok then .serving else .gone)

/-- What an event does; one that is not due does nothing. -/
def step (s : Site) : Event → Site
  | .probe c =>
      if s.client c = .idle then s.setClient c (if s.daemonIsUp then .up false else .down) else s
  | .spawn c ok =>
      if s.client c = .down then
        if ok then
          { (s.setClient c .polling).setDaemon s.spawned .starting with spawned := s.spawned + 1 }
        else s.setClient c .failed
      else s
  | .poll c => if s.client c = .polling ∧ s.daemonIsUp then s.setClient c (.up true) else s
  | .timeout c => if s.client c = .polling then s.setClient c .failed else s
  | .advance d ok => s.advance d ok
  | .exit d => if s.daemon d = .unborn then s else s.setDaemon d .gone

/-! ### One daemon -/

/-- **At most one daemon holds state booted from the root.** -/
def AtMostOne (s : Site) : Prop := {d | (s.daemon d).holdsState = true}.Subsingleton

/-- **No daemon is spawned, and no socket taken away, while a daemon answers.** -/
def Respects (s : Site) : Event → Prop
  | .spawn c ok => s.client c = .down → ok = true → s.daemonIsUp = false
  | .advance d ok =>
      ∀ d', s.answering d' → d' ≠ d → (step s (.advance d ok)).socket = .boundBy d'
  | _ => True

/-- **One daemon per root**, along a run. -/
def OneDaemon (s : Site) (es : List Event) : Prop :=
  (∀ p, p <+: es → AtMostOne (Run.run step s p)) ∧ Run.Allowed step Respects s es

/-- **A daemon is spawned only when none is alive.** -/
def Alone (s : Site) : Event → Prop
  | .spawn c ok => s.client c = .down → ok = true → ∀ d, (s.daemon d).alive = false
  | _ => True

/-- An event that spawns nothing. -/
def Event.spawnless : Event → Bool
  | .spawn _ true => false
  | _ => true

/-! ### What one step does to the daemons -/

/-- No daemon comes to life. -/
structure Calm (s s' : Site) : Prop where
  spawned : s'.spawned = s.spawned
  unborn : ∀ d, s.daemon d = .unborn → s'.daemon d = .unborn
  alive : ∀ d, (s'.daemon d).alive = true → (s.daemon d).alive = true

theorem Calm.refl (s : Site) : Calm s s := ⟨rfl, fun _ h => h, fun _ h => h⟩

/-- The clients are no daemons. -/
theorem calm_setClient (s : Site) (c : Nat) (stage : Client) : Calm s (s.setClient c stage) :=
  ⟨rfl, fun _ h => h, fun _ h => h⟩

/-- A daemon that is there goes on, or ends. -/
theorem calm_setDaemon {s : Site} {d : Nat} {stage : Daemon} (hd : s.daemon d ≠ .unborn)
    (ha : stage.alive = true → (s.daemon d).alive = true) : Calm s (s.setDaemon d stage) := by
  refine ⟨rfl, fun e he => ?_, fun e he => ?_⟩
  · show Function.update s.daemon d stage e = .unborn
    rw [Function.update_of_ne]
    · exact he
    · rintro rfl
      exact hd he
  · by_cases hed : e = d
    · subst hed
      refine ha ?_
      rwa [show (s.setDaemon e stage).daemon e = stage from Function.update_self _ _ _] at he
    · rwa [show (s.setDaemon d stage).daemon e = s.daemon e from Function.update_of_ne hed _ _]
        at he

/-- The socket file is no daemon. -/
theorem Calm.withSocket {s s' : Site} (hc : Calm s s') (file : SocketFile) :
    Calm s { s' with socket := file } :=
  ⟨hc.spawned, hc.unborn, hc.alive⟩

theorem calm_advance (s : Site) (d : Nat) (ok : Bool) : Calm s (s.advance d ok) := by
  have hset : ∀ {stage : Daemon}, s.daemon d = stage → stage ≠ .unborn → stage.alive = true →
      ∀ next, Calm s (s.setDaemon d next) := fun hd hu ha next =>
    calm_setDaemon (hd ▸ hu) fun _ => hd ▸ ha
  unfold Site.advance
  cases hd : s.daemon d with
  | unborn => exact .refl s
  | gone => exact .refl s
  | starting => exact hset hd nofun rfl _
  | opened => exact hset hd nofun rfl _
  | booted => exact hset hd nofun rfl _
  | serving => exact hset hd nofun rfl _
  | occupied =>
      dsimp only
      split
      · exact (hset hd nofun rfl _).withSocket _
      · exact hset hd nofun rfl _
  | cleared =>
      dsimp only
      split
      · exact (hset hd nofun rfl _).withSocket _
      · exact hset hd nofun rfl _

/-- **An event that spawns nothing brings no daemon to life.** -/
theorem calm_step {s : Site} {e : Event} (he : ∀ c, e = .spawn c true → s.client c ≠ .down) :
    Calm s (step s e) := by
  cases e with
  | probe c =>
      simp only [step]
      split
      · exact calm_setClient s c _
      · exact .refl s
  | spawn c ok =>
      simp only [step]
      split
      · next hdown =>
        cases ok with
        -- the only event that brings a daemon to life
        | true => exact absurd hdown (he c rfl)
        | false => exact calm_setClient s c _
      · exact .refl s
  | poll c =>
      simp only [step]
      split
      · exact calm_setClient s c _
      · exact .refl s
  | timeout c =>
      simp only [step]
      split
      · exact calm_setClient s c _
      · exact .refl s
  | advance d ok => exact calm_advance s d ok
  | exit d =>
      simp only [step]
      split
      · exact .refl s
      · next hd => exact calm_setDaemon hd nofun

/-- A successful spawn. -/
theorem step_spawn {s : Site} {c : Nat} (hc : s.client c = .down) :
    step s (.spawn c true)
      = { (s.setClient c .polling).setDaemon s.spawned .starting with spawned := s.spawned + 1 } := by
  simp only [step, if_pos hc]
  rfl

/-! ### Daemons one at a time -/

/-- Daemons are numbered in the order they were spawned. -/
def Fresh (s : Site) : Prop := ∀ d, s.spawned ≤ d → s.daemon d = .unborn

/-- No two daemons are alive. -/
def Single (s : Site) : Prop := {d | (s.daemon d).alive = true}.Subsingleton

theorem Daemon.alive_of_holdsState {stage : Daemon} (h : stage.holdsState = true) :
    stage.alive = true := by
  cases stage <;> first | rfl | cases h

theorem Single.atMostOne {s : Site} (hs : Single s) : AtMostOne s := fun _ hd _ hd' =>
  hs (Daemon.alive_of_holdsState hd) (Daemon.alive_of_holdsState hd')

/-- A daemon that answers is alive. -/
theorem alive_of_answering {s : Site} {d : Nat} (ha : s.answering d) :
    (s.daemon d).alive = true := by
  rw [ha.2]
  rfl

/-- The daemons after a successful spawn: one more, which starts. -/
theorem daemon_spawn {s : Site} {c : Nat} (hc : s.client c = .down) (d : Nat) :
    (step s (.spawn c true)).daemon d = if d = s.spawned then .starting else s.daemon d := by
  rw [step_spawn hc]
  exact Function.update_apply _ _ _ _

theorem fresh_step (s : Site) (e : Event) (hf : Fresh s) : Fresh (step s e) := by
  by_cases he : ∀ c, e = .spawn c true → s.client c ≠ .down
  · have hc := calm_step he
    exact fun d hd => hc.unborn d (hf d (hc.spawned ▸ hd))
  · push Not at he
    obtain ⟨c, rfl, hc⟩ := he
    intro d hd
    have hlt : s.spawned < d := by
      rw [step_spawn hc] at hd
      exact hd
    rw [daemon_spawn hc, if_neg hlt.ne']
    exact hf d hlt.le

/-- **A spawn that finds no daemon alive leaves one.** -/
theorem single_step (s : Site) (e : Event) (hs : Single s) (ha : Alone s e) :
    Single (step s e) := by
  by_cases he : ∀ c, e = .spawn c true → s.client c ≠ .down
  · have hc := calm_step he
    exact fun d hd d' hd' => hs (hc.alive d hd) (hc.alive d' hd')
  · push Not at he
    obtain ⟨c, rfl, hc⟩ := he
    have hnone := ha hc rfl
    have hnew : ∀ d, ((step s (.spawn c true)).daemon d).alive = true → d = s.spawned := by
      intro d hd
      rw [daemon_spawn hc] at hd
      by_contra hne
      rw [if_neg hne, hnone d] at hd
      cases hd
    exact fun d hd d' hd' => (hnew d hd).trans (hnew d' hd').symm

/-- With one daemon alive, nothing is taken from it. -/
theorem respects_of_alone (s : Site) (e : Event) (hs : Single s) (ha : Alone s e) :
    Respects s e := by
  cases e with
  | spawn c ok =>
      intro hc hok
      by_contra hup
      obtain ⟨d, hd⟩ := (daemonIsUp_iff s).mp (Bool.not_eq_false _ ▸ hup)
      have hgone := ha hc hok d
      rw [alive_of_answering hd] at hgone
      cases hgone
  | advance d ok =>
      intro d' hd' hne
      -- daemon `d` is not alive, so it takes no step
      have hd : ¬ (s.daemon d).alive = true := fun h => hne (hs (alive_of_answering hd') h)
      have hsame : s.advance d ok = s := by
        unfold Site.advance
        cases hst : s.daemon d with
        | unborn => rfl
        | gone => rfl
        | _ => exact absurd (by rw [hst]; rfl) hd
      show (s.advance d ok).socket = .boundBy d'
      rw [hsame]
      exact hd'.1
  | _ => exact trivial

theorem oneDaemon_of_alone {s : Site} (hs : Single s) {es : List Event}
    (ha : Run.Allowed step Alone s es) : OneDaemon s es := by
  constructor
  · rintro p ⟨fs, rfl⟩
    exact (Run.invariant single_step hs (Run.allowed_append.mp ha).1).atMostOne
  · have hboth := (Run.allowed_iff_of_allowed single_step
      (fun s e hs' => (and_iff_left_of_imp (respects_of_alone s e hs')).symm) hs es).mp ha
    exact hboth.mono fun _ _ h => h.2

/-! ### Two daemons -/

theorem setDaemon_self (s : Site) (d : Nat) (stage : Daemon) :
    (s.setDaemon d stage).daemon d = stage :=
  Function.update_self _ _ _

theorem setDaemon_of_ne (s : Site) {d d' : Nat} (hne : d' ≠ d) (stage : Daemon) :
    (s.setDaemon d stage).daemon d' = s.daemon d' :=
  Function.update_of_ne hne _ _

/-- Daemon `d` can get from `s` to a state of its own in which it holds the state of the root. -/
def CanBoot (s : Site) (d : Nat) : Prop :=
  ∃ fs : List Event, (∀ e ∈ fs, e.spawnless = true) ∧
    ((Run.run step s fs).daemon d).holdsState = true ∧
    ∀ d', d' ≠ d → (Run.run step s fs).daemon d' = s.daemon d'

/-- One call more, and it can. -/
theorem CanBoot.advance {s : Site} {d : Nat} {stage : Daemon}
    (hadv : step s (.advance d true) = s.setDaemon d stage)
    (hb : CanBoot (s.setDaemon d stage) d) : CanBoot s d := by
  obtain ⟨fs, hfs, hholds, hoff⟩ := hb
  refine ⟨.advance d true :: fs, List.forall_mem_cons.mpr ⟨rfl, hfs⟩, ?_, fun d' hne => ?_⟩
  · rw [Run.run_cons, hadv]
    exact hholds
  · rw [Run.run_cons, hadv, hoff d' hne, setDaemon_of_ne s hne]

/-- **A daemon that is alive can boot**, while nothing else happens. -/
theorem canBoot_of_alive {s : Site} {d : Nat} (hd : (s.daemon d).alive = true) : CanBoot s d := by
  have hholds : ∀ s : Site, (s.daemon d).holdsState = true → CanBoot s d := fun _ h =>
    ⟨[], fun _ he => absurd he List.not_mem_nil, h, fun _ _ => rfl⟩
  have hbooted : ∀ s : Site, CanBoot (s.setDaemon d .booted) d := by
    intro s
    refine hholds _ ?_
    rw [setDaemon_self]
    rfl
  have hopened : ∀ s : Site, s.daemon d = .opened → CanBoot s d := by
    intro s hst
    refine CanBoot.advance ?_ (hbooted s)
    simp only [step, Site.advance, hst]
    rfl
  cases hst : s.daemon d with
  | unborn =>
      rw [hst] at hd
      cases hd
  | gone =>
      rw [hst] at hd
      cases hd
  | starting =>
      refine CanBoot.advance ?_ (hopened _ (setDaemon_self s d .opened))
      simp only [step, Site.advance, hst]
      rfl
  | opened => exact hopened s hst
  | _ => exact hholds s (by rw [hst]; rfl)

/-- Two daemons that are alive can both boot. -/
theorem two_boots {s : Site} {d d' : Nat} (hne : d ≠ d') (hd : (s.daemon d).alive = true)
    (hd' : (s.daemon d').alive = true) :
    ∃ fs : List Event, (∀ e ∈ fs, e.spawnless = true) ∧ ¬ AtMostOne (Run.run step s fs) := by
  obtain ⟨fs, hfs, hholds, hoff⟩ := canBoot_of_alive hd
  have halive : ((Run.run step s fs).daemon d').alive = true := by
    rw [hoff d' hne.symm]
    exact hd'
  obtain ⟨gs, hgs, hholds', hoff'⟩ := canBoot_of_alive halive
  refine ⟨fs ++ gs, List.forall_mem_append.mpr ⟨hfs, hgs⟩, fun hone => hne (hone ?_ ?_)⟩
  · show ((Run.run step s (fs ++ gs)).daemon d).holdsState = true
    rw [Run.run_append, hoff' d hne]
    exact hholds
  · show ((Run.run step s (fs ++ gs)).daemon d').holdsState = true
    rw [Run.run_append]
    exact hholds'

/-- An event that spawns nothing asks for nothing. -/
theorem alone_of_spawnless {e : Event} (he : e.spawnless = true) (s : Site) : Alone s e := by
  cases e with
  | spawn c ok =>
      rintro - rfl
      cases he
  | _ => exact trivial

/-- **One daemon per root, exactly when a daemon is spawned only while none is alive.**  However the
run `es` goes on from any of its points without another spawn, at most one daemon ever holds state
booted from the root, none is spawned while one answers, and no socket is taken from one that
answers: if and only if every spawn of `es` finds no daemon alive, starting or serving. -/
theorem one_daemon_iff (socket : SocketFile) (es : List Event) :
    (∀ p fs, p <+: es → (∀ e ∈ fs, e.spawnless = true) → OneDaemon (start socket) (p ++ fs))
      ↔ Run.Allowed step Alone (start socket) es := by
  have hsingle : Single (start socket) := fun d hd => nomatch hd
  have hfresh : Fresh (start socket) := fun _ _ => rfl
  constructor
  · intro hone
    refine Run.allowed_iff_forall_prefix.mpr fun p e hp => ?_
    cases e with
    | spawn c ok =>
        rintro hc rfl d
        by_contra hd
        have hd' : ((Run.run step (start socket) p).daemon d).alive = true := by
          rwa [Bool.not_eq_false] at hd
        -- the new daemon is another one, and both can boot
        have hf : Fresh (Run.run step (start socket) p) := Run.always fresh_step hfresh p
        have hne : d ≠ (Run.run step (start socket) p).spawned := by
          rintro rfl
          rw [hf _ le_rfl] at hd'
          cases hd'
        obtain ⟨fs, hfs, hboth⟩ := @two_boots
          (step (Run.run step (start socket) p) (.spawn c true)) d _ hne
          (by rwa [daemon_spawn hc, if_neg hne]) (by rw [daemon_spawn hc, if_pos rfl]; rfl)
        refine hboth ?_
        have hprefix := (hone (p ++ [.spawn c true]) fs hp hfs).1 _ List.prefix_rfl
        rw [Run.run_append, Run.run_append] at hprefix
        exact hprefix
    | _ => exact trivial
  · rintro ha p fs ⟨rest, rfl⟩ hfs
    refine oneDaemon_of_alone hsingle (Run.allowed_append.mpr ⟨(Run.allowed_append.mp ha).1, ?_⟩)
    exact Run.allowed_of_mem fun e he s => alone_of_spawnless (hfs e he) s

/-- Both clients probe before either spawns.  The first daemon answers when the second client spawns
another, which boots and removes the socket file. -/
def race : List Event :=
  [.probe 0, .probe 1, .spawn 0 true, .advance 0 true, .advance 0 true, .advance 0 true,
    .advance 0 true, .spawn 1 true, .advance 1 true, .advance 1 true, .advance 1 true,
    .advance 1 true]

theorem race_two_daemons : ¬ OneDaemon (start .absent) race := by
  intro hone
  have hboth : AtMostOne (Run.run step (start .absent) race) := hone.1 race List.prefix_rfl
  have hfirst : ((Run.run step (start .absent) race).daemon 0).holdsState = true := by decide
  have hsecond : ((Run.run step (start .absent) race).daemon 1).holdsState = true := by decide
  exact absurd (hboth hfirst hsecond) (by decide)

-- the first daemon serves on a socket that nobody can find
example : (Run.run step (start .absent) race).daemon 0 = .serving ∧
    (Run.run step (start .absent) race).socket = .absent := by
  decide

end MemMux.Startup
