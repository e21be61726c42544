/-
MemMux/Trail.lean

What the daemon's record tells (`memmuxd/src/daemon.rs`): the decisions it audits and the events it
appends, read without the daemon.

A decision or an event is an `Entry` when it says that a provider came up or went down, that a worktree
was cut or given up, what the memory pressure is, or that a daemon booted.  An `Account` is what a
reader makes of the entries so far, `Fits` relates it to the daemon, and `Follows` says of two worlds
that what was recorded between them leads from the accounts of the one to those of the other.
Each of the two tables alone tells a part of the account (`retold`).
-/
import MemMux.Permanence
import MemMux.Retelling
import Mathlib.Data.Finset.Basic

namespace MemMux.Trail

open Retelling

/-! ### Entries -/

/-- What may be heard of the provider of an agent. -/
inductive News
  /-- it is up -/
  | up
  /-- it was taken down -/
  | down
  /-- it is down, and no event says so: it did not come up again after a recycle, or its daemon went -/
  | lost
  /-- it is down, and no decision says so: it exited on its own -/
  | exited
  deriving DecidableEq, Repr

/-- What an event or a decision says. -/
inductive Entry
  /-- a decision, or the event of an exit: news of `id` -/
  | news (n : News) (id : String)
  /-- an event: the provider of `id` is up -/
  | shown (id : String)
  /-- an event: it is down -/
  | hidden (id : String)
  /-- a decision: a worktree was cut for `id` -/
  | cut (id : String)
  /-- a decision: its worktree was removed, or left to itself -/
  | uncut (id : String)
  /-- a decision: the memory pressure has changed -/
  | stage (s : PressureStage)
  /-- a decision: a daemon has booted -/
  | booted
  deriving DecidableEq, Repr

/-- The decisions about a task that are entries, by their action. -/
def actions : List (String × (String → Entry)) :=
  [("started", .news .up), ("resumed", .news .up), ("recycled", .news .up),
    ("terminated", .news .down), ("hibernated", .news .down), ("forgotten", .news .down),
    ("recycle_rolled_back", .news .lost), ("worktree_created", .cut), ("worktree_removed", .uncut),
    ("worktree_retained", .uncut)]

/-- The events about a task that are entries, by their type. -/
def eventTypes : List (String × (String → Entry)) :=
  [("started", .shown), ("resumed", .shown), ("runtime_recycled", .shown), ("terminated", .hidden),
    ("hibernated", .hidden), ("forgotten", .hidden), ("process_exited", .news .exited)]

/-- The stage with a name. -/
def stageNamed (name : String) : Option PressureStage :=
  [PressureStage.normal, .elevated, .high, .critical, .emergency].find? (·.debug = name)

theorem stageNamed_debug (s : PressureStage) : stageNamed s.debug = some s := by
  cases s <;> rfl

/-- The stage that the evidence of a decision names. -/
def stageEntry (evidence : Option JsonObject) : Option Entry :=
  match evidence.bind (·.lookup "stage") with
  | some (.str name) => (stageNamed name).map .stage
  | _ => none

/-- What a row of the decisions says. -/
def ofDecision (taskId : Option String) (action : String) (evidence : Option JsonObject) :
    Option Entry :=
  match taskId with
  | some id => (actions.lookup action).map (· id)
  | none =>
      if action = "recovered" then some .booted
      else if action = "pressure_stage" then stageEntry evidence
      else none

/-- What a row of the events says. -/
def ofEvent (taskId : Option String) (eventType : String) : Option Entry :=
  taskId.bind fun id => (eventTypes.lookup eventType).map (· id)

/-- What an effect of the daemon tells. -/
def entry : Effect → Option Entry
  | .commit (.recordDecision d) => ofDecision d.taskId d.action d.evidence
  | .commit (.appendEvent e) => ofEvent e.taskId e.eventType
  | _ => none

/-! ### Accounts -/

/-- What a reader knows. -/
structure Account where
  /-- the last that was heard of an agent -/
  news : String → News
  /-- the agents that are up, by the decisions alone -/
  decided : Finset String
  /-- the agents that are up, by the events alone -/
  shown : Finset String
  worktrees : Finset String
  stage : PressureStage

namespace Account

/-- Nothing was heard yet. -/
def empty : Account := ⟨fun _ => .down, ∅, ∅, ∅, .normal⟩

/-- One entry is read.  A daemon that boots runs nothing, and what the events showed is lost. -/
def write (a : Account) : Entry → Account
  | .news n id =>
      { a with
          news := Function.update a.news id n
          decided := match n with
            | .up => insert id a.decided
            | .down | .lost => a.decided.erase id
            | .exited => a.decided
          shown := match n with
            | .exited => a.shown.erase id
            | .up | .down | .lost => a.shown }
  | .shown id => { a with shown := insert id a.shown }
  | .hidden id => { a with shown := a.shown.erase id }
  | .cut id => { a with worktrees := insert id a.worktrees }
  | .uncut id => { a with worktrees := a.worktrees.erase id }
  | .stage s => { a with stage := s }
  | .booted =>
      { a with
          news := fun id => if id ∈ a.shown then .lost else .down
          decided := ∅
          worktrees := ∅
          stage := .normal }

/-- What may be an entry is read. -/
def hear (a : Account) : Option Entry → Account
  | some x => a.write x
  | none => a

/-- One effect is read. -/
def read (a : Account) (e : Effect) : Account := a.hear (entry e)

/-- One row of the decisions is read. -/
def readDecision (a : Account) (r : DecisionRow) : Account :=
  a.hear (ofDecision r.taskId r.action r.evidence)

/-- One row of the events is read. -/
def readEvent (a : Account) (r : EventRow) : Account := a.hear (ofEvent r.taskId r.eventType)

theorem read_silent {e : Effect} (he : entry e = none) (a : Account) : a.read e = a := by
  rw [read, he]
  rfl

theorem read_entry {e : Effect} {x : Entry} (he : entry e = some x) (a : Account) :
    a.read e = a.write x := by
  rw [read, he]
  rfl

end Account

/-- **The account fits the daemon**, if the agents `up` are running: the decisions also show those that
exited, and the events those that were lost. -/
structure Fits (up : Set String) (a : Account) (w : World) : Prop where
  running : ∀ id, a.news id = .up ↔ id ∈ up
  decided : ∀ id, id ∈ a.decided ↔ a.news id = .up ∨ a.news id = .exited
  shown : ∀ id, id ∈ a.shown ↔ a.news id = .up ∨ a.news id = .lost
  worktrees : ∀ id, id ∈ a.worktrees ↔ id ∈ w.mem.worktrees
  stage : a.stage = w.mem.pressureStage

/-- What was recorded between two worlds takes accounts with the agents `up` to such with `up'`. -/
abbrev Told (up up' : Set String) : World → World → Prop :=
  Tells (fun w => w.durable.log) Account.read (Fits up) (Fits up')

/-- The agents that are running. -/
def residents (m : DaemonState) : Set String := {id | id ∈ m.runtimes}

/-- What was recorded tells who runs now from who ran before. -/
abbrev Follows (w w' : World) : Prop := Told (residents w.mem) (residents w'.mem) w w'

/-- Nothing was recorded that is an entry, and there was nothing to record but of agents. -/
structure Keeps (w w' : World) : Prop where
  worktrees : w'.mem.worktrees = w.mem.worktrees
  stage : w'.mem.pressureStage = w.mem.pressureStage
  writes : Writes (fun e => entry e = none) w w'

/-! ### What an entry does to the account -/

section Fits

variable {up : Set String} {a : Account} {w w' : World} {id : String}

theorem Fits.congr (hf : Fits up a w) (hwt : w'.mem.worktrees = w.mem.worktrees)
    (hst : w'.mem.pressureStage = w.mem.pressureStage) : Fits up a w' :=
  ⟨hf.running, hf.decided, hf.shown, fun i => hwt ▸ hf.worktrees i, hst ▸ hf.stage⟩

/-- News of one agent: what the decisions and the events show of the others is what it was. -/
theorem Fits.heard (hf : Fits up a w) {up' : Set String} {n : News} {ds ss : Finset String}
    (hrunning : n = .up ↔ id ∈ up') (hdecided : id ∈ ds ↔ n = .up ∨ n = .exited)
    (hshown : id ∈ ss ↔ n = .up ∨ n = .lost)
    (hrest : ∀ i, i ≠ id →
      (i ∈ up' ↔ i ∈ up) ∧ (i ∈ ds ↔ i ∈ a.decided) ∧ (i ∈ ss ↔ i ∈ a.shown)) :
    Fits up' { a with news := Function.update a.news id n, decided := ds, shown := ss } w := by
  have hone : ∀ {p : String → News → Prop}, p id n → (∀ i, i ≠ id → p i (a.news i)) →
      ∀ i, p i (Function.update a.news id n i) := by
    intro p hid hothers i
    by_cases hi : i = id
    · subst hi
      rw [Function.update_self]
      exact hid
    · rw [Function.update_of_ne hi]
      exact hothers i hi
  refine ⟨?_, ?_, ?_, hf.worktrees, hf.stage⟩
  · exact hone (p := fun i n => n = .up ↔ i ∈ up') hrunning fun i hi =>
      (hf.running i).trans (hrest i hi).1.symm
  · exact hone (p := fun i n => i ∈ ds ↔ n = .up ∨ n = .exited) hdecided fun i hi =>
      (hrest i hi).2.1.trans (hf.decided i)
  · exact hone (p := fun i n => i ∈ ss ↔ n = .up ∨ n = .lost) hshown fun i hi =>
      (hrest i hi).2.2.trans (hf.shown i)

theorem Fits.started (hf : Fits up a w) (id : String) :
    Fits (insert id up) ((a.write (.shown id)).write (.news .up id)) w := by
  refine @Fits.heard up a w id hf (insert id up) .up (insert id a.decided) (insert id a.shown)
    (by simp) (by simp) (by simp) fun i hi => ?_
  simp [hi]

theorem Fits.stopped (hf : Fits up a w) (id : String) :
    Fits (up \ {id}) ((a.write (.news .down id)).write (.hidden id)) w := by
  refine @Fits.heard up a w id hf (up \ {id}) .down (a.decided.erase id) (a.shown.erase id)
    (by simp) (by simp) (by simp) fun i hi => ?_
  simp [hi]

/-- An agent that exits is shown by the decisions still. -/
theorem Fits.exited (hf : Fits up a w) (hid : id ∈ up) :
    Fits (up \ {id}) (a.write (.news .exited id)) w := by
  have hdecided : id ∈ a.decided := (hf.decided id).mpr (.inl ((hf.running id).mpr hid))
  refine @Fits.heard up a w id hf (up \ {id}) .exited a.decided (a.shown.erase id)
    (by simp) (by simp [hdecided]) (by simp) fun i hi => ?_
  simp [hi]

/-- An agent whose recycle is rolled back is shown by the events still. -/
theorem Fits.rolledBack (hf : Fits up a w) (hid : id ∈ up) :
    Fits (up \ {id}) (a.write (.news .lost id)) w := by
  have hshown : id ∈ a.shown := (hf.shown id).mpr (.inl ((hf.running id).mpr hid))
  refine @Fits.heard up a w id hf (up \ {id}) .lost (a.decided.erase id) a.shown
    (by simp) (by simp) (by simp [hshown]) fun i hi => ?_
  simp [hi]

theorem Fits.cut (hf : Fits up a w) (hwt : ∀ i, i ∈ w'.mem.worktrees ↔ i = id ∨ i ∈ w.mem.worktrees)
    (hst : w'.mem.pressureStage = w.mem.pressureStage) : Fits up (a.write (.cut id)) w' := by
  refine ⟨hf.running, hf.decided, hf.shown, fun i => ?_, hst ▸ hf.stage⟩
  show i ∈ insert id a.worktrees ↔ i ∈ w'.mem.worktrees
  rw [Finset.mem_insert, hwt i, hf.worktrees i]

theorem Fits.uncut (hf : Fits up a w) (hwt : w'.mem.worktrees = w.mem.worktrees.erase id)
    (hst : w'.mem.pressureStage = w.mem.pressureStage) : Fits up (a.write (.uncut id)) w' := by
  refine ⟨hf.running, hf.decided, hf.shown, fun i => ?_, hst ▸ hf.stage⟩
  show i ∈ a.worktrees.erase id ↔ i ∈ w'.mem.worktrees
  rw [Finset.mem_erase, hwt, KeyMap.mem_erase_iff, hf.worktrees i]

theorem Fits.staged (hf : Fits up a w) (hwt : w'.mem.worktrees = w.mem.worktrees) :
    Fits up (a.write (.stage w'.mem.pressureStage)) w' :=
  ⟨hf.running, hf.decided, hf.shown, fun i => hwt ▸ hf.worktrees i, rfl⟩

/-- The first decision of a daemon tells that it runs nothing, whatever was told before. -/
theorem fits_booted (a : Account) (hwt : w.mem.worktrees = ∅) (hst : w.mem.pressureStage = .normal) :
    Fits ∅ (a.write .booted) w := by
  have hnews : ∀ i, (a.write .booted).news i = if i ∈ a.shown then .lost else .down := fun _ => rfl
  refine ⟨fun i => ?_, fun i => ?_, fun i => ?_, fun i => ?_, hst.symm⟩
  · rw [hnews i]
    split <;> simp
  · rw [hnews i]
    show i ∈ (∅ : Finset String) ↔ _
    split <;> simp
  · rw [hnews i]
    show i ∈ a.shown ↔ _
    split <;> simp_all
  · rw [hwt]
    exact iff_of_false (Finset.notMem_empty i) (AList.notMem_empty i)

end Fits

/-! ### What an operation records -/

section Records

variable {w w' w'' : World}

theorem Keeps.of_mem (hwt : w'.mem.worktrees = w.mem.worktrees)
    (hst : w'.mem.pressureStage = w.mem.pressureStage) (hd : w'.durable = w.durable) :
    Keeps w w' :=
  ⟨hwt, hst, [], by rw [hd, Journal.writeAll_nil], fun _ he => absurd he List.not_mem_nil⟩

theorem Keeps.refl (w : World) : Keeps w w := .of_mem rfl rfl rfl

theorem Keeps.trans (h₁ : Keeps w w') (h₂ : Keeps w' w'') : Keeps w w'' :=
  ⟨h₂.worktrees.trans h₁.worktrees, h₂.stage.trans h₁.stage, h₁.writes.trans h₂.writes⟩

theorem Keeps.of_write {e : Effect} (hm : w'.mem = w.mem) (hd : w'.durable = w.durable.write e)
    (he : entry e = none) : Keeps w w' :=
  ⟨by rw [hm], by rw [hm], [e], hd, fun _ he' => List.mem_singleton.mp he' ▸ he⟩

theorem keeps_foldl {α : Type} {f : World → α → World} (hf : ∀ w x, Keeps w (f w x)) (xs : List α)
    (w : World) : Keeps w (xs.foldl f w) := by
  induction xs generalizing w with
  | nil => exact .refl w
  | cons x xs ih => exact (hf w x).trans (ih _)

theorem keeps_ask (w : World) : Keeps w w.ask := .of_mem rfl rfl rfl

theorem Keeps.tells {P Q : Account → World → Prop} (hk : Keeps w w') (hp : ∀ a, P a w → Q a w') :
    Tells (fun w => w.durable.log) Account.read P Q w w' := by
  obtain ⟨es, hd, hes⟩ := hk.writes
  exact .silent (by rw [hd]; rfl) (fun e he a => a.read_silent (hes e he)) hp

/-- The accounts are what they were, whoever runs. -/
theorem Keeps.told (hk : Keeps w w') (up : Set String) : Told up up w w' :=
  hk.tells fun _ hf => hf.congr hk.worktrees hk.stage

theorem Told.keeps {up up' : Set String} (ht : Told up up' w w') (hk : Keeps w' w'') :
    Told up up' w w'' :=
  Tells.trans ht (hk.told up')

theorem Keeps.then {up up' : Set String} (hk : Keeps w w') (ht : Told up up' w' w'') :
    Told up up' w w'' :=
  Tells.trans (hk.told up) ht

theorem Told.follows {up : Set String} (ht : Told (residents w.mem) up w w')
    (hr : residents w'.mem = up) : Follows w w' := by
  subst hr
  exact ht

theorem Keeps.follows (hk : Keeps w w') (hr : w'.mem.runtimes = w.mem.runtimes) :
    Follows w w' :=
  (hk.told _).follows (by rw [residents, residents, hr])

theorem residents_insert {m m' : DaemonState} {id : String} {rt : RuntimeInstance}
    (hm : m'.runtimes = m.runtimes.insert id rt) : residents m' = insert id (residents m) := by
  ext i
  show i ∈ m'.runtimes ↔ i ∈ insert id (residents m)
  rw [hm, KeyMap.mem_insert_iff]
  rfl

theorem residents_erase {m m' : DaemonState} {id : String}
    (hm : m'.runtimes = m.runtimes.erase id) : residents m' = residents m \ {id} := by
  ext i
  show i ∈ m'.runtimes ↔ i ∈ residents m \ {id}
  rw [hm, KeyMap.mem_erase_iff]
  exact and_comm

theorem follows_foldl {α : Type} {f : World → α → World} (hf : ∀ w x, Follows w (f w x))
    (xs : List α) (w : World) : Follows w (xs.foldl f w) := by
  induction xs generalizing w with
  | nil => exact .refl w
  | cons x xs ih => exact Tells.trans (hf w x) (ih _)

end Records

/-! ### The tables -/

/-- What the two tables tell, each of them read alone: there is no order between the rows of one and the
rows of the other, and so no last news. -/
def Account.ofTables (tb : Tables) : Account :=
  { tb.decisions.foldl Account.readDecision .empty with
    shown := (tb.events.foldl Account.readEvent .empty).shown }

/-- What was told in the order it was written. -/
def told (j : Journal Disk Effect) : Account :=
  j.log.foldl Account.read (.ofTables j.start.tables)

/-- Two accounts say the same of what decisions tell, but for the news. -/
structure Agree (a b : Account) : Prop where
  decided : a.decided = b.decided
  worktrees : a.worktrees = b.worktrees
  stage : a.stage = b.stage

theorem Agree.trans {a b c : Account} (hab : Agree a b) (hbc : Agree b c) : Agree a c :=
  ⟨hab.decided.trans hbc.decided, hab.worktrees.trans hbc.worktrees, hab.stage.trans hbc.stage⟩

section Rows

variable {a b : Account} {taskId : Option String} {action eventType : String}
  {evidence : Option JsonObject}

theorem Agree.hear (hab : Agree a b) (x : Option Entry) : Agree (a.hear x) (b.hear x) := by
  obtain ⟨hd, hw, hs⟩ := hab
  rcases x with _ | x
  · exact ⟨hd, hw, hs⟩
  · cases x with
    | news n id =>
        refine ⟨?_, hw, hs⟩
        cases n with
        | up => exact congrArg (insert id) hd
        | down => exact congrArg (Finset.erase · id) hd
        | lost => exact congrArg (Finset.erase · id) hd
        | exited => exact hd
    | shown id => exact ⟨hd, hw, hs⟩
    | hidden id => exact ⟨hd, hw, hs⟩
    | cut id => exact ⟨hd, congrArg (insert id) hw, hs⟩
    | uncut id => exact ⟨hd, congrArg (Finset.erase · id) hw, hs⟩
    | stage s => exact ⟨hd, hw, rfl⟩
    | booted => exact ⟨rfl, rfl, rfl⟩

theorem shown_hear (hab : a.shown = b.shown) (x : Option Entry) :
    (a.hear x).shown = (b.hear x).shown := by
  rcases x with _ | x
  · exact hab
  · cases x with
    | news n id =>
        cases n with
        | exited => exact congrArg (Finset.erase · id) hab
        | _ => exact hab
    | shown id => exact congrArg (insert id) hab
    | hidden id => exact congrArg (Finset.erase · id) hab
    | _ => exact hab

theorem mem_of_lookup {α : Type} {l : List (String × α)} {k : String} {x : α}
    (hl : l.lookup k = some x) : (k, x) ∈ l := by
  obtain ⟨l₁, l₂, rfl, -⟩ := List.lookup_eq_some_iff.mp hl
  exact List.mem_append_right _ List.mem_cons_self

/-- A decision shows nothing to a watcher of the events. -/
theorem shown_ofDecision (a : Account) :
    (a.hear (ofDecision taskId action evidence)).shown = a.shown := by
  cases taskId with
  | none =>
      unfold ofDecision
      dsimp only
      split
      · rfl
      · split
        · unfold stageEntry
          split
          · next name _ => cases stageNamed name <;> rfl
          · rfl
        · rfl
  | some id =>
      have hall : ∀ p ∈ actions, (a.write (p.2 id)).shown = a.shown := by
        unfold actions
        simp only [List.forall_mem_cons]
        exact ⟨rfl, rfl, rfl, rfl, rfl, rfl, rfl, rfl, rfl, rfl, nofun⟩
      show (a.hear ((actions.lookup action).map (· id))).shown = a.shown
      cases hl : actions.lookup action with
      | none => rfl
      | some f => exact hall _ (mem_of_lookup hl)

/-- An event decides nothing. -/
theorem agree_ofEvent (a : Account) : Agree a (a.hear (ofEvent taskId eventType)) := by
  cases taskId with
  | none => exact ⟨rfl, rfl, rfl⟩
  | some id =>
      have hall : ∀ p ∈ eventTypes, Agree a (a.write (p.2 id)) := by
        unfold eventTypes
        simp only [List.forall_mem_cons]
        refine ⟨?_, ?_, ?_, ?_, ?_, ?_, ?_, nofun⟩ <;> exact ⟨rfl, rfl, rfl⟩
      show Agree a (a.hear ((eventTypes.lookup eventType).map (· id)))
      cases hl : eventTypes.lookup eventType with
      | none => exact ⟨rfl, rfl, rfl⟩
      | some f => exact hall _ (mem_of_lookup hl)

end Rows

/-- Each table alone tells its part of the account. -/
def Retold (tb : Tables) (a : Account) : Prop :=
  Agree (tb.decisions.foldl Account.readDecision .empty) a ∧
    (tb.events.foldl Account.readEvent .empty).shown = a.shown

theorem retold_apply {d : Disk} {a : Account} (hr : Retold d.tables a) (e : Effect) :
    Retold (Replay.apply d e).tables (a.read e) := by
  obtain ⟨hagree, hshown⟩ := hr
  cases e with
  | commit q =>
      cases q with
      | recordDecision r =>
          refine ⟨?_, hshown.trans (shown_ofDecision a).symm⟩
          show Agree ((d.tables.decisions ++ [_]).foldl Account.readDecision .empty) _
          rw [List.foldl_append]
          exact hagree.hear _
      | appendEvent r =>
          refine ⟨hagree.trans (agree_ofEvent a), ?_⟩
          show ((d.tables.events ++ [_]).foldl Account.readEvent .empty).shown = _
          rw [List.foldl_append]
          exact shown_hear hshown _
      | _ => exact ⟨hagree, hshown⟩
  | _ => exact ⟨hagree, hshown⟩

theorem retold (j : Journal Disk Effect) : Retold j.state.tables (told j) := by
  have hreplay : ∀ (es : List Effect) (d : Disk) (a : Account), Retold d.tables a →
      Retold (Journal.replay d es).tables (es.foldl Account.read a) := by
    intro es
    induction es with
    | nil => exact fun d a hr => hr
    | cons e es ih => exact fun d a hr => ih _ _ (retold_apply hr e)
  exact hreplay j.log j.start (.ofTables j.start.tables) ⟨⟨rfl, rfl, rfl⟩, rfl⟩

end MemMux.Trail
