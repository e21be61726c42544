/-
MemMux/Landing.lean

The code a resumed task lands on (`resume` in `memmuxd/src/daemon.rs`).

A checkpoint records the `HEAD` and the patch hash of the directory its task ran in.  A resume
verifies the checkpoint and relaunches the provider; it does not look at the directory again.
`Trees` says what git shows of every directory while an event happens, and may be different for
the next event in any way.  `Captures` follows the log of the daemon with it: of which directory,
with which code, each artifact was written.

`resume_lands_iff` says when a resume lands on the code its checkpoint records: exactly when the
directory it launches in (the worktree the daemon holds, else the repository) shows the code that
was captured.  Nothing in the daemon makes it so.
-/
import MemMux.CheckpointJson
import MemMux.Retained
import MemMux.TaskIds

namespace MemMux

open Ledger

variable {codec : CheckpointCodec} {h : Host} {R : Rules}

/-! ### Code -/

/-- What git shows of a directory: its `HEAD` and its difference to it, when git succeeds. -/
structure GitView where
  head : Option String
  diff : Option String

/-- The state of a repository as a checkpoint records it. -/
structure Code where
  head : String
  patchHash : String
  deriving DecidableEq, Repr

/-- The code that git shows. -/
def GitView.code (v : GitView) : Code :=
  ⟨(v.head.map trim).getD "", contentHash (utf8 (v.diff.getD ""))⟩

/-- The code a checkpoint records. -/
def Checkpoint.code (cp : Checkpoint) : Code := ⟨cp.gitHead, cp.gitPatchHash⟩

/-- What git shows of every directory. -/
abbrev Trees := Path → GitView

/-- The git of the host shows the trees. -/
structure Shows (h : Host) (trees : Trees) : Prop where
  head : ∀ n dir, h.git n dir ["rev-parse", "HEAD"] = (trees dir).head
  diff : ∀ n dir, h.git n dir ["diff", "HEAD"] = (trees dir).diff

/-- While the event happens, git shows the trees. -/
def Event.shows (trees : Trees) : Event → Prop
  | .op h _ | .crash h _ _ _ => Shows h trees
  | .reboot _ => True

/-! ### Captures -/

/-- The captures of a run: the directory that was captured last, and for every artifact the code
of the directory it was written of. -/
structure Captures where
  dir : Option Path
  kept : Path → Option Code

/-- Nothing was captured. -/
def Captures.none : Captures := ⟨Option.none, fun _ => Option.none⟩

/-- One effect, while git shows the trees. -/
def Captures.see (trees : Trees) (c : Captures) : Effect → Captures
  | .capture _ dir => { c with dir := some dir }
  | .writeArtifact path _ =>
      { c with kept := Function.update c.kept path (c.dir.map fun dir => (trees dir).code) }
  | .tornArtifact path => { c with kept := Function.update c.kept path Option.none }
  | _ => c

/-- The effects an event has before its daemon is gone. -/
def effectsIn (codec : CheckpointCodec) (w : World) : Event → List Effect
  | .op h i => effectsOf codec h i w
  | .crash h i k _ => (effectsOf codec h i w).take k
  | .reboot _ => []

/-- A run with its captures. -/
def capturing (codec : CheckpointCodec) (s : World × Captures) (x : Event × Trees) :
    World × Captures :=
  (next codec s.1 x.1, (effectsIn codec s.1 x.1).foldl (Captures.see x.2) s.2)

/-! ### What artifacts hold -/

/-- An effect that a checkpoint is made of. -/
def Effect.onCheckpoint : Effect → Bool
  | .capture _ _ | .writeArtifact _ _ | .tornArtifact _ | .commit (.saveCheckpointRef _) => true
  | _ => false

/-- **Every artifact holds the code it was written of**, every reference is to the artifact of its
own task, and a capture that ends the log is the last one. -/
structure Kept (codec : CheckpointCodec) (root : Path) (j : Journal Disk Effect) (c : Captures) :
    Prop where
  last : ∀ id dir, j.log.getLast? = some (.capture id dir) → c.dir = some dir
  refs : ∀ id r, j.state.tables.loadCheckpointRef id = some r →
    r.artifactPath = checkpointPath root id
  files : ∀ path bytes cp, j.state.files.lookup path = some bytes →
    codec.decode bytes = some cp → c.kept path = some cp.code

section Write

variable {root : Path} {j : Journal Disk Effect} {c : Captures} {trees : Trees}

/-- Any other effect leaves the captures alone. -/
theorem see_of_not_onCheckpoint {e : Effect} (he : e.onCheckpoint = false) : c.see trees e = c := by
  cases e with
  | capture i dir => cases he
  | writeArtifact path bytes => cases he
  | tornArtifact path => cases he
  | _ => rfl

/-- What the effect that ends the log is not, does not end the log. -/
theorem getLast_write {e : Effect} (he : e.onCheckpoint = false) (id : String) (dir : Path) :
    (j.write e).log.getLast? ≠ some (.capture id dir) := by
  rw [Journal.write_log, List.getLast?_concat]
  intro heq
  rw [Option.some.inj heq] at he
  cases he

/-- An effect that no checkpoint is made of makes no reference and no artifact. -/
theorem kept_write {e : Effect} (hk : Kept codec root j c) (he : e.onCheckpoint = false) :
    Kept codec root (j.write e) (c.see trees e) := by
  rw [see_of_not_onCheckpoint he]
  refine ⟨fun id dir hlast => absurd hlast (getLast_write he id dir), ?_, ?_⟩
  · intro id r hr
    rw [Journal.state_write] at hr
    cases e with
    | commit q =>
        cases q with
        | saveCheckpointRef r' => cases he
        | deleteCheckpoints i =>
            have hdel := (Tables.lookup_deleteCheckpoints j.state.tables id i).symm.trans hr
            split at hdel
            · cases hdel
            · exact hk.refs id r hdel
        | _ => exact hk.refs id r hr
    | capture i dir => cases he
    | writeArtifact path bytes => cases he
    | tornArtifact path => cases he
    | _ => exact hk.refs id r hr
  · intro path bytes cp hfile
    rw [Journal.state_write] at hfile
    cases e with
    | capture i dir => cases he
    | writeArtifact path bytes => cases he
    | tornArtifact path => cases he
    | _ => exact hk.files path bytes cp hfile

theorem kept_writeAll {es : List Effect} (hk : Kept codec root j c)
    (hes : ∀ e ∈ es, e.onCheckpoint = false) :
    Kept codec root (j.writeAll es) (es.foldl (Captures.see trees) c) := by
  induction es generalizing j c with
  | nil =>
      rw [Journal.writeAll_nil]
      exact hk
  | cons e es ih =>
      rw [Journal.writeAll_cons]
      exact ih (kept_write hk (hes e List.mem_cons_self)) fun e' he' =>
        hes e' (List.mem_cons_of_mem _ he')

theorem kept_capture (hk : Kept codec root j c) (id : String) (dir : Path) :
    Kept codec root (j.write (.capture id dir)) { c with dir := some dir } := by
  refine ⟨fun i d hlast => ?_, fun i r hr => ?_, fun path bytes cp hfile => ?_⟩
  · rw [Journal.write_log, List.getLast?_concat] at hlast
    obtain ⟨-, rfl⟩ := Effect.capture.inj (Option.some.inj hlast)
    rfl
  · rw [Journal.state_write] at hr
    exact hk.refs i r hr
  · rw [Journal.state_write] at hfile
    exact hk.files path bytes cp hfile

theorem kept_reference {r : CheckpointRef} (hk : Kept codec root j c)
    (hp : r.artifactPath = checkpointPath root r.taskId) :
    Kept codec root (j.write (.commit (.saveCheckpointRef r))) c := by
  refine ⟨fun i dir hlast => ?_, fun i r' hr => ?_, fun path bytes cp hfile => ?_⟩
  · rw [Journal.write_log, List.getLast?_concat] at hlast
    cases hlast
  · rw [Journal.state_write] at hr
    have hsave := (Tables.lookup_saveCheckpointRef j.state.tables i r).symm.trans hr
    split at hsave
    · next heq =>
      obtain rfl := Option.some.inj hsave
      rw [heq]
      exact hp
    · exact hk.refs i r' hsave
  · rw [Journal.state_write] at hfile
    exact hk.files path bytes cp hfile

/-- An artifact that is written over, with contents that decode to what is kept. -/
theorem kept_file {e : Effect} {path : Path} {bytes : List UInt8} {code : Option Code}
    (hk : Kept codec root j c) (he : Replay.apply j.state e
      = { j.state with files := j.state.files.insert path bytes })
    (hlast : ∀ id dir, e ≠ .capture id dir)
    (hcode : ∀ cp, codec.decode bytes = some cp → code = some cp.code) :
    Kept codec root (j.write e) { c with kept := Function.update c.kept path code } := by
  refine ⟨fun i dir hl => ?_, fun i r hr => ?_, fun p bs cp hfile hdec => ?_⟩
  · rw [Journal.write_log, List.getLast?_concat] at hl
    exact absurd (Option.some.inj hl) (hlast i dir)
  · rw [Journal.state_write, he] at hr
    exact hk.refs i r hr
  · rw [Journal.state_write, he] at hfile
    have hfile' : (j.state.files.insert path bytes).lookup p = some bs := hfile
    rw [KeyMap.lookup_insert_ite] at hfile'
    split at hfile'
    · next heq =>
      obtain rfl := Option.some.inj hfile'
      show Function.update c.kept path code p = some cp.code
      rw [heq, Function.update_self]
      exact hcode cp hdec
    · next hne =>
      show Function.update c.kept path code p = some cp.code
      rw [Function.update_of_ne hne]
      exact hk.files p bs cp hfile' hdec

end Write

/-! ### Steps -/

/-- A snapshot has the code that git shows of the directory captured last. -/
theorem Snapshot.code {w : World} {cp : Checkpoint} {root : Path} {c : Captures} {trees : Trees}
    (hs : Snapshot h w cp) (hshow : Shows h trees) (hk : Kept codec root w.durable c) :
    c.dir.map (fun dir => (trees dir).code) = some cp.code := by
  obtain ⟨id, dir, hlast, ⟨u, hhead⟩, u', hpatch⟩ := hs
  rw [hk.last id dir hlast, Option.map_some, Checkpoint.code, hhead, hpatch, GitView.code, gitHead,
    gitPatchHash, hshow.head, hshow.diff]

/-- No chore but a capture is on a checkpoint. -/
theorem Chore.kept {w w' : World} {es : List Effect} {root : Path} {c : Captures} {trees : Trees}
    (hc : Chore R w es w') (hk : Kept codec root w.durable c) :
    Kept codec root w'.durable (es.foldl (Captures.see trees) c) := by
  have hquiet : ∀ e : Effect, e.quiet → e.onCheckpoint = false := by
    intro e he
    cases e with
    | commit q => cases q <;> first | rfl | cases he
    | _ => first | rfl | cases he
  rw [hc.durable]
  cases hc with
  | quiet ht hroot hrt hwt hd he => exact kept_writeAll hk fun e hin => hquiet e (he e hin)
  | drop hm hd => exact kept_writeAll hk (by simp)
  | install ht hf hcwd hts hroot hrt hwt hd => exact kept_writeAll hk (by simp)
  | stop hs hm hd => exact kept_writeAll hk (List.forall_mem_singleton.mpr rfl)
  | spawn ht hf hm hd => exact kept_writeAll hk (List.forall_mem_singleton.mpr rfl)
  | capture hid ht hm hd => exact kept_capture hk _ _
  | cut hl ht hrepo hadd hf hm hd he =>
      exact kept_writeAll hk (List.forall_mem_cons.mpr ⟨rfl, fun e hin => hquiet e (he e hin)⟩)
  | added hm hd he =>
      exact kept_writeAll hk (List.forall_mem_cons.mpr ⟨rfl, fun e hin => hquiet e (he e hin)⟩)
  | release hid hl hm hd he hg =>
      refine kept_writeAll hk fun e hin => ?_
      rcases he e hin with hq | rfl
      · exact hquiet e hq
      · rfl

/-- **A step keeps artifacts what they were written of.** -/
theorem Act.kept {s s' : Phase × World} {es : List Effect} {root : Path} {c : Captures}
    {trees : Trees} (ha : Act codec h R s es s') (hnil : codec.decode [] = none)
    (hshow : Shows h trees) (hroot : s.2.mem.root = root)
    (hk : Kept codec root s.2.durable c) :
    Kept codec root s'.2.durable (es.foldl (Captures.see trees) c) := by
  have hd := ha.durable
  cases ha with
  | idle hc => exact hc.kept hk
  | artifact ht hs he hm hw =>
      rcases he with rfl | ⟨cp, hsnap, rfl⟩
      · rw [hd]
        refine kept_file hk rfl nofun fun cp hdec => ?_
        rw [hnil] at hdec
        cases hdec
      · rw [hd]
        refine kept_file hk rfl nofun fun cp' hdec => ?_
        rw [codec.decode_encode] at hdec
        obtain rfl := Option.some.inj hdec
        exact hsnap.code hshow hk
  | reference ht hs hp hm hw =>
      rw [hd]
      exact kept_reference hk (hroot ▸ hp)
  | _ =>
      rw [hd]
      exact kept_writeAll hk (by simp [Effect.onCheckpoint])

theorem kept_chain {s s' : Phase × World} {es : List Effect} {root : Path} {c : Captures}
    {trees : Trees} (hc : Chain (Act codec h R) s es s') (hnil : codec.decode [] = none)
    (hshow : Shows h trees) (hroot : s.2.mem.root = root) (hk : Kept codec root s.2.durable c) :
    Kept codec root s'.2.durable (es.foldl (Captures.see trees) c) := by
  induction hc with
  | nil => exact hk
  | snoc hrest hlast ih =>
      rw [List.foldl_append]
      exact hlast.kept hnil hshow ((chain_root hrest).trans hroot) ih

/-- A create request makes no checkpoint. -/
theorem createTask_writes (req : CreateTaskRequest) (w : World) :
    (createTask h req (w.begin h)).1.mem.root = w.mem.root ∧
      Writes (fun e => e.onCheckpoint = false) w (createTask h req (w.begin h)).1 := by
  have hexec : ∀ (q : Stmt) (u : World), (Effect.commit q).onCheckpoint = false →
      Writes (fun e => e.onCheckpoint = false) u (exec h q u) := by
    intro q u hq
    have hr : (Effect.refuse q).onCheckpoint = false := rfl
    exact @writes_exec h (fun e => e.onCheckpoint = false) q hq hr u
  cases hp : parseProvider req.provider with
  | none =>
      unfold createTask
      rw [hp]
      exact ⟨rfl, .of_durable rfl⟩
  | some provider =>
      have hrow : Writes (fun e => e.onCheckpoint = false) w
          (exec h (.upsertTask (newTask h w provider req)) (counted h w)) :=
        hexec _ (counted h w) rfl
      rw [createTask_eq hp]
      split
      · exact ⟨rfl, hrow.trans ((hexec _ _ rfl).trans ((hexec _ _ rfl).trans (hexec _ _ rfl)))⟩
      · exact ⟨rfl, hrow⟩

/-! ### Runs -/

/-- A run whose daemon keeps artifacts what they were written of. -/
structure Keeping (codec : CheckpointCodec) (s : World × Captures) : Prop where
  live : Live s.1.ledger
  kept : Kept codec s.1.mem.root s.1.durable s.2

/-- A boot is on no checkpoint. -/
theorem Kept.boot {root : Path} {j : Journal Disk Effect} {c : Captures}
    (hk : Kept codec root j c) (h : Host) (envelope : ResourceEnvelope) :
    Keeping codec (boot h envelope root j, c) := by
  obtain ⟨e, he, hd⟩ := boot_disk h envelope root j
  have hoff : e.onCheckpoint = false := by
    cases e with
    | commit q => cases q <;> first | rfl | cases he
    | _ => first | rfl | cases he
  refine ⟨live_boot _ _ _ _, ?_⟩
  have hw := @kept_write codec root j c (fun _ => ⟨none, none⟩) e hk hoff
  rw [see_of_not_onCheckpoint hoff, ← hd] at hw
  exact hw

/-- What an operation has done after its first effects. -/
theorem Keeping.cut {w : World} {c : Captures} {trees : Trees} (hs : Keeping codec (w, c))
    (hnil : codec.decode [] = none) (hshow : Shows h trees) (i : Input) (k : Nat) :
    Kept codec w.mem.root ((perform codec h i w).durable.cut (w.durable.log.length + k))
      (((effectsOf codec h i w).take k).foldl (Captures.see trees) c) := by
  by_cases hi : i.makesNoTask = true
  · obtain ⟨q, u, hc, hcut⟩ := crash_chain hs.live (@complies_noTask codec h i hi w) k
    rw [hcut]
    exact kept_chain hc hnil hshow rfl hs.kept
  · obtain ⟨req, rfl⟩ := Input.create_of_not hi
    obtain ⟨-, es, hd, hes⟩ := @createTask_writes h req w
    rw [@effectsOf_eq codec h (.request (.createTask req)) w es hd]
    show Kept codec _ ((createTask h req (w.begin h)).1.durable.cut _) _
    rw [hd, Journal.cut_writeAll]
    exact kept_writeAll hs.kept fun e he => hes e (List.take_subset _ _ he)

/-- **Every event keeps artifacts what they were written of.** -/
theorem Keeping.next {s : World × Captures} {x : Event × Trees} (hs : Keeping codec s)
    (hnil : codec.decode [] = none) (hshow : x.1.shows x.2) : Keeping codec (capturing codec s x) := by
  obtain ⟨w, c⟩ := s
  obtain ⟨e, trees⟩ := x
  cases e with
  | reboot h => exact hs.kept.boot h _
  | crash h i k h' => exact (hs.cut hnil hshow i k).boot h' _
  | op h i =>
      refine ⟨(perform_moves_any hs.live).live hs.live, ?_⟩
      by_cases hi : i.makesNoTask = true
      · have hc := perform_chain hs.live (@complies_noTask codec h i hi w)
        show Kept codec (perform codec h i w).mem.root _ _
        rw [chain_root hc]
        exact kept_chain hc hnil hshow rfl hs.kept
      · obtain ⟨req, rfl⟩ := Input.create_of_not hi
        obtain ⟨hroot, es, hd, hes⟩ := @createTask_writes h req w
        show Kept codec (createTask h req (w.begin h)).1.mem.root
          (createTask h req (w.begin h)).1.durable ((effectsOf codec h _ w).foldl _ c)
        rw [@effectsOf_eq codec h (.request (.createTask req)) w es hd, hroot, hd]
        exact kept_writeAll hs.kept hes

/-- A fresh disk holds no artifact. -/
theorem keeping_fresh (h : Host) (envelope : ResourceEnvelope) (root : Path)
    (repos : List Path) : Keeping codec (boot h envelope root (freshDisk repos), .none) := by
  refine Kept.boot ⟨fun id dir hlast => ?_, fun id r hr => ?_, fun path bytes cp hfile => ?_⟩ h envelope
  · cases hlast
  · cases hr
  · cases hfile

/-! ### Resumes -/

/-- The provider a relaunch installs runs in the directory of its task. -/
theorem relaunch_cwd {id : String} {task : Task} {cp : Checkpoint} {w w' : World}
    {o : ResumeOutcome} (hr : relaunchFromCheckpoint h id task cp w = (w', .ok o)) :
    ∃ rt, w'.mem.runtimes.lookup id = some rt ∧ rt.cwd = some (captureDir id task w.mem) := by
  have hcwd := @relaunchSpec_cwd h id task w.mem
  unfold relaunchFromCheckpoint at hr
  dsimp only at hr
  split at hr
  · next w₁ rt hs =>
    obtain ⟨rfl, hrt⟩ := spawnPty_ok hs
    unfold installRelaunched at hr
    split at hr
    · cases (Prod.mk.inj hr).2
    · obtain ⟨rfl, -⟩ := Prod.mk.inj hr
      exact ⟨rt, AList.lookup_insert _, hrt.trans ((relaunchPty_cwd _ _ _ _).trans hcwd)⟩
  · next w₁ e hs =>
    obtain ⟨rfl, -⟩ := Prod.mk.inj hs
    split at hr
    · unfold relaunchFallback at hr
      split at hr
      · cases (Prod.mk.inj hr).2
      · next w₂ rt hs' =>
        obtain ⟨rfl, hrt⟩ := spawnPty_ok hs'
        obtain ⟨rfl, -⟩ := Prod.mk.inj hr
        exact ⟨rt, AList.lookup_insert _, hrt.trans ((Provider.command_cwd _ _).trans hcwd)⟩
    · cases (Prod.mk.inj hr).2

/-- A refused resume answers with an error. -/
theorem prepareResume_error {id : String} {w : World} {r : Response}
    (hp : prepareResume codec id w = .error r) : ∃ message, r = .error message := by
  unfold prepareResume at hp
  split at hp
  · exact ⟨_, (Except.error.inj hp).symm⟩
  · split at hp
    · exact ⟨_, (Except.error.inj hp).symm⟩
    · split at hp
      · exact ⟨_, (Except.error.inj hp).symm⟩
      · cases hp

/-- The resume succeeds. -/
def Resumes (codec : CheckpointCodec) (h : Host) (id : String) (w : World) : Prop :=
  ∃ v, (handle codec h (.resumeTask id) (w.begin h)).2 = .task v

/-- **A resume that succeeds** has loaded the checkpoint of the task, and its provider runs in the
directory of the task. -/
theorem resume_ok {id : String} {w : World} (hok : Resumes codec h id w) :
    ∃ task cp rt, w.mem.tasks.lookup id = some task ∧
      loadCheckpoint codec id w.disk = .ok cp ∧
      (next codec w (.op h (.request (.resumeTask id)))).mem.runtimes.lookup id = some rt ∧
      rt.cwd = some (captureDir id task w.mem) := by
  obtain ⟨v, hv⟩ := hok
  show ∃ task cp rt, _ ∧ _ ∧ (resume codec h id (w.begin h)).1.mem.runtimes.lookup id = some rt ∧ _
  have hv' : (resume codec h id (w.begin h)).2 = .task v := hv
  rcases resume_cases codec h (w.begin h) id with ⟨r, hp, heq⟩ |
    ⟨task, cp, hp, ⟨w', e, hr, -, heq⟩ | ⟨w', o, _, _, hr, -, heq⟩⟩ <;> rw [heq] at hv' ⊢
  · obtain ⟨message, rfl⟩ := prepareResume_error hp
    cases hv'
  · cases hv'
  · obtain ⟨ht, -, hload⟩ := prepareResume_ok codec hp
    obtain ⟨rt, hrt, hcwd⟩ := relaunch_cwd hr
    exact ⟨task, cp, rt, ht, hload, hrt, hcwd⟩

/-- **The resume lands on the code the task last saw**: the directory in which the provider runs
after it has the `HEAD` and the patch hash that the checkpoint records. -/
def Lands (codec : CheckpointCodec) (h : Host) (trees : Trees) (id : String) (w : World) : Prop :=
  ∀ cp rt dir, loadCheckpoint codec id w.disk = .ok cp →
    (next codec w (.op h (.request (.resumeTask id)))).mem.runtimes.lookup id = some rt →
    rt.cwd = some dir → (trees dir).code = cp.code

/-- **The launch directory shows what was captured**: its code is that of the directory the
artifact of the task was written of, at that time. -/
def AsCaptured (trees : Trees) (id : String) (s : World × Captures) : Prop :=
  ∀ task, s.1.mem.tasks.lookup id = some task →
    s.2.kept (checkpointPath s.1.mem.root id) = some (trees (captureDir id task s.1.mem)).code

theorem Keeping.lands_iff {s : World × Captures} {id : String} {trees : Trees}
    (hs : Keeping codec s) (hok : Resumes codec h id s.1) :
    Lands codec h trees id s.1 ↔ AsCaptured trees id s := by
  obtain ⟨task, cp, rt, ht, hload, hrt, hcwd⟩ := resume_ok hok
  obtain ⟨r, bytes, href, hfile, hdec, -, -⟩ := loadCheckpoint_ok hload
  rw [hs.kept.refs id r href] at hfile
  -- the artifact holds the code it was written of
  have hkept := hs.kept.files _ bytes cp hfile hdec
  constructor
  · intro hlands task' ht'
    obtain rfl : task = task' := Option.some.inj (ht.symm.trans ht')
    rw [hkept, hlands cp rt _ hload hrt hcwd]
  · intro hun cp' rt' dir hload' hrt' hcwd'
    obtain rfl : cp = cp' := Except.ok.inj (hload.symm.trans hload')
    obtain rfl : rt = rt' := Option.some.inj (hrt.symm.trans hrt')
    obtain rfl : captureDir id task s.1.mem = dir := Option.some.inj (hcwd.symm.trans hcwd')
    exact (Option.some.inj (hkept.symm.trans (hun task ht))).symm

/-- A file that a write left empty is no checkpoint. -/
theorem serdeJson_decode_nil : serdeJson.decode [] = none := by decide +kernel

/-- **Every run keeps artifacts what they were written of.** -/
theorem keeping_run (h : Host) (envelope : ResourceEnvelope) (root : Path) (repos : List Path)
    {es : List (Event × Trees)} (hes : ∀ x ∈ es, x.1.shows x.2) :
    Keeping serdeJson (Run.run (capturing serdeJson)
      (boot h envelope root (freshDisk repos), .none) es) := by
  have hallowed : Run.Allowed (capturing serdeJson) (fun _ x => x.1.shows x.2)
      (boot h envelope root (freshDisk repos), .none) es :=
    Run.allowed_of_mem fun x hx _ => hes x hx
  exact Run.invariant (fun _ _ hs hshow => hs.next serdeJson_decode_nil hshow)
    (keeping_fresh h envelope root repos) hallowed

/-- **A resume lands on the code of its checkpoint exactly when the launch directory shows what was
captured.**  In every run, whatever happens to the directories between its events, and whatever
crashes and reboots it has, a resume that succeeds launches the provider in a directory with the
`HEAD` and the patch hash its checkpoint records if and only if that directory shows the code
which the captured directory had when the checkpoint was written. -/
theorem resume_lands_iff (boots : Host) (envelope : ResourceEnvelope) (root : Path)
    (repos : List Path) (es : List (Event × Trees)) (hes : ∀ x ∈ es, x.1.shows x.2) (h : Host)
    (trees : Trees) (id : String)
    (hok : Resumes serdeJson h id (Run.run (capturing serdeJson)
      (boot boots envelope root (freshDisk repos), .none) es).1) :
    Lands serdeJson h trees id (Run.run (capturing serdeJson)
        (boot boots envelope root (freshDisk repos), .none) es).1
      ↔ AsCaptured trees id (Run.run (capturing serdeJson)
        (boot boots envelope root (freshDisk repos), .none) es) :=
  (keeping_run boots envelope root repos hes).lands_iff hok

/-! ### A commit between hibernate and resume -/

/-- A relaunch succeeds if the provider comes up. -/
theorem relaunch_succeeds (id : String) (task : Task) (cp : Checkpoint) (w : World)
    (hspawn : ∀ n, (h.spawn n).isSome) (hrun : ∀ n, h.running n = true) :
    ∃ w' o, relaunchFromCheckpoint h id task cp w = (w', .ok o) := by
  unfold relaunchFromCheckpoint
  dsimp only
  split
  · next w₁ rt hs =>
    unfold installRelaunched
    rw [hrun]
    exact ⟨_, _, rfl⟩
  · next w₁ e hs =>
    obtain ⟨pid, hpid⟩ := Option.isSome_iff_exists.mp (hspawn w.ask.calls)
    have hno := (Prod.mk.inj hs).2
    rw [hpid] at hno
    cases hno

/-- A resume succeeds if the checkpoint loads and the provider comes up. -/
theorem resumes_of_loads {id : String} {task : Task} {w : World}
    (ht : w.mem.tasks.lookup id = some task) (hs : task.state = .hibernated)
    (hload : Loads codec id w.disk) (hspawn : ∀ n, (h.spawn n).isSome)
    (hrun : ∀ n, h.running n = true) : Resumes codec h id w := by
  obtain ⟨cp, hcp⟩ := hload
  have hp : prepareResume codec id (w.begin h).ask = .ok (task, cp) := by
    unfold prepareResume
    rw [show (w.begin h).ask.mem.tasks.lookup id = some task from ht]
    dsimp only
    rw [if_neg (not_not.mpr hs), show loadCheckpoint codec id (w.begin h).ask.disk = .ok cp from hcp]
  unfold Resumes
  show ∃ v, (resume codec h id (w.begin h)).2 = .task v
  unfold resume
  dsimp only
  rw [hp]
  dsimp only
  have hcases := relaunch_cases h (w.begin h).ask id task cp
  obtain ⟨w', o, hr⟩ := @relaunch_succeeds h id task cp (w.begin h).ask hspawn hrun
  rw [hr] at hcases ⊢
  obtain ⟨o', rt, hist, -, hmem⟩ | ⟨⟨e, he⟩, -⟩ := hcases
  · have ht' : w'.mem.tasks.lookup id = some task := by
      rw [hmem]
      exact ht
    -- the task ends `Active`, and is shown so
    have ht₂ := lookup_advance_self h _ (lookup_advance_self h w' ht' .resuming
      "restoring from checkpoint" (h.now 0)) .active "provider resumed" (h.now 0)
    have hview : viewOf id (thaw h id task.spec.resourceClass o (h.now 0) w')
        = .task (view ((task.attempt .resuming "restoring from checkpoint" (h.now 0)).attempt
            .active "provider resumed" (h.now 0))) := by
      unfold viewOf
      rw [show (thaw h id task.spec.resourceClass o (h.now 0) w').mem.tasks.lookup id = _ from ht₂]
    exact ⟨_, hview⟩
  · cases he

/-- Every directory is clean, at the commit `sha`. -/
def atCommit (sha : String) : Trees := fun _ => ⟨some sha, some ""⟩

/-- The steady host, with all repositories clean at `sha`. -/
def hostAt (sha : String) : Host :=
  { steadyHost with
      git := fun _ _ args => if args = ["rev-parse", "HEAD"] then some sha else some "" }

theorem shows_atCommit (sha : String) : Shows (hostAt sha) (atCommit sha) := by
  constructor
  · intro n dir
    show (if ["rev-parse", "HEAD"] = ["rev-parse", "HEAD"] then some sha else some "") = some sha
    rw [if_pos rfl]
  · intro n dir
    show (if ["diff", "HEAD"] = ["rev-parse", "HEAD"] then some sha else some "") = some ""
    rw [if_neg (by decide)]

/-- A task is created, restarted and hibernated while its repository is at `1f3a`. -/
def hibernated : List (Event × Trees) :=
  [(.op (hostAt "1f3a") (.request (.createTask fixLoginRequest)), atCommit "1f3a"),
    (.op (hostAt "1f3a") (.request (.restartTask fixLogin)), atCommit "1f3a"),
    (.op (hostAt "1f3a") (.request (.hibernateTask fixLogin)), atCommit "1f3a")]

theorem shows_hibernated : ∀ x ∈ hibernated, x.1.shows x.2 := by
  intro x hx
  simp only [hibernated, List.mem_cons, List.not_mem_nil, or_false] at hx
  rcases hx with rfl | rfl | rfl <;> exact shows_atCommit "1f3a"

/-- The world with the hibernated task, and what its checkpoint was written of. -/
def frozen : World × Captures :=
  Run.run (capturing serdeJson)
    (boot (hostAt "1f3a") smallHost "/memmux" (freshDisk ["/repo"]), .none) hibernated

/-- The task can be resumed, wherever its repository is by then. -/
theorem frozen_resumes (sha : String) : Resumes serdeJson (hostAt sha) fixLogin frozen.1 := by
  have hstate : (frozen.1.mem.tasks.lookup fixLogin).map (·.state) = some .hibernated := by
    decide +kernel
  obtain ⟨task, ht, hs⟩ := Option.map_eq_some_iff.mp hstate
  have hfresh : newTaskId ((hostAt "1f3a").now 0)
      ((boot (hostAt "1f3a") smallHost "/memmux" (freshDisk ["/repo"])).mem.seq + 1)
        ∉ (boot (hostAt "1f3a") smallHost "/memmux" (freshDisk ["/repo"])).mem.tasks := by
    decide +kernel
  have hstart : Matches (.rest, boot (hostAt "1f3a") smallHost "/memmux" (freshDisk ["/repo"])) :=
    boot_matches _ _ _ _ fun _ _ => rfl
  have hcommit : Run.Allowed (next serdeJson) Committing
      (boot (hostAt "1f3a") smallHost "/memmux" (freshDisk ["/repo"])) (hibernated.map Prod.fst) :=
    ⟨⟨fun _ => rfl, fun _ hid => Option.some.inj hid ▸ hfresh⟩, ⟨fun _ => rfl, nofun⟩,
      ⟨fun _ => rfl, nofun⟩, trivial⟩
  obtain ⟨-, -, hr⟩ := Run.invariant (@resumable_next serdeJson)
    ⟨live_boot _ _ _ _, hstart, fresh_resumable (hostAt "1f3a") smallHost "/memmux" ["/repo"]⟩
    hcommit
  exact resumes_of_loads ht hs (hr.mem fixLogin task ht hs) (fun _ => rfl) fun _ => rfl

theorem resume_lands_unchanged : Lands serdeJson (hostAt "1f3a") (atCommit "1f3a") fixLogin
    frozen.1 := by
  refine (resume_lands_iff (hostAt "1f3a") smallHost "/memmux" ["/repo"] hibernated
    shows_hibernated (hostAt "1f3a") (atCommit "1f3a") fixLogin (frozen_resumes "1f3a")).mpr ?_
  intro task _
  show frozen.2.kept _ = some (GitView.code ⟨some "1f3a", some ""⟩)
  decide +kernel

/-- **A commit is made in the repository while the task is hibernated**: the resume succeeds, in a
directory that is at another commit than the checkpoint. -/
theorem resume_lands_elsewhere : Resumes serdeJson (hostAt "9c2e") fixLogin frozen.1 ∧
    ¬ Lands serdeJson (hostAt "9c2e") (atCommit "9c2e") fixLogin frozen.1 := by
  have hok := frozen_resumes "9c2e"
  obtain ⟨task, -, -, ht, -⟩ := resume_ok hok
  refine ⟨hok, fun hlands => ?_⟩
  have hkeep := keeping_run (hostAt "1f3a") smallHost "/memmux" ["/repo"] shows_hibernated
  have hsame := (hkeep.lands_iff hok).mp hlands task ht
  have hkept : frozen.2.kept (checkpointPath frozen.1.mem.root fixLogin)
      = some (GitView.code ⟨some "1f3a", some ""⟩) := by
    decide +kernel
  have hcode : GitView.code ⟨some "1f3a", some ""⟩ = GitView.code ⟨some "9c2e", some ""⟩ :=
    Option.some.inj (hkept.symm.trans hsame)
  exact absurd (congrArg Code.head hcode) (by decide +kernel)

end MemMux
