/-
MemMux/Launch.lean

Worktrees, launches and checkpoints as the daemon performs them (`memmuxd/src/daemon.rs`,
`memmux-worktree/src/worktree.rs`).

`ensureWorktree` chooses the directory a queued task is launched in, `cleanupWorktree` takes a
worktree down, `launchQueued` drives a queued task to `Active`, and the checkpoint functions write
an artifact and its reference and read them back.
-/
import MemMux.World

namespace MemMux

variable (codec : CheckpointCodec) (h : Host)

/-! ### Creating a worktree -/

/-- The handle of the worktree a task would get, cut from `baseCommit`. -/
def handleFor (root : Path) (id : String) (task : Task) (baseCommit : String) :
    WorktreeHandle :=
  let slug := TaskSlug.generate task.spec.title id
  { taskId := task.spec.id
    repoId := task.spec.repository
    repoPath := task.spec.repositoryPath
    branch := slug.branchName
    path := worktreePath root task.spec.repository slug.slug
    baseCommit := baseCommit }

/-- `WorktreeManager::create`: validate the repository, resolve the base commit, take the
repository mutation lock, and add branch and worktree in one git operation.  The error is the
text of the failure. -/
def createWorktree (id : String) (task : Task) (w : World) : World × Except String WorktreeHandle :=
  let repo := task.spec.repositoryPath
  if repo ∉ w.disk.git.repos then
    (w, .error (repo ++ " is not a git repository"))
  else
    match h.git w.calls repo ["rev-parse", "--verify", task.spec.baseBranch ++ "^{commit}"] with
    | none => (w.ask, .error ("base branch '" ++ task.spec.baseBranch ++ "' not found"))
    | some baseCommit =>
        let handle := handleFor w.mem.root id task baseCommit
        let w := w.ask
        if !h.lock w.calls then
          (w.ask, .error ("timed out acquiring repo lock " ++ lockPath w.mem.root handle.repoId))
        else if !h.makeDir w.calls then (w.ask, .error (h.failure w.calls))
        else if w.disk.git.addable repo handle.branch handle.path then
          ((w.ask).note (.worktreeAdd repo handle.branch handle.path), .ok handle)
        else (w.ask, .error (h.failure w.calls))

/-- Ensure the task has an isolated git worktree and return the directory to launch in: an existing
worktree is reused, a missing one is created, and the repository path is the fallback. -/
def ensureWorktree (id : String) (task : Task) (w : World) : World × Path :=
  match w.mem.worktrees.lookup id with
  | some handle => (w, handle.path)
  | none =>
      match createWorktree h id task w with
      | (w, .ok handle) =>
          let w := audit h (some id) "worktree_created"
            ("isolated worktree at " ++ handle.path ++ " on " ++ handle.branch) none w
          let w := event h (some id) "worktree" "worktree_created" "info" w
          ({ w with
              mem := { w.mem with worktrees := w.mem.worktrees.insert id handle } }, handle.path)
      | (w, .error e) =>
          (audit h (some id) "worktree_skipped"
            ("no isolated worktree (" ++ e ++ "); launching in the repository path") none w,
            task.spec.repositoryPath)

/-! ### Taking a worktree down -/

/-- `git status --porcelain` in a worktree, logged with its answer. -/
def statusOf (w : World) (path : Path) : Option String :=
  h.git w.calls path ["status", "--porcelain"]

def askStatus (path : Path) (w : World) : World :=
  { w with
      durable := w.durable.write (.gitStatus path (statusOf h w path))
      calls := w.calls + 1 }

/-- The uncommitted state of a worktree, or nothing when a git query fails. -/
def dirtyManifest (handle : WorktreeHandle) (w : World) : World × Option DirtyManifest :=
  match statusOf h w handle.path with
  | none => (askStatus h handle.path w, none)
  | some status =>
      let w := askStatus h handle.path w
      (w.ask, (h.git w.calls handle.path ["diff", "HEAD"]).map (DirtyManifest.of status))

/-- Remove the worktree, refusing a dirty tree (`remove_worktree(handle, false)`).  git itself may
refuse the removal. -/
def removeWorktree (handle : WorktreeHandle) (w : World) : World :=
  match statusOf h w handle.path with
  | none => askStatus h handle.path w
  | some status =>
      let w := askStatus h handle.path w
      if trim status ≠ "" then w
      else if (h.git w.calls handle.repoPath ["worktree", "remove", handle.path]).isSome then
        (w.ask).note (.worktreeRemove handle.path)
      else w.ask

/-- The outcome of `cleanup_worktree` for a worktree the daemon holds. -/
def discardWorktree (id : String) (handle : WorktreeHandle) (w : World) : World :=
  match dirtyManifest h handle w with
  | (w, manifest) =>
      match manifest.filter (·.dirty) with
      | some m =>
          let w := audit h (some id) "worktree_retained"
            ("worktree " ++ handle.path ++ " has uncommitted changes (patch " ++ m.patchHash
              ++ "); retained, not deleted") none w
          event h (some id) "worktree" "worktree_retained" "warn" w
      | none =>
          let w := removeWorktree h handle w
          audit h (some id) "worktree_removed" ("removed clean worktree " ++ handle.path) none w

/-- Tear down a task's worktree with dirty-state protection.  No-op if the task has none. -/
def cleanupWorktree (id : String) (w : World) : World :=
  match w.mem.worktrees.lookup id with
  | none => w
  | some handle =>
      discardWorktree h id handle
        { w with mem := { w.mem with worktrees := w.mem.worktrees.erase id } }

/-! ### Launching -/

/-- A launch is attempted: the process starts in `cwd`, or the attempt fails. -/
def attemptSpawn (id : String) (cwd : Option Path) (w : World) : World :=
  { w with
      durable := w.durable.write (.spawn id cwd (h.spawn w.calls).isSome)
      calls := w.calls + 1 }

/-- `RuntimeInstance::spawn_pty`: launch a process in a PTY. -/
def spawnPty (id : String) (provider : Provider) (pty : PtySpec) (w : World) :
    World × Except String RuntimeInstance :=
  (attemptSpawn h id pty.cwd w,
    match h.spawn w.calls with
    | some pid => .ok ⟨provider, pid, pty.cwd⟩
    | none => .error (h.failure w.calls))

/-- `Queued → Admitting → Starting`, just before a provider is launched. -/
def beginLaunch (id : String) (now : UInt64) (w : World) : World :=
  advance h id .starting "launching provider" now
    (advance h id .admitting "admitted: fits budget" now w)

/-- The part of `launch_queued` after a successful launch. -/
def launched (id : String) (cls : ResourceClass) (rt : RuntimeInstance) (now : UInt64)
    (w : World) : World :=
  let w := advance h id .active "provider running" now w
  let w := saveTask h id w
  let w := installRuntime h id rt w
  let w := reserve id cls w
  let w := { w with mem := { w.mem with queuedReasons := w.mem.queuedReasons.erase id } }
  let w := event h (some id) "lifecycle" "started" "info" w
  audit h (some id) "started" "provider launched in a PTY" none w

/-- The part of `launch_queued` after a failed launch. -/
def launchFailed (id : String) (e : String) (now : UInt64) (w : World) : World :=
  let w := advance h id .failed "launch failed" now w
  let w := saveTask h id w
  audit h (some id) "failed" ("provider launch failed: " ++ e) none w

/-- The view of task `id`, if it is registered. -/
def viewOf (id : String) (w : World) : Response :=
  match w.mem.tasks.lookup id with
  | some t => .task (view t)
  | none => .error ("no such task: " ++ id)

/-- Admit and launch a task that is already `Queued`: cut its worktree, drive it
`Queued → Admitting → Starting → Active`, and install the running provider. -/
def launchQueued (id : String) (snapshot : Task) (now : UInt64) (w : World) : World × Response :=
  match ensureWorktree h id snapshot w with
  | (w, cwd) =>
      let spec := { launchSpecFor h.getEnv snapshot with cwd := some cwd }
      let w := beginLaunch h id now w
      match spawnPty h id snapshot.spec.provider (snapshot.spec.provider.command spec) w with
      | (w, .ok rt) =>
          let w := launched h id snapshot.spec.resourceClass rt now w
          (w, viewOf id w)
      | (w, .error e) => (launchFailed h id e now w, .error ("launch failed: " ++ e))

/-! ### Checkpoints -/

/-- The directory a checkpoint of the task is captured from: its worktree, else its repository. -/
def captureDir (id : String) (task : Task) (m : DaemonState) : Path :=
  match m.worktrees.lookup id with
  | some handle => handle.path
  | none => task.spec.repositoryPath

/-- `HEAD` commit sha of a git repository, empty when it has none. -/
def gitHead (repo : Path) (w : World) : String :=
  ((h.git w.calls repo ["rev-parse", "HEAD"]).map trim).getD ""

/-- Hash of the working-tree patch (`git diff HEAD`). -/
def gitPatchHash (repo : Path) (w : World) : String :=
  contentHash (utf8 ((h.git w.calls repo ["diff", "HEAD"]).getD ""))

/-- The digest of an empty patch marks a clean tree. -/
def isDirtyPatch (patchHash : String) : Bool := patchHash != contentHash []

/-- Capture a checkpoint of a live task: repository state, transcript cursor, RSS baseline and the
provider's declared secret references. -/
def captureCheckpoint (id : String) (task : Task) (now : UInt64) (w : World) :
    World × Checkpoint :=
  let dir := captureDir id task w.mem
  let w := w.note (.capture id dir)
  let head := gitHead h dir w
  let w := w.ask
  let patchHash := gitPatchHash h dir w
  let w := w.ask
  (w.ask, Checkpoint.new codec
    { taskId := id
      gitHead := head
      gitPatchHash := patchHash
      transcriptCursor := (w.mem.histories.lookup id).getD 0
      providerSessionRef := none
      resourceBaselineBytes := runtimeRss h id w
      secretRefs := task.spec.provider.secretRefs
      createdAtMs := now })

/-- The reference row of a checkpoint. -/
def refOf (root : Path) (cp : Checkpoint) : CheckpointRef :=
  ⟨cp.taskId, cp.createdAtMs, checkpointPath root cp.taskId, cp.integrity⟩

/-- Persist a checkpoint as a disk artifact plus a reference in the store; the error is the text of
the failure. -/
def persistCheckpoint (cp : Checkpoint) (w : World) : World × Except String Unit :=
  if !h.makeDir w.calls then (w.ask, .error (h.failure w.calls))
  else
    let w := w.ask
    if !h.writeFile w.calls then
      ((w.ask).note (.tornArtifact (checkpointPath w.mem.root cp.taskId)),
        .error (h.failure w.calls))
    else
      let w := (w.ask).note (.writeArtifact (checkpointPath w.mem.root cp.taskId) (codec.encode cp))
      (exec h (.saveCheckpointRef (refOf w.mem.root cp)) w,
        if executes h (.saveCheckpointRef (refOf w.mem.root cp)) w then .ok ()
        else .error (h.failure w.calls))

/-- Load and integrity-check a task's checkpoint before a resume. -/
def loadCheckpoint (id : String) (d : Disk) : Except String Checkpoint :=
  match d.tables.loadCheckpointRef id with
  | none => .error ("no checkpoint recorded for " ++ id)
  | some cref =>
      match (d.files.lookup cref.artifactPath).bind codec.decode with
      | none => .error "checkpoint artifact unreadable"
      | some cp =>
          if !cp.verify codec || cp.integrity != cref.integrity then
            .error ("checkpoint integrity check failed for " ++ id)
          else .ok cp

/-! ### What they leave alone -/

section Frame

variable (w : World)

@[simp] theorem createWorktree_mem (id : String) (task : Task) :
    (createWorktree h id task w).1.mem = w.mem := by
  unfold createWorktree
  dsimp only
  split
  · rfl
  · split
    · rfl
    · split_ifs <;> rfl

/-- Choosing a directory changes the worktree map only. -/
theorem ensureWorktree_mem (id : String) (task : Task) :
    ∃ wt, (ensureWorktree h id task w).1.mem = { w.mem with worktrees := wt } := by
  unfold ensureWorktree
  cases w.mem.worktrees.lookup id with
  | some handle => exact ⟨w.mem.worktrees, rfl⟩
  | none =>
      have hmem := createWorktree_mem h w id task
      rcases hc : createWorktree h id task w with ⟨w', handle | handle⟩
      · rw [hc] at hmem
        exact ⟨w.mem.worktrees, by dsimp only; rw [audit_mem, hmem]⟩
      · rw [hc] at hmem
        refine ⟨w'.mem.worktrees.insert id handle, ?_⟩
        dsimp only
        rw [event_mem, audit_mem, hmem]

@[simp] theorem askStatus_mem (path : Path) : (askStatus h path w).mem = w.mem := rfl

@[simp] theorem dirtyManifest_mem (handle : WorktreeHandle) :
    (dirtyManifest h handle w).1.mem = w.mem := by
  unfold dirtyManifest
  cases statusOf h w handle.path <;> rfl

@[simp] theorem removeWorktree_mem (handle : WorktreeHandle) :
    (removeWorktree h handle w).mem = w.mem := by
  unfold removeWorktree
  cases statusOf h w handle.path with
  | none => rfl
  | some status =>
      dsimp only
      split_ifs <;> rfl

@[simp] theorem discardWorktree_mem (id : String) (handle : WorktreeHandle) :
    (discardWorktree h id handle w).mem = w.mem := by
  have hmem := dirtyManifest_mem h w handle
  unfold discardWorktree
  rcases hd : dirtyManifest h handle w with ⟨w', manifest⟩
  rw [hd] at hmem
  dsimp only at hmem ⊢
  cases manifest.filter (·.dirty) with
  | none => exact (removeWorktree_mem h w' handle).trans hmem
  | some m => exact hmem

/-- Taking a worktree down changes the worktree map only. -/
@[simp] theorem cleanupWorktree_mem (id : String) :
    (cleanupWorktree h id w).mem = { w.mem with worktrees := w.mem.worktrees.erase id } := by
  unfold cleanupWorktree
  cases hw : w.mem.worktrees.lookup id with
  | none =>
      rw [KeyMap.erase_of_not_mem (KeyMap.not_mem_iff_lookup.mpr hw)]
  | some handle => exact discardWorktree_mem h _ id handle

@[simp] theorem attemptSpawn_mem (id : String) (cwd : Option Path) :
    (attemptSpawn h id cwd w).mem = w.mem := rfl

@[simp] theorem spawnPty_mem (id : String) (provider : Provider) (pty : PtySpec) :
    (spawnPty h id provider pty w).1.mem = w.mem := rfl

@[simp] theorem captureCheckpoint_mem (id : String) (task : Task) (now : UInt64) :
    (captureCheckpoint codec h id task now w).1.mem = w.mem := rfl

@[simp] theorem persistCheckpoint_mem (cp : Checkpoint) :
    (persistCheckpoint codec h cp w).1.mem = w.mem := by
  unfold persistCheckpoint
  dsimp only
  split_ifs <;> rfl

/-- **The two outcomes of a launch.**  A directory is chosen, the task is driven to `Starting`, and
the launch in that directory succeeds or fails. -/
theorem launchQueued_cases (id : String) (snapshot : Task) (now : UInt64) :
    ∃ w₁ cwd, ensureWorktree h id snapshot w = (w₁, cwd) ∧
      ((∃ pid, h.spawn (beginLaunch h id now w₁).calls = some pid ∧
          (launchQueued h id snapshot now w).1
            = launched h id snapshot.spec.resourceClass ⟨snapshot.spec.provider, pid, some cwd⟩
                now (attemptSpawn h id (some cwd) (beginLaunch h id now w₁))) ∨
        (h.spawn (beginLaunch h id now w₁).calls = none ∧
          (launchQueued h id snapshot now w).1
            = launchFailed h id (h.failure (beginLaunch h id now w₁).calls) now
                (attemptSpawn h id (some cwd) (beginLaunch h id now w₁)))) := by
  rcases he : ensureWorktree h id snapshot w with ⟨w₁, cwd⟩
  refine ⟨w₁, cwd, rfl, ?_⟩
  have hcwd := Provider.command_cwd snapshot.spec.provider
    { launchSpecFor h.getEnv snapshot with cwd := some cwd }
  unfold launchQueued
  rw [he]
  dsimp only [spawnPty]
  rw [hcwd]
  cases h.spawn (beginLaunch h id now w₁).calls with
  | none => exact Or.inr ⟨rfl, rfl⟩
  | some pid => exact Or.inl ⟨pid, rfl, rfl⟩

end Frame

end MemMux
