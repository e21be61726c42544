/-
MemMux/RepoIds.lean

The ids of repositories: what a task is filed under and what a workspace is registered under
(`create_task`, `add_workspace` and `repo_id_for` in `memmuxd/src/daemon.rs`).

An id is the hash of a path.  `add_workspace` hashes the path git prints for the root of the
repository, so every path into one repository registers one workspace
(`addWorkspace_sameRepository`).  `create_task` hashes the path of the request as it is spelled.
The two agree when the request spells the root as git does, and otherwise only if two
different paths have one hash (`filedUnderWorkspace_iff`).

Of git it is assumed that the root it prints for a path is a function of the repository the path is
in, and that the root is in that repository (`Checkouts`).
-/
import MemMux.Daemon
import MemMux.MutationLock
import MemMux.TaskIds
import MemMux.Tui

namespace MemMux

variable {h h' : Host}

/-! ### The root of a repository -/

/-- Which repository a path is in, and the path git prints for the root of a repository. -/
structure Checkouts (R : Type) where
  repositoryOf : Path → Option R
  root : R → Path
  repositoryOf_root (r : R) : repositoryOf (root r) = some r

namespace Checkouts

variable {R : Type} (g : Checkouts R)

/-- The root of the repository a path is in. -/
def toplevel (p : Path) : Option Path := (g.repositoryOf p).map g.root

/-- Paths into one repository have one root. -/
theorem toplevel_congr {p q : Path} (hpq : g.repositoryOf p = g.repositoryOf q) :
    g.toplevel p = g.toplevel q := congrArg (Option.map g.root) hpq

/-- A root is its own root. -/
theorem toplevel_idem {p t : Path} (ht : g.toplevel p = some t) : g.toplevel t = some t := by
  obtain ⟨r, -, rfl⟩ := Option.map_eq_some_iff.mp ht
  exact congrArg (Option.map g.root) (g.repositoryOf_root r)

/-- `git rev-parse --show-toplevel`, when it succeeds, prints the root. -/
def AnsweredBy (h : Host) : Prop :=
  ∀ n p out, h.git n p ["rev-parse", "--show-toplevel"] = some out → g.toplevel p = some out

end Checkouts

/-! ### Ids -/

theorem hex_injective : Function.Injective hex := fun m n heq => by
  rw [← readHex_hex m, heq, readHex_hex n]

/-- **Two paths have one id exactly when they have one hash.** -/
theorem repoIdFor_inj {p q : Path} :
    repoIdFor p = repoIdFor q ↔ fnv1a (utf8 p) = fnv1a (utf8 q) := by
  constructor
  · intro heq
    have hlists := congrArg String.toList heq
    unfold repoIdFor at hlists
    rw [String.toList_append, String.toList_append] at hlists
    have hhash := String.toList_inj.mp (List.append_cancel_left hlists)
    exact UInt64.toNat_inj.mp (hex_injective hhash)
  · intro heq
    unfold repoIdFor shortHash
    rw [heq]

/-- Two paths that the hash of `repo_id_for` does not tell apart. -/
def Collide (p q : Path) : Prop := p ≠ q ∧ fnv1a (utf8 p) = fnv1a (utf8 q)

instance (p q : Path) : Decidable (Collide p q) := inferInstanceAs (Decidable (_ ∧ _))

theorem repoIdFor_eq_iff {p q : Path} : repoIdFor p = repoIdFor q ↔ p = q ∨ Collide p q := by
  rw [repoIdFor_inj]
  constructor
  · intro heq
    by_cases hpq : p = q
    · exact .inl hpq
    · exact .inr ⟨hpq, heq⟩
  · rintro (rfl | ⟨-, heq⟩)
    · rfl
    · exact heq

/-- A new task is filed under the path of its request as it is spelled. -/
theorem createTask_repository {req : CreateTaskRequest} {w : World} {v : TaskView}
    (hv : (createTask h req w).2 = .task v) : v.repository = repoIdFor req.repositoryPath := by
  unfold createTask at hv
  split at hv
  · cases hv
  · dsimp only at hv
    split at hv
    · cases hv
      rfl
    · cases hv

/-- A workspace is registered under the path git printed. -/
theorem addWorkspace_id {p : Path} {w : World} {ws : WorkspaceView}
    (hws : (addWorkspace h p w).2 = .workspace ws) :
    ∃ t, gitToplevel h p w = some t ∧ ws.path = t ∧ ws.id = repoIdFor t := by
  unfold addWorkspace at hws
  split at hws
  · cases hws
  · next t ht =>
    dsimp only at hws
    split_ifs at hws
    cases hws
    exact ⟨t, ht, rfl, rfl⟩

/-- A task created with the path of a workspace is filed under it. -/
theorem createTask_workspacePath {req : CreateTaskRequest} {p : Path} {w w' : World} {v : TaskView}
    {ws : WorkspaceView} (hv : (createTask h req w).2 = .task v)
    (hws : (addWorkspace h' p w').2 = .workspace ws) (hpath : req.repositoryPath = ws.path) :
    v.repository = ws.id := by
  obtain ⟨t, -, ht, hid⟩ := addWorkspace_id hws
  rw [createTask_repository hv, hpath, ht, hid]

section Registered

variable {R : Type} {g : Checkouts R} {p q t : Path} {w w' : World} {ws ws' : WorkspaceView}

/-- The path registered for a path into a repository is its root, trimmed. -/
theorem addWorkspace_toplevel (hg : g.AnsweredBy h) (ht : g.toplevel p = some t)
    (hws : (addWorkspace h p w).2 = .workspace ws) :
    ws.path = trim t ∧ ws.id = repoIdFor (trim t) := by
  obtain ⟨t', ht', hpath, hid⟩ := addWorkspace_id hws
  unfold gitToplevel at ht'
  obtain ⟨out, hout, htrim⟩ := Option.map_eq_some_iff.mp (Option.filter_eq_some_iff.mp ht').1
  rw [hg _ _ _ hout] at ht
  cases ht
  subst htrim
  exact ⟨hpath, hid⟩

/-- **Every path into one repository registers one workspace.** -/
theorem addWorkspace_sameRepository (hg : g.AnsweredBy h) (hg' : g.AnsweredBy h')
    (ht : g.toplevel p = some t) (hpq : g.repositoryOf p = g.repositoryOf q)
    (hws : (addWorkspace h p w).2 = .workspace ws)
    (hws' : (addWorkspace h' q w').2 = .workspace ws') : ws.id = ws'.id ∧ ws.path = ws'.path := by
  obtain ⟨hpath, hid⟩ := addWorkspace_toplevel hg ht hws
  obtain ⟨hpath', hid'⟩ := addWorkspace_toplevel hg' (g.toplevel_congr hpq ▸ ht) hws'
  exact ⟨hid.trans hid'.symm, hpath.trans hpath'.symm⟩

/-- Registering the root again registers the same workspace. -/
theorem addWorkspace_again (hg : g.AnsweredBy h) (hg' : g.AnsweredBy h')
    (ht : g.toplevel p = some t) (hws : (addWorkspace h p w).2 = .workspace ws)
    (hws' : (addWorkspace h' t w').2 = .workspace ws') : ws.id = ws'.id := by
  rw [(addWorkspace_toplevel hg ht hws).2, (addWorkspace_toplevel hg' (g.toplevel_idem ht) hws').2]

end Registered

/-! ### What compares the ids -/

/-- The tasks the count of a workspace is over. -/
def tasksUnder (m : DaemonState) (repo : String) : List Task :=
  (KeyMap.values m.tasks).filter fun t => t.spec.repository = repo

theorem taskCount_workspaceView (m : DaemonState) (ws : Workspace) :
    (workspaceView m ws).taskCount = (tasksUnder m ws.id).length := rfl

/-- A task and a workspace are of one repository, for each of the parties that compare their ids:
the count of the workspace, the grouping of agents, and the repository lock. -/
structure OneRepository (v : TaskView) (ws : WorkspaceView) : Prop where
  sameId : v.repository = ws.id
  counted : ∀ (m : DaemonState) (t : Task), t ∈ KeyMap.values m.tasks →
    t.spec.repository = v.repository → t ∈ tasksUnder m ws.id
  grouped : ∀ (m : Tui.Model) (u : TaskView), ws ∈ m.data.workspaces →
    m.data.tasks.find? (·.id = v.id) = some u → u.repository = v.repository → m.wsKey v.id = ws.id
  locked : ∀ locksDir, RepoMutationLock.new locksDir v.repository = .new locksDir ws.id

/-- They all follow the ids. -/
theorem oneRepository_iff {v : TaskView} {ws : WorkspaceView} :
    OneRepository v ws ↔ v.repository = ws.id := by
  refine ⟨OneRepository.sameId, fun hid => ⟨hid, ?_, ?_, ?_⟩⟩
  · intro m t ht hrepo
    exact List.mem_filter.mpr ⟨ht, decide_eq_true (hrepo.trans hid)⟩
  · intro m u hmem hu hrepo
    have hreg : m.registered u.repository = true :=
      List.any_eq_true.mpr ⟨ws, hmem, decide_eq_true (hrepo.trans hid).symm⟩
    unfold Tui.Model.wsKey
    rw [hu]
    dsimp only
    rw [if_pos hreg, hrepo, hid]
  · intro locksDir
    rw [hid]

/-- **A task is filed under the workspace of its path exactly when the request spells the root of
the repository as git prints it**, collisions of the hash apart. -/
theorem filedUnderWorkspace_iff {R : Type} {g : Checkouts R} {r : R} {req : CreateTaskRequest}
    {w w' : World} {v : TaskView} {ws : WorkspaceView} (hg : g.AnsweredBy h')
    (hp : g.repositoryOf req.repositoryPath = some r) (hv : (createTask h req w).2 = .task v)
    (hws : (addWorkspace h' req.repositoryPath w').2 = .workspace ws) :
    OneRepository v ws ↔
      req.repositoryPath = trim (g.root r) ∨ Collide req.repositoryPath (trim (g.root r)) := by
  have ht : g.toplevel req.repositoryPath = some (g.root r) := congrArg (Option.map g.root) hp
  rw [oneRepository_iff, createTask_repository hv, (addWorkspace_toplevel hg ht hws).2]
  exact repoIdFor_eq_iff

/-! ### A subdirectory -/

/-- One repository, at `/repo`. -/
def repoCheckout : Checkouts Unit where
  repositoryOf p := if p ∈ ["/repo", "/repo/", "/repo/crates"] then some () else none
  root _ := "/repo"
  repositoryOf_root _ := rfl

/-- A steady host with that repository. -/
def repoHost : Host :=
  { steadyHost with
      git := fun _ p args =>
        if args = ["rev-parse", "--show-toplevel"] then repoCheckout.toplevel p else some "" }

theorem repoHost_answers : repoCheckout.AnsweredBy repoHost := fun _ _ _ hout => hout

/-- The daemon on an empty disk. -/
def repoWorld : World := boot repoHost smallHost "/memmux" (freshDisk ["/repo"])

/-- A task is created with the path, on an empty registry. -/
def createUnder (p : Path) : World × Response :=
  createTask repoHost { fixLoginRequest with repositoryPath := p } (repoWorld.begin repoHost)

/-- The path is then registered as a workspace. -/
def addAfter (p : Path) : World × Response :=
  addWorkspace repoHost p ((createUnder p).1.begin repoHost)

/-- For the root itself the hypotheses hold, and the task is filed under the workspace. -/
theorem filedUnderWorkspace_root :
    ∃ v ws, (createUnder "/repo").2 = .task v ∧ (addAfter "/repo").2 = .workspace ws ∧
      OneRepository v ws := by
  obtain ⟨v, hv⟩ : ∃ v, (createUnder "/repo").2 = .task v := ⟨_, rfl⟩
  obtain ⟨ws, hws⟩ : ∃ ws, (addAfter "/repo").2 = .workspace ws := ⟨_, rfl⟩
  have hroot : "/repo" = trim (repoCheckout.root ()) := by decide
  exact ⟨v, ws, hv, hws, (filedUnderWorkspace_iff repoHost_answers rfl hv hws).mpr (.inl hroot)⟩

/-- **A task created in a subdirectory is filed under no workspace.**  The registration of the same
path answers with the workspace of the root, which counts no task. -/
theorem subdirectory_filed_apart :
    ∃ v ws, repoCheckout.repositoryOf "/repo/crates" = some () ∧
      (createUnder "/repo/crates").2 = .task v ∧ (addAfter "/repo/crates").2 = .workspace ws ∧
      ¬ OneRepository v ws ∧ ws.taskCount = 0 := by
  refine ⟨_, _, rfl, rfl, rfl, ?_, ?_⟩
  · rw [oneRepository_iff]
    decide
  · decide

end MemMux
