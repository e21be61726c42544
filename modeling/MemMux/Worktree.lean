/-
MemMux/Worktree.lean

Task slugs, the managed directory layout and the git state worktrees live in
(`memmux-worktree/src/slug.rs`, `layout.rs`, `worktree.rs`).

`GitDisk` is what `git worktree` keeps on disk: which paths are git repositories, which
branches exist and which worktree directories are present.  Of git itself only this is assumed:
`worktree add -b` succeeds for a fresh branch and a fresh path and fails otherwise, and
removing a worktree leaves its branch.  Read-only queries (`status`, `diff`, `rev-parse`)
are answered by the environment.
-/
import MemMux.Task

namespace MemMux

/-! ### Slugs -/

/-- Lowercase, replace non-`[a-z0-9]` with `-`, collapse and trim dashes. -/
def slugify (input : String) : List Char :=
  let rec go : List Char → Bool → List Char
    | [], _ => []
    | ch :: rest, prevDash =>
        let c := ch.toLower
        if c.isAlphanum then c :: go rest false
        else if prevDash then go rest true
        else '-' :: go rest true
  trimChars (· == '-') (go input.toList false)

/-- Cut a slug, which is ASCII, after `max` bytes. -/
def truncateOnBoundary (s : List Char) (max : Nat) : List Char :=
  if s.length ≤ max then s else trimChars (· == '-') (s.take max)

/-- The base-36 digits of a `u64`, which has at most 13 of them. -/
def base36 (n : Nat) : List Char :=
  let digit (d : Nat) : Char :=
    if d < 10 then Char.ofNat ('0'.toNat + d) else Char.ofNat ('a'.toNat + (d - 10))
  let rec go : Nat → Nat → List Char → List Char
    | 0, _, acc => acc
    | _ + 1, 0, acc => acc
    | fuel + 1, m, acc => go fuel (m / 36) (digit (m % 36) :: acc)
  if n = 0 then ['0'] else go 13 n []

/-- FNV-1a 64-bit hash rendered as 7 base-36 characters (`slug.rs`). -/
def slugHash (s : String) : List Char :=
  let b36 := base36 (fnv1a (utf8 s)).toNat
  let padded := List.replicate (7 - b36.length) '0' ++ b36
  padded.drop (padded.length - 7)

/-- A validated task slug. -/
structure TaskSlug where
  slug : String
  deriving DecidableEq, Repr

namespace TaskSlug

/-- Generate a slug from a free-text `intent` and a `uniqueness` seed. -/
def generate (intent uniqueness : String) : TaskSlug :=
  let s := slugify intent
  let base := if s = [] then "task".toList else truncateOnBoundary s 24
  let suffix := slugHash (intent ++ "\x00" ++ uniqueness)
  ⟨String.ofList (base ++ '-' :: suffix)⟩

/-- The git branch name for this slug: `memmux/<slug>`. -/
def branchName (s : TaskSlug) : String := "memmux/" ++ s.slug

end TaskSlug

/-- `format!("{h:x}")` of the FNV-1a hash (`daemon.rs`). -/
def shortHash (s : String) : String := hex (fnv1a (utf8 s)).toNat

/-- The stable repository/workspace id for a path. -/
def repoIdFor (path : Path) : String := "repo_" ++ shortHash path

/-! ### The managed layout -/

/-- Directory holding all worktrees for a repository. -/
def worktreesDir (root : Path) (repo : String) : Path := (root.join "worktrees").join repo

/-- The worktree path for a given task slug. -/
def worktreePath (root : Path) (repo slug : String) : Path := (worktreesDir root repo).join slug

/-- The lock file of a repository. -/
def lockPath (root : Path) (repo : String) : Path := (root.join "locks").join (repo ++ ".lock")

/-- The directory of a task's artifacts. -/
def taskDir (root : Path) (id : String) : Path := (root.join "tasks").join id

/-- The checkpoint artifact of a task. -/
def checkpointPath (root : Path) (id : String) : Path := (taskDir root id).join "checkpoint.json"

/-- Different tasks keep their checkpoints in different files. -/
theorem checkpointPath_injective (root : Path) : Function.Injective (checkpointPath root) :=
  (Path.join_left_injective _).comp (Path.join_right_injective _)

/-! ### Worktrees -/

/-- A created worktree bound to a task. -/
structure WorktreeHandle where
  taskId : String
  repoId : String
  repoPath : Path
  branch : String
  path : Path
  baseCommit : String
  deriving DecidableEq, Repr

/-- A snapshot of a worktree's uncommitted state. -/
structure DirtyManifest where
  dirty : Bool
  changedPaths : List String
  patch : String
  patchHash : String
  deriving DecidableEq, Repr

/-- The manifest of a worktree whose `status --porcelain` and `diff HEAD` printed these. -/
def DirtyManifest.of (status patch : String) : DirtyManifest :=
  let changedPaths := (linesOf status).filterMap fun l => (dropBytes 3 l).map String.ofList
  { dirty := !changedPaths.isEmpty
    changedPaths := changedPaths
    patch := patch
    patchHash := contentHash (utf8 patch) }

/-- The state git keeps on disk. -/
structure GitDisk where
  repos : List Path
  branches : List (Path × String)
  worktrees : List Path
  deriving DecidableEq, Repr

namespace GitDisk

/-- Whether `git worktree add -b branch path` can succeed in `repo`: the branch must be new, and
nothing may be at the path. -/
def addable (g : GitDisk) (repo : Path) (branch : String) (path : Path) : Bool :=
  decide ((repo, branch) ∉ g.branches) && decide (path ∉ g.worktrees) && decide (path ∉ g.repos)

/-- `git worktree add -b branch path commit`: both the branch and the directory appear. -/
def add (g : GitDisk) (repo : Path) (branch : String) (path : Path) : GitDisk :=
  { g with branches := (repo, branch) :: g.branches, worktrees := path :: g.worktrees }

/-- `git worktree remove path`: the directory goes, the branch stays. -/
def remove (g : GitDisk) (path : Path) : GitDisk :=
  { g with worktrees := g.worktrees.filter (· ≠ path) }

end GitDisk

end MemMux
