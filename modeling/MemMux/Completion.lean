/-
MemMux/Completion.lean

The completion flows of a finished task (`complete` in `memmux-worktree/src/worktree.rs`).

A flow is a sequence of git calls, each of which may be impossible to run, fail or succeed; the
answers are the environment's.  Of git this is assumed: a call that succeeds does what it says
(`GitCli.effect`), and one that does not leaves `HEAD` and the branches where they were.  What a
merge or a pick makes of a commit is a parameter.

A cherry-pick goes through the commits one by one and takes back nothing but the pick that failed:
when it gives up at some position, the target is checked out and has the commits before that
position (`cherryPick_failed`).  A merge that gives up has moved no branch
(`merge_failed`), and a discard that is refused or fails has removed nothing (`discard_failed`).
-/
import MemMux.Worktree
import Mathlib.Logic.Function.Basic

namespace MemMux

/-! ### Git -/

/-- The captured result of a git invocation. -/
structure GitOutput where
  success : Bool
  stdout : String
  stderr : String
  deriving DecidableEq, Repr

/-- What `HEAD` is. -/
inductive Head (C : Type)
  | branch (name : String)
  | detached (commit : C)
  deriving DecidableEq, Repr

/-- The source repository: the checked-out branch, the tips of the branches, and the linked
worktrees. -/
structure SourceRepo (C : Type) where
  head : Head C
  tip : String → Option C
  worktrees : List Path

/-- The git calls of the flows. -/
inductive GitCall
  | status
  | diffHead
  | checkout (target : String)
  | merge (branch : String)
  | mergeAbort
  | cherryPick (commit : String)
  | cherryPickAbort
  | worktreeRemoveForce (path : Path)
  | branchDelete (branch : String)
  deriving DecidableEq, Repr

/-- The environment of a flow: the answers to its git calls, in order, the exits of the check
commands, and what git makes of commits. -/
structure GitCli (C : Type) where
  answer : Nat → Except String GitOutput
  passes : List String → Bool
  merged : C → C → C
  picked : C → String → C

namespace SourceRepo

variable {C : Type}

/-- The checked-out commit is replaced, and the branch follows. -/
def advance (f : C → C) (r : SourceRepo C) : SourceRepo C :=
  match r.head with
  | .branch name => { r with tip := Function.update r.tip name ((r.tip name).map f) }
  | .detached c => { r with head := .detached (f c) }

end SourceRepo

/-- A repository in the middle of a flow, and how many calls were made. -/
structure Session (C : Type) where
  repo : SourceRepo C
  calls : Nat

/-- Why a flow gave up: `failed to run git …`, `git … failed: …`, or
`could not checkout target '…': …`. -/
inductive CompletionError
  | notRun (call : GitCall) (error : String)
  | failed (call : GitCall) (stderr : String)
  | notCheckedOut (target stderr : String)
  deriving DecidableEq, Repr

namespace GitCli

variable {C : Type} (g : GitCli C)

/-- What a call does when it succeeds. -/
def effect (call : GitCall) (r : SourceRepo C) : SourceRepo C :=
  match call with
  | .checkout target => { r with head := .branch target }
  | .merge branch =>
      match r.tip branch with
      | some theirs => r.advance (g.merged · theirs)
      | none => r
  | .cherryPick commit => r.advance (g.picked · commit)
  | .worktreeRemoveForce path => { r with worktrees := r.worktrees.filter (· ≠ path) }
  | .branchDelete branch => { r with tip := Function.update r.tip branch none }
  | .status | .diffHead | .mergeAbort | .cherryPickAbort => r

/-- Whether the `n`-th call succeeds. -/
def succeeds (n : Nat) : Bool :=
  match g.answer n with
  | .ok out => out.success
  | .error _ => false

/-- `git`: run a call and capture its output. -/
def git (call : GitCall) (s : Session C) : Session C × Except CompletionError GitOutput :=
  let repo := if g.succeeds s.calls then g.effect call s.repo else s.repo
  (⟨repo, s.calls + 1⟩, (g.answer s.calls).mapError (.notRun call))

/-- `git_ok`: an exit without success is an error. -/
def gitOk (call : GitCall) (s : Session C) : Session C × Except CompletionError String :=
  match g.git call s with
  | (s, .error e) => (s, .error e)
  | (s, .ok out) =>
      (s, if out.success then .ok out.stdout else .error (.failed call (trim out.stderr)))

end GitCli

/-! ### The flows -/

/-- The outcome the user chose for a finished task. -/
inductive Completion
  | merge (target : String)
  | cherryPick (target : String) (commits : List String)
  | retain
  | discard (confirmed : Bool)
  deriving DecidableEq, Repr

/-- The result of a completion flow. -/
inductive CompletionResult
  | merged (target : String)
  | cherryPicked
  | retained
  | discarded (preservedPatchHash : Option String)
  | checksFailed (failed : List String)
  | mergeConflict
  | refusedDirty
  deriving DecidableEq, Repr

section Flows

variable {C : Type} (g : GitCli C)

/-- Whether the worktree has uncommitted or untracked changes. -/
def isDirty (s : Session C) : Session C × Except CompletionError Bool :=
  match g.gitOk .status s with
  | (s, .error e) => (s, .error e)
  | (s, .ok status) => (s, .ok (trim status ≠ ""))

/-- The manifest of the worktree. -/
def manifestOf (s : Session C) : Session C × Except CompletionError DirtyManifest :=
  match g.gitOk .status s with
  | (s, .error e) => (s, .error e)
  | (s, .ok status) =>
      match g.gitOk .diffHead s with
      | (s, .error e) => (s, .error e)
      | (s, .ok patch) => (s, .ok (.of status patch))

/-- The check commands that fail, or nothing if all pass. -/
def runChecks (checks : List (List String)) : Option (List String) :=
  let failed := checks.filter fun check => check ≠ [] ∧ ¬ g.passes check
  if failed = [] then none else some (failed.map fun check => " ".intercalate check)

/-- The checkout of the target that merges and cherry-picks begin with. -/
def checkout (target : String) (s : Session C) : Session C × Except CompletionError Unit :=
  match g.git (.checkout target) s with
  | (s, .error e) => (s, .error e)
  | (s, .ok out) =>
      (s, if out.success then .ok () else .error (.notCheckedOut target (trim out.stderr)))

/-- The loop over the commits of a cherry-pick. -/
def pickAll : List String → Session C → Session C × Except CompletionError CompletionResult
  | [], s => (s, .ok .cherryPicked)
  | commit :: commits, s =>
      match g.git (.cherryPick commit) s with
      | (s, .error e) => (s, .error e)
      | (s, .ok out) =>
          if out.success then pickAll commits s
          else ((g.git .cherryPickAbort s).1, .ok .mergeConflict)

/-- Remove the worktree and its branch; what was uncommitted is preserved as a digest. -/
def discard (handle : WorktreeHandle) (preserved : Option String) (s : Session C) :
    Session C × Except CompletionError CompletionResult :=
  match g.gitOk (.worktreeRemoveForce handle.path) s with
  | (s, .error e) => (s, .error e)
  | (s, .ok _) => ((g.git (.branchDelete handle.branch) s).1, .ok (.discarded preserved))

/-- `complete`: run a completion flow. -/
def complete (handle : WorktreeHandle) (outcome : Completion) (checks : List (List String))
    (s : Session C) : Session C × Except CompletionError CompletionResult :=
  match outcome with
  | .retain => (s, .ok .retained)
  | .discard confirmed =>
      match isDirty g s with
      | (s, .error e) => (s, .error e)
      | (s, .ok false) => discard g handle none s
      | (s, .ok true) =>
          if confirmed then
            match manifestOf g s with
            | (s, .error e) => (s, .error e)
            | (s, .ok m) => discard g handle (some m.patchHash) s
          else (s, .ok .refusedDirty)
  | .merge target =>
      match runChecks g checks with
      | some failed => (s, .ok (.checksFailed failed))
      | none =>
          match checkout g target s with
          | (s, .error e) => (s, .error e)
          | (s, .ok ()) =>
              match g.git (.merge handle.branch) s with
              | (s, .error e) => (s, .error e)
              | (s, .ok out) =>
                  if out.success then (s, .ok (.merged target))
                  else ((g.git .mergeAbort s).1, .ok .mergeConflict)
  | .cherryPick target commits =>
      match checkout g target s with
      | (s, .error e) => (s, .error e)
      | (s, .ok ()) => pickAll g commits s

end Flows

/-! ### Calls -/

section Runs

variable {C : Type} {g : GitCli C} {call : GitCall} {s : Session C} {target : String}
  {commits : List String} {handle : WorktreeHandle} {checks : List (List String)}

/-- The three ways a call ends. -/
theorem git_cases (g : GitCli C) (call : GitCall) (s : Session C) :
    (g.succeeds s.calls = true ∧ ∃ out, out.success = true ∧
      g.git call s = (⟨g.effect call s.repo, s.calls + 1⟩, .ok out)) ∨
    (g.succeeds s.calls = false ∧ ∃ out, out.success = false ∧
      g.git call s = (⟨s.repo, s.calls + 1⟩, .ok out)) ∨
    (g.succeeds s.calls = false ∧ ∃ e, g.git call s = (⟨s.repo, s.calls + 1⟩, .error e)) := by
  unfold GitCli.git GitCli.succeeds
  cases g.answer s.calls with
  | error e => exact .inr (.inr ⟨rfl, _, rfl⟩)
  | ok out =>
      cases hout : out.success with
      | true => exact .inl ⟨hout, out, hout, by simp [hout, Except.mapError]⟩
      | false => exact .inr (.inl ⟨hout, out, hout, by simp [hout, Except.mapError]⟩)

/-- A call whose effect is nothing leaves the repository alone, whatever becomes of it. -/
theorem git_repo (hcall : g.effect call s.repo = s.repo) : (g.git call s).1.repo = s.repo := by
  unfold GitCli.git
  dsimp only
  rw [hcall, ite_self]

/-- A checkout succeeds and moves `HEAD`, or fails and changes nothing. -/
theorem checkout_cases (g : GitCli C) (target : String) (s : Session C) :
    (g.succeeds s.calls = true ∧
      checkout g target s = (⟨{ s.repo with head := .branch target }, s.calls + 1⟩, .ok ())) ∨
    (g.succeeds s.calls = false ∧
      ∃ e, checkout g target s = (⟨s.repo, s.calls + 1⟩, .error e)) := by
  unfold checkout
  rcases git_cases g (.checkout target) s with
    ⟨hs, out, hout, heq⟩ | ⟨hs, out, hout, heq⟩ | ⟨hs, e, heq⟩
  · rw [heq]
    dsimp only
    rw [hout]
    exact .inl ⟨hs, rfl⟩
  · rw [heq]
    dsimp only
    rw [hout]
    exact .inr ⟨hs, _, rfl⟩
  · rw [heq]
    exact .inr ⟨hs, e, rfl⟩

/-! ### Cherry-picks -/

/-- The repository with commits applied to the tip of a branch, in order. -/
def SourceRepo.withPicks (g : GitCli C) (target : String) (commits : List String)
    (r : SourceRepo C) : SourceRepo C :=
  { r with tip := Function.update r.tip target ((r.tip target).map (commits.foldl g.picked)) }

theorem withPicks_nil (g : GitCli C) (target : String) (r : SourceRepo C) :
    r.withPicks g target [] = r := by
  unfold SourceRepo.withPicks
  rw [show ([] : List String).foldl g.picked = id from rfl, Option.map_id, id,
    Function.update_eq_self]

/-- A pick on the target, and then the rest. -/
theorem withPicks_cons {r : SourceRepo C} (hr : r.head = .branch target) (commit : String) :
    (g.effect (.cherryPick commit) r).withPicks g target commits
      = r.withPicks g target (commit :: commits) := by
  unfold GitCli.effect SourceRepo.advance SourceRepo.withPicks
  dsimp only
  rw [hr]
  dsimp only
  rw [Function.update_self, Function.update_idem, Option.map_map]
  rfl

theorem head_cherryPick {r : SourceRepo C} (hr : r.head = .branch target) (commit : String) :
    (g.effect (.cherryPick commit) r).head = .branch target := by
  unfold GitCli.effect SourceRepo.advance
  dsimp only
  rw [hr]

/-- A flow gave up: it answers with a conflict or with an error. -/
def GaveUp (res : Except CompletionError CompletionResult) : Prop :=
  match res with
  | .ok .mergeConflict => True
  | .ok _ => False
  | .error _ => True

/-- Exactly `k` of the commits were picked onto the target, and all of them if the flow did not give
up. -/
structure PickedUpTo (g : GitCli C) (target : String) (commits : List String) (s : Session C)
    (res : Session C × Except CompletionError CompletionResult) (k : Nat) : Prop where
  le : k ≤ commits.length
  picked : ∀ j < k, g.succeeds (s.calls + j) = true
  repo : res.1.repo = s.repo.withPicks g target (commits.take k)
  gaveUp : GaveUp res.2 → k < commits.length ∧ g.succeeds (s.calls + k) = false
  finished : ¬ GaveUp res.2 → k = commits.length ∧ res.2 = .ok .cherryPicked

/-- A cherry-pick that fails at once has picked nothing. -/
theorem PickedUpTo.zero {commit : String}
    {res : Session C × Except CompletionError CompletionResult}
    (hfail : g.succeeds s.calls = false) (hrepo : res.1.repo = s.repo) (hres : GaveUp res.2) :
    PickedUpTo g target (commit :: commits) s res 0 where
  le := Nat.zero_le _
  picked _ hj := absurd hj (Nat.not_lt_zero _)
  repo := hrepo.trans (withPicks_nil g target s.repo).symm
  gaveUp _ := ⟨Nat.succ_pos _, hfail⟩
  finished hnot := absurd hres hnot

/-- **The loop picks the commits before some position**, and stops there. -/
theorem pickAll_pickedUpTo (commits : List String) (s : Session C)
    (hs : s.repo.head = .branch target) :
    ∃ k, PickedUpTo g target commits s (pickAll g commits s) k := by
  induction commits generalizing s with
  | nil =>
      exact ⟨0, Nat.le_refl 0, fun _ hj => absurd hj (Nat.not_lt_zero _),
        (withPicks_nil g target s.repo).symm, nofun, fun _ => ⟨rfl, rfl⟩⟩
  | cons commit commits ih =>
      unfold pickAll
      rcases git_cases g (.cherryPick commit) s with
        ⟨hok, out, hout, heq⟩ | ⟨hfail, out, hout, heq⟩ | ⟨hfail, e, heq⟩
      · -- the pick succeeds: the rest is picked onto the new tip
        rw [heq]
        dsimp only
        rw [if_pos hout]
        obtain ⟨k, hk⟩ := ih ⟨g.effect (.cherryPick commit) s.repo, s.calls + 1⟩
          (head_cherryPick hs commit)
        refine ⟨k + 1, Nat.succ_le_succ hk.le, fun j hj => ?_, ?_, fun hgave => ?_, fun hnot => ?_⟩
        · rcases j with - | j
          · exact hok
          · rw [← Nat.add_assoc, Nat.add_right_comm]
            exact hk.picked j (Nat.lt_of_succ_lt_succ hj)
        · rw [hk.repo, withPicks_cons hs, List.take_succ_cons]
        · obtain ⟨hlt, hat⟩ := hk.gaveUp hgave
          refine ⟨Nat.succ_lt_succ hlt, ?_⟩
          rwa [← Nat.add_assoc, Nat.add_right_comm]
        · obtain ⟨hlen, hres⟩ := hk.finished hnot
          exact ⟨congrArg Nat.succ hlen, hres⟩
      · -- a conflict: only this pick is aborted
        rw [heq]
        dsimp only
        rw [if_neg (Bool.eq_false_iff.mp hout)]
        exact ⟨0, .zero hfail (git_repo rfl) trivial⟩
      · rw [heq]
        exact ⟨0, .zero hfail rfl trivial⟩

/-- The checkout fails and nothing changes, or the loop runs on the target. -/
theorem cherryPick_cases {s' : Session C} {res : Except CompletionError CompletionResult}
    (hrun : complete g handle (.cherryPick target commits) checks s = (s', res)) :
    (g.succeeds s.calls = false ∧ s'.repo = s.repo ∧ GaveUp res) ∨
    (g.succeeds s.calls = true ∧ ∃ k, PickedUpTo g target commits
      ⟨{ s.repo with head := .branch target }, s.calls + 1⟩ (s', res) k) := by
  unfold complete at hrun
  dsimp only at hrun
  rcases checkout_cases g target s with ⟨hok, heq⟩ | ⟨hfail, e, heq⟩
  · rw [heq] at hrun
    dsimp only at hrun
    exact .inr ⟨hok, hrun ▸ pickAll_pickedUpTo commits _ rfl⟩
  · rw [heq] at hrun
    cases hrun
    exact .inl ⟨hfail, rfl, trivial⟩

/-- **A cherry-pick that gives up has either changed nothing, or left the target checked out with
the commits before the failing position.**  Nothing but the failing pick is taken back. -/
theorem cherryPick_failed {s' : Session C} {res : Except CompletionError CompletionResult}
    (hrun : complete g handle (.cherryPick target commits) checks s = (s', res))
    (hgave : GaveUp res) :
    (g.succeeds s.calls = false ∧ s'.repo = s.repo) ∨
    (g.succeeds s.calls = true ∧ ∃ k < commits.length,
      (∀ j < k, g.succeeds (s.calls + 1 + j) = true) ∧
      g.succeeds (s.calls + 1 + k) = false ∧
      s'.repo.head = .branch target ∧
      s'.repo.tip target = (s.repo.tip target).map ((commits.take k).foldl g.picked) ∧
      (∀ b, b ≠ target → s'.repo.tip b = s.repo.tip b) ∧
      s'.repo.worktrees = s.repo.worktrees) := by
  rcases cherryPick_cases hrun with ⟨hfail, hrepo, -⟩ | ⟨hok, k, hk⟩
  · exact .inl ⟨hfail, hrepo⟩
  · obtain ⟨hlt, hat⟩ := hk.gaveUp hgave
    have hrepo := hk.repo
    refine .inr ⟨hok, k, hlt, hk.picked, hat, ?_, ?_, fun b hb => ?_, ?_⟩
    · exact congrArg SourceRepo.head hrepo
    · exact (congrArg (SourceRepo.tip · target) hrepo).trans (Function.update_self _ _ _)
    · exact (congrArg (SourceRepo.tip · b) hrepo).trans (Function.update_of_ne hb _ _)
    · exact (congrArg SourceRepo.worktrees hrepo).trans rfl

/-- An environment in which the second pick conflicts.  A commit is the list of what was picked
since the root. -/
def secondConflicts : GitCli (List String) where
  answer n := .ok ⟨n != 2, "", ""⟩
  passes _ := true
  merged ours theirs := ours ++ theirs
  picked tip commit := tip ++ [commit]

/-- `main` and `dev` at the root commit, and `dev` checked out. -/
def onDev : Session (List String) where
  repo :=
    { head := .branch "dev"
      tip := fun b => if b = "main" ∨ b = "dev" then some [] else none
      worktrees := ["/memmux/worktrees/repo/fix"] }
  calls := 0

/-- The worktree of a finished task. -/
def fixHandle : WorktreeHandle :=
  ⟨"task", "repo", "/repo", "memmux/fix", "/memmux/worktrees/repo/fix", ""⟩

/-- Two commits for `main`. -/
def pickTwo : Session (List String) × Except CompletionError CompletionResult :=
  complete secondConflicts fixHandle (.cherryPick "main" ["c1", "c2"]) [] onDev

/-- The first commit is on `main`, which is checked out. -/
theorem pickTwo_failed : ∃ k < 2, pickTwo.1.repo.head = .branch "main" ∧
    pickTwo.1.repo.tip "main" = some ((["c1", "c2"].take k).foldl secondConflicts.picked []) := by
  have hrun : complete secondConflicts fixHandle (.cherryPick "main" ["c1", "c2"]) [] onDev
      = (pickTwo.1, .ok .mergeConflict) := rfl
  rcases cherryPick_failed hrun trivial with ⟨hfail, -⟩ | ⟨-, k, hk, -, -, hhead, htip, -⟩
  · exact absurd hfail (by decide)
  · exact ⟨k, hk, hhead, htip⟩

/-- **A conflict at the second commit leaves the first one on the target, and the target checked
out.** -/
theorem conflict_keeps_first_pick :
    pickTwo.2 = .ok .mergeConflict ∧
      onDev.repo.tip "main" = some [] ∧ pickTwo.1.repo.tip "main" = some ["c1"] ∧
      onDev.repo.head = .branch "dev" ∧ pickTwo.1.repo.head = .branch "main" :=
  ⟨rfl, rfl, rfl, rfl, rfl⟩

/-- A cherry-pick that does not give up has picked every commit. -/
theorem cherryPick_finished {s' : Session C} {res : Except CompletionError CompletionResult}
    (hrun : complete g handle (.cherryPick target commits) checks s = (s', res))
    (hnot : ¬ GaveUp res) :
    res = .ok .cherryPicked ∧
      s'.repo.tip target = (s.repo.tip target).map (commits.foldl g.picked) := by
  rcases cherryPick_cases hrun with ⟨-, -, hgave⟩ | ⟨-, k, hk⟩
  · exact absurd hgave hnot
  · obtain ⟨hlen, hres⟩ := hk.finished hnot
    have hrepo := hk.repo
    rw [hlen, List.take_length] at hrepo
    exact ⟨hres, (congrArg (SourceRepo.tip · target) hrepo).trans (Function.update_self _ _ _)⟩

/-! ### Merges and discards -/

/-- **A merge that gives up has moved no branch.** -/
theorem merge_failed {s' : Session C} {res : Except CompletionError CompletionResult}
    (hrun : complete g handle (.merge target) checks s = (s', res)) (hgave : GaveUp res) :
    s'.repo.tip = s.repo.tip := by
  unfold complete at hrun
  dsimp only at hrun
  split at hrun
  · cases hrun
    cases hgave
  · rcases checkout_cases g target s with ⟨-, heq⟩ | ⟨-, e, heq⟩
    · rw [heq] at hrun
      dsimp only at hrun
      rcases git_cases g (.merge handle.branch)
          ⟨{ s.repo with head := .branch target }, s.calls + 1⟩ with
        ⟨-, out, hout, hmerge⟩ | ⟨-, out, hout, hmerge⟩ | ⟨-, e, hmerge⟩
      · rw [hmerge] at hrun
        dsimp only at hrun
        rw [if_pos hout] at hrun
        cases hrun
        cases hgave
      · rw [hmerge] at hrun
        dsimp only at hrun
        rw [if_neg (Bool.eq_false_iff.mp hout)] at hrun
        cases hrun
        exact (congrArg SourceRepo.tip (git_repo rfl)).trans rfl
      · rw [hmerge] at hrun
        cases hrun
        rfl
    · rw [heq] at hrun
      cases hrun
      rfl

/-- A query with `git_ok` leaves the repository alone. -/
theorem gitOk_repo (hcall : g.effect call s.repo = s.repo) : (g.gitOk call s).1.repo = s.repo := by
  have hrepo := @git_repo C g call s hcall
  unfold GitCli.gitOk
  rcases hgit : g.git call s with ⟨s', e | out⟩ <;> rw [hgit] at hrepo <;> exact hrepo

theorem isDirty_repo (g : GitCli C) (s : Session C) : (isDirty g s).1.repo = s.repo := by
  have hrepo := @gitOk_repo C g .status s rfl
  unfold isDirty
  rcases hgit : g.gitOk .status s with ⟨s', e | status⟩ <;> rw [hgit] at hrepo <;> exact hrepo

theorem manifestOf_repo (g : GitCli C) (s : Session C) : (manifestOf g s).1.repo = s.repo := by
  have hrepo := @gitOk_repo C g .status s rfl
  unfold manifestOf
  rcases hgit : g.gitOk .status s with ⟨s', e | status⟩
  · rw [hgit] at hrepo
    exact hrepo
  · rw [hgit] at hrepo
    have hdiff := @gitOk_repo C g .diffHead s' rfl
    dsimp only
    rcases hgit' : g.gitOk .diffHead s' with ⟨s'', e | patch⟩ <;> rw [hgit'] at hdiff <;>
      exact hdiff.trans hrepo

/-- A discard that is not answered with `discarded` has removed nothing. -/
theorem discard_repo {preserved : Option String}
    (hnot : ∀ p, (discard g handle preserved s).2 ≠ .ok (.discarded p)) :
    (discard g handle preserved s).1.repo = s.repo := by
  unfold discard GitCli.gitOk at hnot ⊢
  rcases git_cases g (.worktreeRemoveForce handle.path) s with
    ⟨-, out, hout, hgit⟩ | ⟨-, out, hout, hgit⟩ | ⟨-, e, hgit⟩
  · rw [hgit] at hnot
    dsimp only at hnot
    rw [if_pos hout] at hnot
    exact absurd rfl (hnot preserved)
  · rw [hgit]
    dsimp only
    rw [if_neg (Bool.eq_false_iff.mp hout)]
  · rw [hgit]

theorem discard_digest {preserved p : Option String}
    (hres : (discard g handle preserved s).2 = .ok (.discarded p)) : p = preserved := by
  unfold discard at hres
  rcases hgit : g.gitOk (.worktreeRemoveForce handle.path) s with ⟨s', e | out⟩
  · rw [hgit] at hres
    cases hres
  · rw [hgit] at hres
    cases hres
    rfl

/-- **A discard that is refused or fails has changed nothing.** -/
theorem discard_failed {confirmed : Bool}
    (hnot : ∀ p, (complete g handle (.discard confirmed) checks s).2 ≠ .ok (.discarded p)) :
    (complete g handle (.discard confirmed) checks s).1.repo = s.repo := by
  have hdirty := isDirty_repo g s
  unfold complete at hnot ⊢
  dsimp only at hnot ⊢
  rcases hd : isDirty g s with ⟨s₁, e | _ | _⟩
  · rw [hd] at hdirty
    exact hdirty
  · rw [hd] at hdirty hnot
    exact (discard_repo hnot).trans hdirty
  · rw [hd] at hdirty hnot
    dsimp only at hdirty hnot ⊢
    cases confirmed with
    | false => exact hdirty
    | true =>
        have hman := manifestOf_repo g s₁
        rw [if_pos rfl] at hnot ⊢
        rcases hm : manifestOf g s₁ with ⟨s₂, e | m⟩
        · rw [hm] at hman
          exact hman.trans hdirty
        · rw [hm] at hman hnot
          exact (discard_repo hnot).trans (hman.trans hdirty)

/-- **A worktree with changes is removed only on confirmation, and with the digest of its patch on
record.** -/
theorem discard_preserves {p : Option String} {confirmed : Bool}
    (hres : (complete g handle (.discard confirmed) checks s).2 = .ok (.discarded p)) :
    (isDirty g s).2 = .ok false ∧ p = none ∨
    (isDirty g s).2 = .ok true ∧ confirmed = true ∧
      ∃ m, (manifestOf g (isDirty g s).1).2 = .ok m ∧ p = some m.patchHash := by
  unfold complete at hres
  dsimp only at hres
  rcases hd : isDirty g s with ⟨s₁, e | _ | _⟩
  · rw [hd] at hres
    cases hres
  · rw [hd] at hres
    exact .inl ⟨rfl, discard_digest hres⟩
  · rw [hd] at hres
    dsimp only at hres
    cases confirmed with
    | false => cases hres
    | true =>
        rw [if_pos rfl] at hres
        rcases hm : manifestOf g s₁ with ⟨s₂, e | m⟩
        · rw [hm] at hres
          cases hres
        · rw [hm] at hres
          exact .inr ⟨rfl, rfl, m, rfl, discard_digest hres⟩

end Runs

end MemMux
