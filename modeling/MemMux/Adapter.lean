/-
MemMux/Adapter.lean

Provider adapters (`memmux-adapters/src/adapter.rs`, `providers.rs`, `capabilities.rs`): the
command a provider is launched or resumed with, the secrets it needs, and how faithfully
it can resume.  Of the capability matrix the daemon reads `resume` only.
-/
import MemMux.Checkpoint

namespace MemMux

/-- How faithfully a provider can resume a checkpointed session. -/
inductive ResumeFidelity
  | native | reconstructed | unsupported
  deriving DecidableEq, Repr

/-- How to launch a provider session. -/
structure LaunchSpec where
  command : Option (List String)
  extraArgs : List String
  cwd : Option Path
  env : List (String × String)
  rows : Nat
  cols : Nat
  deriving DecidableEq, Repr

/-- A launch spec for the given working directory at the default 24×80 size. -/
def LaunchSpec.inDir (cwd : Path) : LaunchSpec := ⟨none, [], some cwd, [], 24, 80⟩

/-- How to launch a PTY session. -/
structure PtySpec where
  program : String
  args : List String
  cwd : Option Path
  env : List (String × String)
  rows : Nat
  cols : Nat
  deriving DecidableEq, Repr

def ptySpec (program : String) (baseArgs : List String) (spec : LaunchSpec) : PtySpec where
  program := program
  args := baseArgs ++ spec.extraArgs
  cwd := spec.cwd
  env := spec.env
  rows := if spec.rows = 0 then 24 else spec.rows
  cols := if spec.cols = 0 then 80 else spec.cols

@[simp] theorem ptySpec_cwd (program : String) (args : List String) (spec : LaunchSpec) :
    (ptySpec program args spec).cwd = spec.cwd := rfl

namespace Provider

/-- `capabilities().resume`. -/
def resumeFidelity : Provider → ResumeFidelity
  | claudeCode => .native
  | codex => .reconstructed
  | geminiCli => .reconstructed
  | openCode => .native
  | generic => .unsupported

/-- Build the PTY command for a launch. -/
def command (p : Provider) (spec : LaunchSpec) : PtySpec :=
  match p with
  | claudeCode => ptySpec "claude" [] spec
  | codex => ptySpec "codex" [] spec
  | geminiCli => ptySpec "gemini" [] spec
  | openCode => ptySpec "opencode" [] spec
  | generic =>
      match spec.command with
      | some (program :: rest) => ptySpec program rest spec
      | _ => ptySpec "sh" ["-c", ":"] spec

/-- Build the PTY command that resumes a prior session natively, if the provider can. -/
def resumeCommand (p : Provider) (spec : LaunchSpec) (sessionRef : String) : Option PtySpec :=
  match p with
  | claudeCode => some (ptySpec "claude" ["--resume", sessionRef] spec)
  | openCode => some (ptySpec "opencode" ["--session", sessionRef] spec)
  | codex | geminiCli | generic => none

/-- The secret references this provider needs at launch. -/
def secretRefs : Provider → List SecretRef
  | claudeCode => [SecretRef.env "ANTHROPIC_API_KEY"]
  | codex => [SecretRef.env "OPENAI_API_KEY"]
  | geminiCli => [SecretRef.env "GEMINI_API_KEY"]
  | openCode => [SecretRef.env "ANTHROPIC_API_KEY"]
  | generic => []

/-- Every adapter launches in the directory its spec names. -/
theorem command_cwd (p : Provider) (spec : LaunchSpec) : (p.command spec).cwd = spec.cwd := by
  cases p with
  | generic =>
      simp only [command]
      split <;> rfl
  | _ => rfl

theorem resumeCommand_cwd {p : Provider} {spec : LaunchSpec} {session : String} {pty : PtySpec}
    (h : p.resumeCommand spec session = some pty) : pty.cwd = spec.cwd := by
  cases p <;> simp [resumeCommand] at h <;> rw [← h] <;> rfl

end Provider

/-- Resolve the environment of a launch: the secrets of the adapter, all of which its grant
names, as far as the host has them. -/
def resolveEnv (getEnv : String → Option String) (refs : List SecretRef) :
    List (String × String) :=
  refs.filterMap fun r =>
    match r.source with
    | .env var => (getEnv var).map fun value => (r.name, value)
    | .file _ | .keychain _ => none

/-- Build the launch spec for a task, in its repository path. -/
def launchSpecFor (getEnv : String → Option String) (task : Task) : LaunchSpec :=
  { LaunchSpec.inDir task.spec.repositoryPath with
    command := task.spec.command
    env := resolveEnv getEnv task.spec.provider.secretRefs }

/-- Decide the resume mode from the provider's negotiated fidelity and whether a native session
handle was checkpointed. -/
def planResume (cap : ResumeFidelity) (hasNativeSession : Bool) : ResumeMode :=
  match cap with
  | .native => if hasNativeSession then .native else .reconstructed
  | .reconstructed => .reconstructed
  | .unsupported => .coldStart

/-- Without a session handle nothing is resumed natively. -/
theorem planResume_ne_native (cap : ResumeFidelity) : planResume cap false ≠ .native := by
  cases cap <;> simp [planResume]

end MemMux
