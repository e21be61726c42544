/-
MemMux/Checkpoint.lean

Checkpoints, safe points, resume modes and recycling (`memmux-lifecycle/src/checkpoint.rs`,
`safepoint.rs`, `resume.rs`, `recycle.rs`).

A checkpoint is stored as JSON by `serde_json`, which is not part of the repository:
`CheckpointCodec` stands for it and carries the one law the daemon relies on, that a
written checkpoint reads back as it was.
-/
import MemMux.Budget
import MemMux.Text

namespace MemMux

/-! ### Checkpoints -/

/-- Where a referenced secret actually lives. -/
inductive SecretSource
  | env (var : String)
  | file (path : String)
  | keychain (account : String)
  deriving DecidableEq, Repr

/-- A reference to a secret a task needs. -/
structure SecretRef where
  name : String
  source : SecretSource
  deriving DecidableEq, Repr

/-- A reference that maps a provider env var to a host env var of the same name. -/
def SecretRef.env (name : String) : SecretRef := ⟨name, .env name⟩

/-- The integrity-covered fields of a checkpoint, in the canonical hashing order. -/
structure IntegrityBody where
  taskId : String
  gitHead : String
  gitPatchHash : String
  transcriptCursor : UInt64
  providerSessionRef : Option String
  resourceBaselineBytes : Nat
  secretRefs : List SecretRef
  createdAtMs : UInt64
  deriving DecidableEq, Repr

/-- The durable description of a checkpointed or hibernated task: the covered fields and their
digest. -/
structure Checkpoint extends IntegrityBody where
  integrity : String
  deriving DecidableEq, Repr

/-- What `serde_json` does for checkpoints: the bytes of the digested body, the bytes of the
artifact, and reading an artifact back. -/
structure CheckpointCodec where
  body : IntegrityBody → List UInt8
  encode : Checkpoint → List UInt8
  decode : List UInt8 → Option Checkpoint
  decode_encode : ∀ cp, decode (encode cp) = some cp

namespace Checkpoint

variable (codec : CheckpointCodec)

def computeIntegrity (cp : Checkpoint) : String := contentHash (codec.body cp.toIntegrityBody)

/-- Build a checkpoint and compute its integrity hash. -/
def new (body : IntegrityBody) : Checkpoint :=
  let cp : Checkpoint := { body with integrity := "" }
  { cp with integrity := cp.computeIntegrity codec }

/-- Whether the stored integrity hash matches the current contents. -/
def verify (cp : Checkpoint) : Bool := cp.integrity == cp.computeIntegrity codec

/-- Whether the provider recorded a native session handle to resume from. -/
def hasNativeSession (cp : Checkpoint) : Bool := cp.providerSessionRef.isSome

/-- A freshly built checkpoint verifies. -/
theorem verify_new (body : IntegrityBody) : (new codec body).verify codec := by
  show ((new codec body).integrity == _) = true
  exact beq_self_eq_true _

@[simp] theorem new_taskId (body : IntegrityBody) : (new codec body).taskId = body.taskId := rfl

@[simp] theorem new_providerSessionRef (body : IntegrityBody) :
    (new codec body).providerSessionRef = body.providerSessionRef := rfl

end Checkpoint

/-! ### Safe points -/

/-- The verdict for a single moment. -/
inductive SafePoint
  | ready
  | wait (reason : String)
  deriving DecidableEq, Repr

/-- A snapshot of what a task is doing, used to assess a safe point. -/
structure ActivitySnapshot where
  subState : TaskState
  toolRunning : Bool
  writing : Bool
  deriving DecidableEq, Repr

/-- Assess whether `a` represents a safe point to freeze at. -/
def assess (a : ActivitySnapshot) : SafePoint :=
  if a.toolRunning then .wait "a tool call is in progress"
  else if a.writing then .wait "a repository write is in progress"
  else
    match a.subState with
    | .toolRunning => .wait "provider is running a tool"
    | .admitting | .starting | .checkpointing | .recycling | .resuming | .terminating =>
        .wait "transitional state"
    | .active | .idle | .waitingUser | .blocked | .created | .queued | .hibernated | .failed
    | .terminated => .ready

/-! ### Resume -/

/-- How a task was brought back. -/
inductive ResumeMode
  | native | reconstructed | coldStart
  deriving DecidableEq, Repr

/-- A short human label. -/
def ResumeMode.label : ResumeMode → String
  | .native => "native"
  | .reconstructed => "reconstructed"
  | .coldStart => "cold-start"

/-- The label `serde` writes. -/
def ResumeMode.slug : ResumeMode → String
  | .native => "native"
  | .reconstructed => "reconstructed"
  | .coldStart => "cold_start"

/-- The result of a resume attempt. -/
structure ResumeOutcome where
  mode : ResumeMode
  latencyMs : UInt64
  validated : Bool
  detail : String
  deriving DecidableEq, Repr

namespace ResumeOutcome

/-- A successful native resume. -/
def native (latencyMs : UInt64) : ResumeOutcome :=
  ⟨.native, latencyMs, true, "restored via provider-native session"⟩

/-- A reconstructed fallback, carrying the reason the native path was not used. -/
def reconstructed (latencyMs : UInt64) (reason : String) : ResumeOutcome :=
  ⟨.reconstructed, latencyMs, true, "reconstructed session: " ++ reason⟩

/-- A cold start: nothing but repository and task state survived. -/
def coldStart (latencyMs : UInt64) (reason : String) : ResumeOutcome :=
  ⟨.coldStart, latencyMs, false, "cold start: " ++ reason⟩

end ResumeOutcome

/-! ### Recycling -/

/-- Per-provider RSS threshold that triggers recycling. -/
structure RecyclePolicy where
  rssThresholdBytes : Nat
  deriving DecidableEq, Repr

/-- Conservative per-provider defaults. -/
def RecyclePolicy.forProvider : Provider → RecyclePolicy
  | .claudeCode => ⟨4 * gib⟩
  | .codex => ⟨3 * gib⟩
  | .geminiCli => ⟨3 * gib⟩
  | .openCode => ⟨2 * gib⟩
  | .generic => ⟨2 * gib⟩

/-- If `rssBytes` is at or over the threshold, the reason to recycle. -/
def RecyclePolicy.shouldRecycle (p : RecyclePolicy) (rssBytes : Nat) : Option String :=
  if p.rssThresholdBytes ≤ rssBytes then
    some ("RSS " ++ toString (rssBytes / mib) ++ " MiB reached the "
      ++ toString (p.rssThresholdBytes / mib) ++ " MiB recycle threshold")
  else none

/-- Before/after RSS around a recycle. -/
structure Reclamation where
  rssBefore : Nat
  rssAfter : Nat
  deriving DecidableEq, Repr

namespace Reclamation

/-- Bytes reclaimed (signed: negative if the new instance is larger). -/
def reclaimedBytes (r : Reclamation) : Int := asI64 (asI64 r.rssBefore - asI64 r.rssAfter)

/-- A human-readable summary. -/
def summary (r : Reclamation) : String :=
  let delta := r.reclaimedBytes
  if 0 < delta then "reclaimed " ++ toString (asU64 delta / mib) ++ " MiB"
  else if delta = 0 then "no measurable reclamation"
  else
    "no measurable reclamation (new instance is " ++ toString (asU64 (asI64 (-delta)) / mib)
      ++ " MiB larger)"

end Reclamation

/-- The `runtime_recycled` ledger record. -/
structure RecycleRecord where
  rssBefore : Nat
  rssAfter : Nat
  reclaimedBytes : Int
  resumeMode : ResumeMode
  resumeLatencyMs : UInt64
  gitPatchHash : String
  deriving DecidableEq, Repr

/-- Assemble a ledger record from a reclamation measurement and resume outcome. -/
def RecycleRecord.new (r : Reclamation) (mode : ResumeMode) (latencyMs : UInt64)
    (gitPatchHash : String) : RecycleRecord :=
  ⟨r.rssBefore, r.rssAfter, r.reclaimedBytes, mode, latencyMs, gitPatchHash⟩

end MemMux
