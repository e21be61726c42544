/-
MemMux/Capture.lean

The bounded-capture pipeline (`memmux-pty/src/governance.rs`, `truncate.rs`, `capture.rs`): text
goes in, governed and truncated lines go into the ring.

`ingest_eq` says what one call of `ingest` does: it cuts the pending text into lines and
hands them to `ingestLine` one by one.  Everything that is proved about captured output rests
on it and on what `ingestLine` does to one line.
-/
import MemMux.Lines
import MemMux.Ring
import MemMux.Budget
import Mathlib.Data.List.TakeWhile

namespace MemMux

/-! ### Governance -/

/-- Per-task output governance limits. -/
structure GovernanceConfig where
  maxLogArtifactBytes : Nat
  sampleAboveLinesPerSec : Nat
  sampleRatio : Nat
  deriving DecidableEq, Repr

/-- `GovernanceConfig::default()`. -/
def GovernanceConfig.default : GovernanceConfig := ⟨5 * 1024 * 1024 * 1024, 5000, 20⟩

/-- What the governor decided for a line of output. -/
inductive GovernanceDecision
  | store
  | sampledOut
  | quotaExceeded
  deriving DecidableEq, Repr

/-- An edge-triggered governance breach. -/
inductive GovernanceBreach
  | rateSampling (linesPerSec : Nat)
  | artifactQuota (limitBytes : Nat)
  deriving DecidableEq, Repr

/-- Whether an event reports a breach of the rate. -/
def GovernanceBreach.ofRate : GovernanceBreach → Bool
  | rateSampling _ => true
  | artifactQuota _ => false

/-- The outcome of governing one line. -/
structure GovernanceOutcome where
  decision : GovernanceDecision
  event : Option GovernanceBreach
  deriving DecidableEq, Repr

/-- Tracks a task's output rate and artifact quota. -/
structure OutputGovernor where
  cfg : GovernanceConfig
  windowStartMs : Nat
  linesThisWindow : Nat
  linesSinceSample : Nat
  artifactBytes : Nat
  rateBreachActive : Bool
  quotaBreached : Bool
  deriving DecidableEq, Repr

namespace OutputGovernor

def new (cfg : GovernanceConfig) : OutputGovernor := ⟨cfg, 0, 0, 0, 0, false, false⟩

/-- Slide the one-second rate window. -/
def slide (nowMs : Nat) (g : OutputGovernor) : OutputGovernor :=
  if 1000 ≤ nowMs - g.windowStartMs then
    { g with windowStartMs := nowMs, linesThisWindow := 0, rateBreachActive := false }
  else g

/-- Govern one output line of `bytes` bytes observed at `nowMs`.  The quota test saturates, and the
byte count wraps: only under the quota `u64::MAX` can a line pass the one and overflow the other. -/
def onLine (bytes nowMs : Nat) (g : OutputGovernor) : OutputGovernor × GovernanceOutcome :=
  let g := g.slide nowMs
  let g := { g with linesThisWindow := g.linesThisWindow + 1 }
  -- the quota first: once exhausted, nothing more is persisted
  if g.cfg.maxLogArtifactBytes < satAdd g.artifactBytes bytes then
    ({ g with quotaBreached := true },
      ⟨.quotaExceeded,
        if g.quotaBreached then none else some (.artifactQuota g.cfg.maxLogArtifactBytes)⟩)
  else if g.cfg.sampleAboveLinesPerSec < g.linesThisWindow then
    let event := if g.rateBreachActive then none else some (.rateSampling g.linesThisWindow)
    let g := { g with rateBreachActive := true, linesSinceSample := g.linesSinceSample + 1 }
    if g.linesSinceSample % max g.cfg.sampleRatio 1 = 0 then
      ({ g with artifactBytes := (g.artifactBytes + bytes) % u64Size }, ⟨.store, event⟩)
    else (g, ⟨.sampledOut, event⟩)
  else ({ g with artifactBytes := (g.artifactBytes + bytes) % u64Size }, ⟨.store, none⟩)

@[simp] theorem slide_cfg (nowMs : Nat) (g : OutputGovernor) : (g.slide nowMs).cfg = g.cfg := by
  unfold slide
  split_ifs <;> rfl

@[simp] theorem slide_artifactBytes (nowMs : Nat) (g : OutputGovernor) :
    (g.slide nowMs).artifactBytes = g.artifactBytes := by
  unfold slide
  split_ifs <;> rfl

/-- Once the window has slid, it stays for the rest of the second. -/
theorem slide_slid (nowMs : Nat) (g : OutputGovernor) :
    nowMs - (g.slide nowMs).windowStartMs < 1000 := by
  unfold slide
  split_ifs with h
  · simp
  · exact Nat.not_le.mp h

@[simp] theorem slide_quotaBreached (nowMs : Nat) (g : OutputGovernor) :
    (g.slide nowMs).quotaBreached = g.quotaBreached := by
  unfold slide
  split_ifs <;> rfl

@[simp] theorem slide_linesSinceSample (nowMs : Nat) (g : OutputGovernor) :
    (g.slide nowMs).linesSinceSample = g.linesSinceSample := by
  unfold slide
  split_ifs <;> rfl

/-! ### The four outcomes -/

/-- The line does not fit into what is left of the quota. -/
def overQuota (bytes : Nat) (g : OutputGovernor) : Prop :=
  g.cfg.maxLogArtifactBytes < satAdd g.artifactBytes bytes

/-- The line is one too many in its window. -/
def overRate (nowMs : Nat) (g : OutputGovernor) : Prop :=
  g.cfg.sampleAboveLinesPerSec < (g.slide nowMs).linesThisWindow + 1

/-- The next line over the rate is the one of `sampleRatio` that is kept. -/
def keepsNext (g : OutputGovernor) : Prop :=
  (g.linesSinceSample + 1) % max g.cfg.sampleRatio 1 = 0

instance (bytes : Nat) (g : OutputGovernor) : Decidable (g.overQuota bytes) :=
  inferInstanceAs (Decidable (_ < _))

instance (nowMs : Nat) (g : OutputGovernor) : Decidable (g.overRate nowMs) :=
  inferInstanceAs (Decidable (_ < _))

instance (g : OutputGovernor) : Decidable g.keepsNext := inferInstanceAs (Decidable (_ = _))

/-- The window slides and the line is counted in it. -/
def count (nowMs : Nat) (g : OutputGovernor) : OutputGovernor :=
  { g.slide nowMs with linesThisWindow := (g.slide nowMs).linesThisWindow + 1 }

/-- The event of a line over the rate, unless its window has had one. -/
def rateEvent (nowMs : Nat) (g : OutputGovernor) : Option GovernanceBreach :=
  if (g.slide nowMs).rateBreachActive then none
  else some (.rateSampling ((g.slide nowMs).linesThisWindow + 1))

variable {bytes nowMs : Nat} {g : OutputGovernor}

/-- **What `onLine` does**, over the state before it. -/
theorem onLine_eq (bytes nowMs : Nat) (g : OutputGovernor) :
    g.onLine bytes nowMs =
      if g.overQuota bytes then
        ({ g.count nowMs with quotaBreached := true }, ⟨.quotaExceeded,
          if g.quotaBreached then none else some (.artifactQuota g.cfg.maxLogArtifactBytes)⟩)
      else if g.overRate nowMs then
        if g.keepsNext then
          ({ g.count nowMs with
              rateBreachActive := true
              linesSinceSample := g.linesSinceSample + 1
              artifactBytes := (g.artifactBytes + bytes) % u64Size }, ⟨.store, g.rateEvent nowMs⟩)
        else
          ({ g.count nowMs with
              rateBreachActive := true
              linesSinceSample := g.linesSinceSample + 1 }, ⟨.sampledOut, g.rateEvent nowMs⟩)
      else ({ g.count nowMs with artifactBytes := (g.artifactBytes + bytes) % u64Size },
        ⟨.store, none⟩) := by
  simp only [onLine, slide_cfg, slide_artifactBytes, slide_quotaBreached, slide_linesSinceSample,
    overQuota, overRate, keepsNext, count, rateEvent]

/-- Once the line is counted, the window stays for the rest of the second. -/
theorem slide_count (nowMs : Nat) (g : OutputGovernor) : (g.count nowMs).slide nowMs = g.count nowMs := by
  rw [slide, if_neg]
  exact Nat.not_le.mpr (slide_slid nowMs g)

end OutputGovernor

/-! ### Truncation -/

/-- The longest prefix of a text that fits into `n` bytes. -/
def takeBytes : Nat → List Char → List Char
  | _, [] => []
  | n, c :: cs => if c.utf8Size ≤ n then c :: takeBytes (n - c.utf8Size) cs else []

/-- The result of applying the per-line size cap. -/
inductive TruncateOutcome
  | kept (text : List Char)
  | truncated (head : List Char) (fullBytes : Nat) (full : List Char)
  deriving DecidableEq, Repr

/-- Truncate `line` to at most `maxLineBytes` of retained head; the cap is at least 1, and the
head ends at a character boundary. -/
def truncateLine (line : List Char) (maxLineBytes : Nat) : TruncateOutcome :=
  if byteLen line ≤ maxLineBytes then .kept line
  else .truncated (takeBytes (max maxLineBytes 1) line) (byteLen line) line

/-! ### The capture buffer -/

/-- Configuration for the whole capture pipeline. -/
structure CaptureConfig where
  ring : RingCaps
  governance : GovernanceConfig
  maxLineBytes : Nat
  deriving DecidableEq, Repr

/-- `CaptureConfig::default()`. -/
def CaptureConfig.default : CaptureConfig := ⟨.default, .default, 64 * 1024⟩

/-- A full oversized line to be written to a disk artifact. -/
structure PendingArtifact where
  artifactRef : String
  content : List Char
  deriving DecidableEq, Repr

/-- The bounded terminal-capture buffer for one task. -/
structure CaptureBuffer where
  cfg : CaptureConfig
  buffer : BoundedBuffer
  governor : OutputGovernor
  pending : List Char
  artifacts : List PendingArtifact
  events : List GovernanceBreach
  artifactSeq : Nat
  deriving DecidableEq, Repr

open Lines

namespace CaptureBuffer

def new (cfg : CaptureConfig) : CaptureBuffer :=
  ⟨cfg, .new cfg.ring, .new cfg.governance, [], [], [], 0⟩

/-- Whether a character ends no line. -/
def isPlain (c : Char) : Bool := c ≠ '\n' && c ≠ '\r'

/-- `pending.find(['\n', '\r'])`: the line it ends, and what follows its terminator. -/
def findLine (pending : List Char) : Option (List Char × List Char) :=
  match pending.span isPlain with
  | (_, []) => none
  | (line, '\r' :: '\n' :: rest) => some (line, rest)
  | (line, _ :: rest) => some (line, rest)

/-- Store a line that the governor lets through. -/
def storeLine (line : List Char) (c : CaptureBuffer) : CaptureBuffer :=
  match truncateLine line c.cfg.maxLineBytes with
  | .kept text => { c with buffer := c.buffer.push (.text text) }
  | .truncated head fullBytes full =>
      let artifactRef := "art_" ++ toString c.artifactSeq
      { c with
          artifactSeq := c.artifactSeq + 1
          artifacts := c.artifacts ++ [⟨artifactRef, full⟩]
          buffer := c.buffer.push (.truncated head fullBytes artifactRef) }

/-- Govern one line and store it if it is to be stored. -/
def ingestLine (nowMs : Nat) (line : List Char) (c : CaptureBuffer) : CaptureBuffer :=
  let (governor, outcome) := c.governor.onLine (byteLen line) nowMs
  let c := { c with governor := governor, events := c.events ++ outcome.event.toList }
  match outcome.decision with
  | .sampledOut | .quotaExceeded => c
  | .store => c.storeLine line

/-- At most `n` rounds of the loop of `ingest`. -/
def ingestLoop (nowMs : Nat) : Nat → CaptureBuffer → CaptureBuffer
  | 0, c => c
  | n + 1, c =>
      match findLine c.pending with
      | some (line, rest) => ingestLoop nowMs n (ingestLine nowMs line { c with pending := rest })
      | none =>
          if c.cfg.maxLineBytes < byteLen c.pending then
            ingestLine nowMs c.pending { c with pending := [] }
          else c

/-- Feed a chunk of provider output.  Every round of the loop takes a character. -/
def ingest (data : List Char) (nowMs : Nat) (c : CaptureBuffer) : CaptureBuffer :=
  let c := { c with pending := c.pending ++ data }
  ingestLoop nowMs (c.pending.length + 1) c

/-- Flush any buffered partial line as a complete line. -/
def flush (nowMs : Nat) (c : CaptureBuffer) : CaptureBuffer :=
  if c.pending = [] then c else ingestLine nowMs c.pending { c with pending := [] }

/-- Take lines evicted from the resident buffer. -/
def drainEvicted (c : CaptureBuffer) : List StoredLine × CaptureBuffer :=
  (c.buffer.drainEvicted.1, { c with buffer := c.buffer.drainEvicted.2 })

/-- Take oversized-line artifacts pending disk persistence. -/
def drainArtifacts (c : CaptureBuffer) : List PendingArtifact × CaptureBuffer :=
  (c.artifacts, { c with artifacts := [] })

/-- Take governance breach events pending audit. -/
def drainEvents (c : CaptureBuffer) : List GovernanceBreach × CaptureBuffer :=
  (c.events, { c with events := [] })

/-! ### The loop of `ingest` -/

theorem isPlain_iff {c : Char} : isPlain c = true ↔ c ≠ '\n' ∧ c ≠ '\r' := by
  simp [isPlain]

theorem cut_plain {text : List Char} (h : ∀ c ∈ text, isPlain c) (line : List Char) (cr : Bool)
    (rest : List Char) : cut line cr (text ++ rest) = cut (line ++ text) (cr && text.isEmpty) rest :=
  cut_append (fun c hc => isPlain_iff.mp (h c hc)) line cr rest

theorem cut_cr {rest : List Char} (h : ∀ r, rest ≠ '\n' :: r) (line : List Char) :
    cut line true rest = cut line false rest := by
  cases rest with
  | nil => rfl
  | cons c cs =>
      have hc : c ≠ '\n' := fun hc => h cs (by rw [hc])
      simp [cut, hc]

/-- **Either no line ends in a text, or the first one is found and the rest is shorter.** -/
theorem findLine_cases (text : List Char) :
    (findLine text = none ∧ ∀ c ∈ text, isPlain c)
      ∨ ∃ line rest, findLine text = some (line, rest) ∧ rest.length < text.length
        ∧ cut [] false text = (line :: (cut [] false rest).1, (cut [] false rest).2) := by
  have happ : text.takeWhile isPlain ++ text.dropWhile isPlain = text :=
    List.takeWhile_append_dropWhile
  have hplain : ∀ c ∈ text.takeWhile isPlain, isPlain c := fun c hc => List.mem_takeWhile_imp hc
  have hhead := List.head?_dropWhile_not isPlain text
  unfold findLine
  rw [List.span_eq_takeWhile_dropWhile]
  generalize text.takeWhile isPlain = line at happ hplain ⊢
  generalize text.dropWhile isPlain = tail at happ hhead ⊢
  cases tail with
  | nil =>
      rw [List.append_nil] at happ
      exact .inl ⟨rfl, happ ▸ hplain⟩
  | cons x tail =>
      right
      have hcut : cut [] false text = cut line false (x :: tail) := by
        rw [← happ, cut_plain hplain]
        rfl
      have hlen : text.length = line.length + (tail.length + 1) := by
        rw [← happ, List.length_append, List.length_cons]
      -- the text up to the first line end, and the character that ends it
      have hx : x = '\n' ∨ x = '\r' := by
        simp only [List.head?_cons, isPlain] at hhead
        by_cases hn : x = '\n'
        · exact .inl hn
        · refine .inr ?_
          by_contra hr
          simp [hn, hr] at hhead
      rw [hcut]
      rcases hx with rfl | rfl
      · exact ⟨line, tail, rfl, by omega, by simp [cut]⟩
      · -- a `\r` takes the `\n` behind it along
        by_cases hlf : ∃ rest, tail = '\n' :: rest
        · obtain ⟨rest, rfl⟩ := hlf
          refine ⟨line, rest, rfl, ?_, by simp [cut]⟩
          rw [List.length_cons] at hlen
          omega
        · have hne : ∀ r, tail ≠ '\n' :: r := fun r hr => hlf ⟨r, hr⟩
          refine ⟨line, tail, ?_, by omega, ?_⟩
          · split
            · rename_i heq
              cases heq
            · rename_i heq
              cases heq
              exact absurd rfl (hne _)
            · rename_i heq
              cases heq
              rfl
          · simp [cut, cut_cr hne]

/-- Hand lines to `ingestLine`, in order. -/
def ingestLines (nowMs : Nat) (lines : List (List Char)) (c : CaptureBuffer) : CaptureBuffer :=
  lines.foldl (fun c line => ingestLine nowMs line c) c

/-- The lines that a chunk completes, and what stays pending.  A partial line over the size cap
is one of the lines. -/
def completed (maxLineBytes : Nat) (pending data : List Char) : List (List Char) × List Char :=
  let (lines, rest) := cut pending false data
  if maxLineBytes < byteLen rest then (lines ++ [rest], []) else (lines, rest)

@[simp] theorem ingestLine_cfg (nowMs : Nat) (line : List Char) (c : CaptureBuffer) :
    (ingestLine nowMs line c).cfg = c.cfg := by
  unfold ingestLine storeLine
  dsimp only
  split
  · rfl
  · rfl
  · split <;> rfl

/-- A line is governed and stored whatever is pending. -/
theorem ingestLine_pending (nowMs : Nat) (line pending : List Char) (c : CaptureBuffer) :
    ingestLine nowMs line { c with pending := pending }
      = { ingestLine nowMs line c with pending := pending } := by
  unfold ingestLine storeLine
  dsimp only
  split
  · rfl
  · rfl
  · split <;> rfl

@[simp] theorem ingestLines_cfg (nowMs : Nat) (lines : List (List Char)) (c : CaptureBuffer) :
    (ingestLines nowMs lines c).cfg = c.cfg := by
  induction lines generalizing c with
  | nil => rfl
  | cons line lines ih => exact (ih _).trans (ingestLine_cfg nowMs line c)

theorem ingestLines_pending (nowMs : Nat) (lines : List (List Char)) (pending : List Char)
    (c : CaptureBuffer) :
    ingestLines nowMs lines { c with pending := pending }
      = { ingestLines nowMs lines c with pending := pending } := by
  induction lines generalizing c with
  | nil => rfl
  | cons line lines ih =>
      rw [ingestLines, List.foldl_cons, ingestLine_pending]
      exact ih _

/-- The loop takes the pending text apart, with any number of rounds that is large enough. -/
theorem ingestLoop_eq {n : Nat} {c : CaptureBuffer} (nowMs : Nat) (h : c.pending.length < n) :
    ingestLoop nowMs n c
      = { ingestLines nowMs (completed c.cfg.maxLineBytes [] c.pending).1 c with
          pending := (completed c.cfg.maxLineBytes [] c.pending).2 } := by
  induction n generalizing c with
  | zero => exact absurd h (Nat.not_lt_zero _)
  | succ n ih =>
      rw [ingestLoop]
      rcases findLine_cases c.pending with ⟨hfind, hplain⟩ | ⟨line, rest, hfind, hlen, hcut⟩
      · have hcut : cut [] false c.pending = ([], c.pending) := by
          have := cut_plain hplain [] false []
          rwa [List.append_nil] at this
        rw [hfind]
        simp only [completed, hcut]
        split_ifs
        · exact ingestLine_pending nowMs c.pending [] c
        · rfl
      · have hstep : completed c.cfg.maxLineBytes [] c.pending
            = (line :: (completed c.cfg.maxLineBytes [] rest).1,
                (completed c.cfg.maxLineBytes [] rest).2) := by
          simp only [completed, hcut]
          split_ifs <;> rfl
        rw [hfind, hstep]
        dsimp only
        rw [ingestLine_pending, ih (by simpa using Nat.lt_of_lt_of_le hlen (Nat.le_of_lt_succ h)),
          ingestLines_pending, ingestLine_cfg]
        rfl

/-- **One call of `ingest`**: the lines that the chunk completes are governed and stored in
order, and the rest stays pending. -/
theorem ingest_eq {c : CaptureBuffer} (hplain : ∀ x ∈ c.pending, isPlain x) (data : List Char)
    (nowMs : Nat) :
    ingest data nowMs c
      = { ingestLines nowMs (completed c.cfg.maxLineBytes c.pending data).1 c with
          pending := (completed c.cfg.maxLineBytes c.pending data).2 } := by
  have hcut : cut [] false (c.pending ++ data) = cut c.pending false data :=
    cut_plain hplain [] false data
  have hcompleted : completed c.cfg.maxLineBytes [] (c.pending ++ data)
      = completed c.cfg.maxLineBytes c.pending data := by
    simp only [completed, hcut]
  have hloop := @ingestLoop_eq _ { c with pending := c.pending ++ data } nowMs (Nat.lt_succ_self _)
  rw [ingestLines_pending] at hloop
  refine hloop.trans ?_
  dsimp only
  rw [hcompleted]

/-- What stays pending ends no line. -/
theorem cut_rest_plain {line : List Char} (h : ∀ x ∈ line, isPlain x) (cr : Bool) (text : List Char) :
    ∀ x ∈ (cut line cr text).2, isPlain x := by
  induction text generalizing line cr with
  | nil => exact h
  | cons c cs ih =>
      have hnil : ∀ x ∈ ([] : List Char), isPlain x := fun x hx => nomatch hx
      unfold cut
      split_ifs with hlf hcr hr
      · exact ih h false
      · exact ih hnil false
      · exact ih hnil true
      · refine ih (fun x hx => ?_) false
        rcases List.mem_append.mp hx with hx | hx
        · exact h x hx
        · rw [List.mem_singleton.mp hx]
          exact isPlain_iff.mpr ⟨hlf, hr⟩

theorem ingest_plain {c : CaptureBuffer} (hplain : ∀ x ∈ c.pending, isPlain x) (data : List Char)
    (nowMs : Nat) : ∀ x ∈ (ingest data nowMs c).pending, isPlain x := by
  rw [ingest_eq hplain]
  simp only [completed]
  split_ifs
  · exact fun x hx => nomatch hx
  · exact cut_rest_plain hplain false data

/-- What stays pending is within the line cap. -/
theorem byteLen_completed (maxLineBytes : Nat) (pending data : List Char) :
    byteLen (completed maxLineBytes pending data).2 ≤ maxLineBytes := by
  simp only [completed]
  split_ifs with hover
  · exact Nat.zero_le _
  · exact Nat.not_lt.mp hover

end CaptureBuffer

end MemMux
