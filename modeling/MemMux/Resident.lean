/-
MemMux/Resident.lean

What the output of one task keeps in memory.

A capture buffer holds lines in five places: the ring, the pending partial line, and the
evicted lines, artifacts and events that wait to be drained.  The ring is bounded by its caps
(`BoundedBuffer.Bounded`), the partial line by the line cap, and the evicted lines are taken
after every pump.  Nobody drains the artifacts and the events, so the bound holds exactly as
long as no line leaves one of them (`Passes`).
-/
import MemMux.Chunking

namespace MemMux

/-! ### The ring within its caps -/

namespace BoundedBuffer

/-- **A ring within its caps**, with no entry over `maxEntry` bytes. -/
structure Bounded (maxEntry : Nat) (b : BoundedBuffer) : Prop where
  counted : b.residentBytes = (b.lines.map StoredLine.residentBytes).sum
  entry : ∀ l ∈ b.lines, l.residentBytes ≤ maxEntry
  capped : b.overCaps = false

theorem bounded_new (maxEntry : Nat) (caps : RingCaps) : Bounded maxEntry (new caps) := by
  refine ⟨rfl, fun l hl => (nomatch hl), ?_⟩
  simp [overCaps, new]

/-- **The caps bound the bytes.**  One entry stays, however large it is. -/
theorem Bounded.residentBytes_le {maxEntry : Nat} {b : BoundedBuffer} (h : Bounded maxEntry b) :
    (b.lines.map StoredLine.residentBytes).sum ≤ max b.caps.maxBytes maxEntry := by
  have hcapped := h.capped
  rw [overCaps, Bool.or_eq_false_iff, Bool.and_eq_false_iff] at hcapped
  rcases hcapped.2 with hbytes | hone
  · rw [← h.counted]
    exact le_max_of_le_left (Nat.le_of_not_lt (of_decide_eq_false hbytes))
  · have hlen : b.lines.length ≤ 1 := Nat.le_of_not_lt (of_decide_eq_false hone)
    apply le_max_of_le_right
    rcases hl : b.lines with - | ⟨l, - | ⟨l', rest⟩⟩
    · exact Nat.zero_le _
    · exact h.entry l (by rw [hl]; exact List.mem_singleton_self l)
    · rw [hl] at hlen
      exact absurd hlen (by simp)

theorem Bounded.sound {maxEntry : Nat} {b : BoundedBuffer} (h : Bounded maxEntry b) :
    Sound b.caps b :=
  ⟨rfl, h.counted, h.capped⟩

/-- **A push keeps the ring within its caps**, and every entry is an old one or as large as the line. -/
theorem Bounded.push {maxEntry : Nat} {b : BoundedBuffer} (h : Bounded maxEntry b)
    {line : StoredLine} (hline : line.residentBytes ≤ maxEntry) :
    Bounded maxEntry (b.push line) := by
  have hsound := h.sound.push line
  refine ⟨hsound.counted, ?_, hsound.capped⟩
  rcases push_cases line b with ⟨init, last, key, hinit, -, -, heq⟩ | heq
  · have hentry := h.entry
    rw [heq]
    intro l hl
    rw [hinit] at hentry
    rcases List.mem_append.mp hl with hl | hl
    · exact hentry l (List.mem_append_left _ hl)
    · rw [List.mem_singleton.mp hl, StoredLine.residentBytes_fold]
      exact hentry last (List.mem_append_right _ (List.mem_singleton_self last))
  · rw [heq]
    refine @evictWhile_keeps (fun b => ∀ l ∈ b.lines, l.residentBytes ≤ maxEntry) ?_ _ _ ?_
    · intro b' hb' l hl
      rw [popFront_lines] at hl
      exact hb' l (List.mem_of_mem_tail hl)
    · intro l hl
      rcases List.mem_append.mp hl with hl | hl
      · exact h.entry l hl
      · rw [List.mem_singleton.mp hl]
        exact hline

end BoundedBuffer

/-! ### What a capture buffer holds -/

/-- The size of an event: a tag and a 64-bit number. -/
def breachBytes : Nat := 16

namespace CaptureBuffer

/-- **The bytes held**: ring entries, the pending partial line, and what waits to be drained. -/
def heldBytes (c : CaptureBuffer) : Nat :=
  (c.buffer.lines.map StoredLine.residentBytes).sum + byteLen c.pending
    + (c.buffer.evicted.map StoredLine.residentBytes).sum
    + (c.artifacts.map fun a => byteLen a.content + a.artifactRef.utf8ByteSize).sum
    + c.events.length * breachBytes

/-- What the ring caps and the line cap allow: a full ring, or one entry over the cap on bytes; a
partial line; and the one event of an exhausted quota. -/
def heldBound (caps : RingCaps) (maxLineBytes : Nat) : Nat :=
  max caps.maxBytes (maxLineBytes + lineOverheadBytes) + maxLineBytes + breachBytes

/-- **The line leaves nothing that nobody drains**: it is not stored as an artifact, and it does not
start a new breach of the rate. -/
def Passes (nowMs : Nat) (c : CaptureBuffer) (line : List Char) : Prop :=
  ((c.governor.onLine (byteLen line) nowMs).2.decision = .store → byteLen line ≤ c.cfg.maxLineBytes)
    ∧ ∀ e ∈ (c.governor.onLine (byteLen line) nowMs).2.event, e.ofRate = false

instance (nowMs : Nat) (c : CaptureBuffer) (line : List Char) : Decidable (Passes nowMs c line) :=
  inferInstanceAs (Decidable ((_ → _) ∧ ∀ e ∈ _, _))

/-- Every line that the chunk completes passes. -/
def ChunkPasses (nowMs : Nat) (c : CaptureBuffer) (chunk : List UInt8) : Prop :=
  Run.Allowed (fun c line => ingestLine nowMs line c) (Passes nowMs) c
    (completed c.cfg.maxLineBytes c.pending (Utf8.fromUtf8Lossy chunk)).1

instance (nowMs : Nat) (c : CaptureBuffer) (chunk : List UInt8) :
    Decidable (ChunkPasses nowMs c chunk) :=
  inferInstanceAs (Decidable (Run.Allowed _ _ _ _))

/-- **A capture buffer that holds only what its caps allow**, the evicted lines apart. -/
structure Small (cfg : CaptureConfig) (c : CaptureBuffer) : Prop where
  config : c.cfg = cfg
  caps : c.buffer.caps = cfg.ring
  ring : c.buffer.Bounded (cfg.maxLineBytes + lineOverheadBytes)
  artifacts : c.artifacts = []
  events : c.events.length ≤ c.governor.quotaBreached.toNat

end CaptureBuffer

/-- An exhausted quota is reported once. -/
theorem OutputGovernor.onLine_events {bytes nowMs : Nat} {g : OutputGovernor}
    (h : ∀ e ∈ (g.onLine bytes nowMs).2.event, e.ofRate = false) :
    g.quotaBreached.toNat + (g.onLine bytes nowMs).2.event.toList.length
      ≤ (g.onLine bytes nowMs).1.quotaBreached.toNat := by
  revert h
  rw [onLine_eq]
  have hevent (e : GovernanceBreach) (he : e ∈ g.rateEvent nowMs) : e.ofRate = true := by
    unfold rateEvent at he
    split_ifs at he
    · exact nomatch he
    · rw [← Option.some.inj he]
      rfl
  have hnone (h : ∀ e ∈ g.rateEvent nowMs, e.ofRate = false) : g.rateEvent nowMs = none := by
    rcases hrate : g.rateEvent nowMs with - | e
    · rfl
    · exact absurd (h e hrate) (by simp [hevent e hrate])
  split_ifs with hquota hseen hrate hkeep <;> intro h
  · simp [hseen]
  · simp [hseen]
  · simp [hnone h, count]
  · simp [hnone h, count]
  · simp [count]

namespace CaptureBuffer

variable {cfg : CaptureConfig} {c : CaptureBuffer}

theorem small_new (cfg : CaptureConfig) : Small cfg (new cfg) :=
  ⟨rfl, rfl, BoundedBuffer.bounded_new _ _, rfl, Nat.zero_le _⟩

/-- **A line that passes leaves the buffer small.** -/
theorem Small.ingestLine (h : Small cfg c) {nowMs : Nat} {line : List Char}
    (hpass : Passes nowMs c line) : Small cfg (ingestLine nowMs line c) := by
  have hevents : (c.events ++ (c.governor.onLine (byteLen line) nowMs).2.event.toList).length
      ≤ (c.governor.onLine (byteLen line) nowMs).1.quotaBreached.toNat := by
    rw [List.length_append]
    exact Nat.le_trans (Nat.add_le_add_right h.events _) (OutputGovernor.onLine_events hpass.2)
  unfold CaptureBuffer.ingestLine
  dsimp only
  cases hdec : (c.governor.onLine (byteLen line) nowMs).2.decision with
  | sampledOut => exact ⟨h.config, h.caps, h.ring, h.artifacts, hevents⟩
  | quotaExceeded => exact ⟨h.config, h.caps, h.ring, h.artifacts, hevents⟩
  | store =>
      have hlen := hpass.1 hdec
      have hentry : (StoredLine.text line).residentBytes ≤ cfg.maxLineBytes + lineOverheadBytes := by
        rw [← h.config]
        exact Nat.add_le_add_right hlen _
      simp only [storeLine, truncateLine, if_pos hlen]
      exact ⟨h.config, (BoundedBuffer.push_caps _ _).trans h.caps, h.ring.push hentry, h.artifacts,
        hevents⟩

/-- Between two chunks: a partial line within the line cap is all that is kept besides. -/
structure Settled (cfg : CaptureConfig) (c : CaptureBuffer) : Prop extends Small cfg c where
  plain : ∀ x ∈ c.pending, isPlain x
  partialLine : byteLen c.pending ≤ cfg.maxLineBytes

theorem settled_new (cfg : CaptureConfig) : Settled cfg (new cfg) :=
  ⟨small_new cfg, fun _ hx => (nomatch hx), Nat.zero_le _⟩

/-- **A chunk whose lines pass leaves the buffer settled.** -/
theorem Settled.ingest (h : Settled cfg c) {nowMs : Nat} {chunk : List UInt8}
    (hpass : ChunkPasses nowMs c chunk) :
    Settled cfg (c.ingest (Utf8.fromUtf8Lossy chunk) nowMs) := by
  have hplain := ingest_plain h.plain (Utf8.fromUtf8Lossy chunk) nowMs
  rw [ingest_eq h.plain] at hplain ⊢
  have hsmall : Small cfg (Run.run (fun c line => CaptureBuffer.ingestLine nowMs line c) c _) :=
    Run.invariant (fun _ _ hc hline => hc.ingestLine hline) h.toSmall hpass
  refine ⟨⟨hsmall.config, hsmall.caps, hsmall.ring, hsmall.artifacts, hsmall.events⟩, hplain, ?_⟩
  rw [← h.config]
  exact byteLen_completed _ _ _

/-- **A settled buffer without evicted lines is within the bound.** -/
theorem Settled.heldBytes_le (h : Settled cfg c) (hevicted : c.buffer.evicted = []) :
    c.heldBytes ≤ heldBound cfg.ring cfg.maxLineBytes := by
  have hring := h.ring.residentBytes_le
  have hevents : c.events.length * breachBytes ≤ breachBytes := by
    have hone : c.events.length ≤ 1 := Nat.le_trans h.events (Bool.toNat_le _)
    exact Nat.le_trans (Nat.mul_le_mul_right _ hone) (Nat.le_of_eq (Nat.one_mul _))
  rw [h.caps] at hring
  unfold heldBytes heldBound
  rw [hevicted, h.artifacts, List.map_nil, List.map_nil, List.sum_nil, Nat.add_zero, Nat.add_zero]
  exact Nat.add_le_add (Nat.add_le_add hring h.partialLine) hevents

end CaptureBuffer

/-! ### Pumping and taking -/

/-- What happens to the output of a task that the daemon only pumps. -/
inductive OutputEvent
  /-- the provider or its reader thread does something -/
  | provider (a : ProviderAct)
  /-- `pump`, followed by `take_evicted` -/
  | pump (nowMs : Nat)
  deriving DecidableEq, Repr

namespace RuntimeOutput

def outputStep (rt : RuntimeOutput) : OutputEvent → RuntimeOutput
  | .provider a => rt.act a
  | .pump nowMs => (rt.pump nowMs).takeEvicted.2

/-- Every line that the pump completes passes. -/
def AllPass (rt : RuntimeOutput) : OutputEvent → Prop
  | .provider _ => True
  | .pump nowMs =>
      Run.Allowed (fun c chunk => c.ingest (Utf8.fromUtf8Lossy chunk) nowMs)
        (CaptureBuffer.ChunkPasses nowMs) rt.capture rt.session.outputRx

instance (rt : RuntimeOutput) : (e : OutputEvent) → Decidable (AllPass rt e)
  | .provider _ => isTrue trivial
  | .pump _ => inferInstanceAs (Decidable (Run.Allowed _ _ _ _))

/-- One pump keeps the buffer settled, and the evicted lines are taken. -/
theorem settled_outputStep {cfg : CaptureConfig} (rt : RuntimeOutput) (e : OutputEvent)
    (h : rt.capture.Settled cfg ∧ rt.capture.buffer.evicted = []) (hpass : AllPass rt e) :
    (rt.outputStep e).capture.Settled cfg ∧ (rt.outputStep e).capture.buffer.evicted = [] := by
  cases e with
  | provider a => exact h
  | pump nowMs =>
      have hchunks : (Run.run (fun c chunk => c.ingest (Utf8.fromUtf8Lossy chunk) nowMs) rt.capture
          rt.session.outputRx).Settled cfg :=
        Run.invariant (fun _ _ hc hchunk => hc.ingest hchunk) h.1 hpass
      have hpumped : (rt.pump nowMs).capture.Settled cfg := by
        rw [pump_capture]
        exact hchunks
      refine ⟨⟨⟨hpumped.config, hpumped.caps, ?_, hpumped.artifacts, hpumped.events⟩, hpumped.plain,
        hpumped.partialLine⟩, rfl⟩
      exact ⟨hpumped.ring.counted, hpumped.ring.entry, hpumped.ring.capped⟩

/-- **No memory growth with historical output**, as long as every line passes: after any number of
pumps the capture buffer holds no more than its ring caps and its line cap allow. -/
theorem held_le_bound {cfg : CaptureConfig} {nowMs : Nat} {es : List OutputEvent}
    (hpass : Run.Allowed outputStep AllPass (withOutput cfg nowMs []) es) :
    (Run.run outputStep (withOutput cfg nowMs []) es).capture.heldBytes
      ≤ CaptureBuffer.heldBound cfg.ring cfg.maxLineBytes := by
  have h := Run.invariant settled_outputStep ⟨CaptureBuffer.settled_new cfg, rfl⟩ hpass
  exact h.1.heldBytes_le h.2

/-- Three short lines, printed and pumped under the default configuration, are within the bound. -/
theorem held_le_bound_short :
    (Run.run outputStep (withOutput .default 0 []) [.provider (.write [0x61, 0x0A, 0x61, 0x0A, 0x62]),
        .provider (.read 8192), .pump 1]).capture.heldBytes
      ≤ CaptureBuffer.heldBound .default (64 * 1024) :=
  held_le_bound (by decide +kernel)

end RuntimeOutput

/-! ### A breach of the rate in every second -/

namespace OutputGovernor

/-- So many empty lines have come in this second, and the rate is not breached. -/
structure Calm (cfg : GovernanceConfig) (nowMs lines : Nat) (g : OutputGovernor) : Prop
    extends Used cfg nowMs lines 0 g where
  inactive : (g.slide nowMs).rateBreachActive = false

/-- A second later the window starts anew. -/
theorem calm_of_later {cfg : GovernanceConfig} {nowMs : Nat} {g : OutputGovernor} (hcfg : g.cfg = cfg)
    (hbytes : g.artifactBytes = 0) (hlater : g.windowStartMs + 1000 ≤ nowMs) : Calm cfg nowMs 0 g := by
  have hslide : 1000 ≤ nowMs - g.windowStartMs := Nat.le_sub_of_add_le' hlater
  refine ⟨⟨hcfg, ?_, hbytes⟩, ?_⟩ <;> simp [slide, hslide]

/-- An empty line always fits. -/
theorem not_overQuota_zero {g : OutputGovernor} (hbytes : g.artifactBytes = 0) : ¬ g.overQuota 0 := by
  rw [overQuota, hbytes]
  exact Nat.not_lt_zero _

/-- **An empty line below the rate** is counted, and raises no event. -/
theorem Calm.below {cfg : GovernanceConfig} {nowMs lines : Nat} {g : OutputGovernor}
    (h : Calm cfg nowMs lines g) (hbelow : lines < cfg.sampleAboveLinesPerSec) :
    Calm cfg nowMs (lines + 1) (g.onLine 0 nowMs).1 := by
  refine ⟨(@Used.onLine _ _ _ _ 0 _ h.toUsed hbelow (Nat.zero_le _)).2, ?_⟩
  have hcalm : ¬ g.overRate nowMs := by
    rw [overRate, h.config, h.lines]
    exact Nat.not_lt.mpr hbelow
  rw [onLine_eq, if_neg (not_overQuota_zero h.bytes), if_neg hcalm]
  have hinactive : (g.count nowMs).rateBreachActive = false := h.inactive
  rw [← hinactive]
  conv_rhs => rw [← slide_count nowMs g]
  unfold slide
  split_ifs <;> rfl

/-- **An empty line over the rate** raises an event. -/
theorem Calm.above {cfg : GovernanceConfig} {nowMs : Nat} {g : OutputGovernor}
    (h : Calm cfg nowMs cfg.sampleAboveLinesPerSec g) : (g.onLine 0 nowMs).2.event ≠ none := by
  have hrate : g.overRate nowMs := by
    rw [overRate, h.config, h.lines]
    exact Nat.lt_succ_self _
  rw [onLine_eq, if_neg (not_overQuota_zero h.bytes), if_pos hrate]
  split_ifs <;> simp [rateEvent, h.inactive]

/-- A governor that has seen nothing but empty lines, up to `nowMs`. -/
structure Idle (cfg : GovernanceConfig) (nowMs : Nat) (g : OutputGovernor) : Prop where
  config : g.cfg = cfg
  bytes : g.artifactBytes = 0
  window : g.windowStartMs ≤ nowMs

theorem Idle.onLine {cfg : GovernanceConfig} {nowMs : Nat} {g : OutputGovernor}
    (h : Idle cfg nowMs g) : Idle cfg nowMs (g.onLine 0 nowMs).1 := by
  have hslide : (g.slide nowMs).windowStartMs ≤ nowMs := by
    unfold slide
    split_ifs
    · exact Nat.le_refl _
    · exact h.window
  have hcfg : (g.slide nowMs).cfg = cfg := (slide_cfg nowMs g).trans h.config
  have hbytes : (g.slide nowMs).artifactBytes = 0 := (slide_artifactBytes nowMs g).trans h.bytes
  have hadded : (g.artifactBytes + 0) % u64Size = 0 := by rw [h.bytes]; rfl
  rw [onLine_eq, if_neg (not_overQuota_zero h.bytes)]
  split_ifs
  · exact ⟨hcfg, hadded, hslide⟩
  · exact ⟨hcfg, hbytes, hslide⟩
  · exact ⟨hcfg, hadded, hslide⟩

end OutputGovernor

namespace CaptureBuffer

@[simp] theorem ingestLine_governor (nowMs : Nat) (line : List Char) (c : CaptureBuffer) :
    (ingestLine nowMs line c).governor = (c.governor.onLine (byteLen line) nowMs).1 := by
  unfold ingestLine storeLine
  dsimp only
  split
  · rfl
  · rfl
  · split <;> rfl

@[simp] theorem ingestLine_events (nowMs : Nat) (line : List Char) (c : CaptureBuffer) :
    (ingestLine nowMs line c).events
      = c.events ++ (c.governor.onLine (byteLen line) nowMs).2.event.toList := by
  unfold ingestLine storeLine
  dsimp only
  split
  · rfl
  · rfl
  · split <;> rfl

/-- Events are only added. -/
theorem events_ingestLines (nowMs : Nat) (lines : List (List Char)) (c : CaptureBuffer) :
    c.events.length ≤ (ingestLines nowMs lines c).events.length := by
  induction lines generalizing c with
  | nil => exact Nat.le_refl _
  | cons line lines ih =>
      refine Nat.le_trans ?_ (ih (ingestLine nowMs line c))
      rw [ingestLine_events, List.length_append]
      exact Nat.le_add_right _ _

/-- **Too many empty lines in one second raise an event.** -/
theorem events_of_burst {cfg : GovernanceConfig} {nowMs lines n : Nat} {c : CaptureBuffer}
    (h : c.governor.Calm cfg nowMs lines) (hle : lines ≤ cfg.sampleAboveLinesPerSec)
    (hburst : cfg.sampleAboveLinesPerSec < lines + n) :
    c.events.length + 1 ≤ (ingestLines nowMs (List.replicate n []) c).events.length := by
  induction n generalizing lines c with
  | zero => exact absurd (Nat.lt_of_lt_of_le hburst hle) (Nat.lt_irrefl _)
  | succ n ih =>
      have hstep : (ingestLine nowMs [] c).governor = (c.governor.onLine 0 nowMs).1 :=
        ingestLine_governor nowMs [] c
      rw [List.replicate_succ]
      show _ ≤ (ingestLines nowMs (List.replicate n []) (ingestLine nowMs [] c)).events.length
      rcases Nat.lt_or_eq_of_le hle with hbelow | rfl
      · have hnext := h.below hbelow
        rw [← hstep] at hnext
        refine Nat.le_trans (Nat.add_le_add_right ?_ 1) (ih hnext hbelow (by omega))
        rw [ingestLine_events, List.length_append]
        exact Nat.le_add_right _ _
      · refine Nat.le_trans ?_ (events_ingestLines nowMs _ _)
        obtain ⟨e, he⟩ := Option.ne_none_iff_exists'.mp h.above
        have hevent : (c.governor.onLine (byteLen []) nowMs).2.event = some e := he
        rw [ingestLine_events, hevent]
        simp

/-- Empty lines leave the governor idle. -/
theorem idle_ingestLines {cfg : GovernanceConfig} {nowMs : Nat} {c : CaptureBuffer}
    (h : c.governor.Idle cfg nowMs) (n : Nat) :
    (ingestLines nowMs (List.replicate n []) c).governor.Idle cfg nowMs := by
  induction n generalizing c with
  | zero => exact h
  | succ n ih =>
      have hnext := h.onLine
      rw [← show (ingestLine nowMs [] c).governor = (c.governor.onLine 0 nowMs).1 from
        ingestLine_governor nowMs [] c] at hnext
      exact ih hnext

end CaptureBuffer

/-- `n` line feeds. -/
def lineFeeds (n : Nat) : List UInt8 := List.replicate n 0x0A

theorem fromUtf8Lossy_lineFeeds (n : Nat) :
    Utf8.fromUtf8Lossy (lineFeeds n) = List.replicate n '\n' := by
  have hfeed : Utf8.feedAll none (lineFeeds n) = (List.replicate n '\n', none) := by
    induction n with
    | zero => rfl
    | succ n ih =>
        have hlead : Utf8.feed none 0x0A = (['\n'], none) := Utf8.feed_ascii none (by decide)
        rw [lineFeeds, List.replicate_succ, Utf8.feedAll, hlead, ← lineFeeds, ih]
        rfl
  rw [Utf8.fromUtf8Lossy, hfeed]
  simp

theorem cut_lineFeeds (n : Nat) :
    Lines.cut [] false (List.replicate n '\n') = (List.replicate n [], []) := by
  induction n with
  | zero => rfl
  | succ n ih =>
      rw [List.replicate_succ, Lines.cut, ih]
      rfl

namespace RuntimeOutput

/-- In one second: so many empty lines. -/
def burst (size k : Nat) : List OutputEvent :=
  [.provider (.write (lineFeeds size)), .provider (.read 8192), .pump (1000 * (k + 1))]

def bursts (size n : Nat) : List OutputEvent := (List.range n).flatMap (burst size)

/-- After `k` bursts: at least as many events wait to be drained. -/
structure Burst (k : Nat) (rt : RuntimeOutput) : Prop where
  session : rt.session = .spawn
  config : rt.capture.cfg = .default
  pending : rt.capture.pending = []
  governor : rt.capture.governor.Idle .default (1000 * k)
  events : k ≤ rt.capture.events.length

/-- The reader thread takes all that fits into its buffer. -/
theorem spawn_write_read {bytes : List UInt8} (hne : bytes ≠ []) (hlen : bytes.length ≤ 8192) :
    (PtySession.spawn.act (.write bytes)).act (.read 8192) = ⟨[], [bytes], true⟩ := by
  have htake : bytes.take (min 8192 8192) = bytes := List.take_of_length_le hlen
  have hdrop : bytes.drop (min 8192 8192) = [] := List.drop_eq_nil_of_le hlen
  simp only [PtySession.act, PtySession.spawn, if_true, List.nil_append, htake, hdrop, if_neg hne]

theorem completed_lineFeeds (maxLineBytes n : Nat) :
    CaptureBuffer.completed maxLineBytes [] (List.replicate n '\n') = (List.replicate n [], []) := by
  simp only [CaptureBuffer.completed, cut_lineFeeds]
  exact if_neg (Nat.not_lt_zero _)

/-- **A burst leaves an event behind.** -/
theorem Burst.next {k size : Nat} {rt : RuntimeOutput} (h : Burst k rt) (hover : 5000 < size)
    (hread : size ≤ 8192) : Burst (k + 1) (Run.run outputStep rt (burst size k)) := by
  have hsession : (rt.session.act (.write (lineFeeds size))).act (.read 8192)
      = ⟨[], [lineFeeds size], true⟩ := by
    rw [h.session]
    have hlen : (lineFeeds size).length = size := List.length_replicate
    exact spawn_write_read (List.ne_nil_of_length_pos (by omega)) (by omega)
  have hplain : ∀ x ∈ rt.capture.pending, CaptureBuffer.isPlain x := by
    rw [h.pending]
    exact fun x hx => nomatch hx
  -- one write, one read, one pump, and what was evicted is taken
  have hrun : Run.run outputStep rt (burst size k)
      = (({ rt with session := ⟨[], [lineFeeds size], true⟩ } : RuntimeOutput).pump
          (1000 * (k + 1))).takeEvicted.2 := by
    show (((rt.act _).act _).pump _).takeEvicted.2 = _
    simp only [act, hsession]
  have hpumped : (({ rt with session := ⟨[], [lineFeeds size], true⟩ } : RuntimeOutput).pump
        (1000 * (k + 1))).capture
      = { CaptureBuffer.ingestLines (1000 * (k + 1)) (List.replicate size []) rt.capture with
          pending := [] } := by
    rw [pump_capture]
    show rt.capture.ingest (Utf8.fromUtf8Lossy (lineFeeds size)) (1000 * (k + 1)) = _
    rw [CaptureBuffer.ingest_eq hplain, fromUtf8Lossy_lineFeeds, h.pending, completed_lineFeeds]
  -- a second later the window of the governor is a new one
  have hlater : rt.capture.governor.windowStartMs + 1000 ≤ 1000 * (k + 1) :=
    Nat.add_le_add_right h.governor.window 1000
  have hcalm := OutputGovernor.calm_of_later h.governor.config h.governor.bytes hlater
  have hidle : rt.capture.governor.Idle .default (1000 * (k + 1)) :=
    ⟨h.governor.config, h.governor.bytes, Nat.le_trans (Nat.le_add_right _ _) hlater⟩
  rw [hrun]
  refine ⟨?_, ?_, ?_, ?_, ?_⟩
  · exact pump_session _ _
  all_goals simp only [takeEvicted, CaptureBuffer.drainEvicted, hpumped]
  · exact (CaptureBuffer.ingestLines_cfg _ _ _).trans h.config
  · exact CaptureBuffer.idle_ingestLines hidle size
  · refine Nat.le_trans (Nat.add_le_add_right h.events 1) ?_
    exact CaptureBuffer.events_of_burst hcalm (Nat.zero_le _) (by rwa [Nat.zero_add])

theorem burst_bursts {size : Nat} (hover : 5000 < size) (hread : size ≤ 8192) (n : Nat) :
    Burst n (Run.run outputStep (withOutput .default 0 []) (bursts size n)) := by
  induction n with
  | zero => exact ⟨rfl, rfl, rfl, ⟨rfl, rfl, Nat.zero_le _⟩, Nat.zero_le _⟩
  | succ n ih =>
      rw [bursts, List.range_succ, List.flatMap_append, Run.run_append, List.flatMap_singleton]
      exact ih.next hover hread

/-- **Under the default configuration the bytes held have no bound at all**: 5001 empty lines in every
second add an event in every second. -/
theorem held_unbounded :
    ¬ ∃ bound, ∀ es, (Run.run outputStep (withOutput .default 0 []) es).capture.heldBytes ≤ bound := by
  rintro ⟨bound, hbound⟩
  have hevents := (@burst_bursts 5001 (by decide) (by decide) (bound + 1)).events
  have hheld := hbound (bursts 5001 (bound + 1))
  rw [CaptureBuffer.heldBytes, breachBytes] at hheld
  omega

end RuntimeOutput

end MemMux
