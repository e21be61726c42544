/-
MemMux/Chunking.lean

Captured lines and the chunks the PTY happens to deliver.

Within the governance limits, and with no line over the size cap, the capture pipeline stores
exactly the lines that a `Lines.Reader` reads which pauses after every chunk
(`captureChunks_spec`), and the stored entries say which lines they were.  Whether two ways of
splitting the output agree is therefore a question about `Lines.CleanSplit`.
-/
import MemMux.Session

namespace MemMux

open Lines

/-! ### Captured lines -/

/-- A runtime that has just been spawned, with the given chunks in its channel. -/
def RuntimeOutput.withOutput (cfg : CaptureConfig) (nowMs : Nat) (chunks : List (List UInt8)) :
    RuntimeOutput :=
  ⟨⟨[], chunks, true⟩, .new cfg, nowMs, false, []⟩

/-- The capture buffer after the chunks were pumped into it. -/
def captureChunks (cfg : CaptureConfig) (nowMs : Nat) (chunks : List (List UInt8)) : CaptureBuffer :=
  ((RuntimeOutput.withOutput cfg nowMs chunks).pump nowMs).capture

/-- The lines stored, those evicted included. -/
def capturedLines (cfg : CaptureConfig) (nowMs : Nat) (chunks : List (List UInt8)) :
    List StoredLine :=
  (captureChunks cfg nowMs chunks).buffer.entries

/-- The bytes of some lines together. -/
def totalBytes (lines : List (List Char)) : Nat := (lines.map byteLen).sum

theorem totalBytes_append (ls ms : List (List Char)) :
    totalBytes (ls ++ ms) = totalBytes ls + totalBytes ms := by
  simp [totalBytes]

/-- **Output within the limits**: every line, and the one under way at the end, is within the size
cap, and all of them together are within the rate and the quota. -/
structure Within (cfg : CaptureConfig) (chunks : List (List UInt8)) : Prop where
  lines : ∀ line ∈ readChunks chunks, byteLen line ≤ cfg.maxLineBytes
  rest : byteLen (Reader.start.chunks chunks).line ≤ cfg.maxLineBytes
  rate : (readChunks chunks).length ≤ cfg.governance.sampleAboveLinesPerSec
  quota : totalBytes (readChunks chunks) ≤ cfg.governance.maxLogArtifactBytes

instance (cfg : CaptureConfig) (chunks : List (List UInt8)) : Decidable (Within cfg chunks) :=
  decidable_of_iff
    ((∀ line ∈ readChunks chunks, byteLen line ≤ cfg.maxLineBytes)
      ∧ byteLen (Reader.start.chunks chunks).line ≤ cfg.maxLineBytes
      ∧ (readChunks chunks).length ≤ cfg.governance.sampleAboveLinesPerSec
      ∧ totalBytes (readChunks chunks) ≤ cfg.governance.maxLogArtifactBytes)
    ⟨fun h => ⟨h.1, h.2.1, h.2.2.1, h.2.2.2⟩, fun h => ⟨h.lines, h.rest, h.rate, h.quota⟩⟩

/-! ### The governor within its limits -/

namespace OutputGovernor

/-- What the governor has counted at `nowMs`. -/
structure Used (cfg : GovernanceConfig) (nowMs lines bytes : Nat) (g : OutputGovernor) : Prop where
  config : g.cfg = cfg
  lines : (g.slide nowMs).linesThisWindow = lines
  bytes : g.artifactBytes = bytes % u64Size

theorem used_new (cfg : GovernanceConfig) (nowMs : Nat) : Used cfg nowMs 0 0 (new cfg) := by
  refine ⟨rfl, ?_, rfl⟩
  unfold slide
  split_ifs <;> rfl

/-- **A line within the limits is stored**, and raises no event. -/
theorem Used.onLine {cfg : GovernanceConfig} {nowMs lines bytes size : Nat} {g : OutputGovernor}
    (h : Used cfg nowMs lines bytes g) (hrate : lines + 1 ≤ cfg.sampleAboveLinesPerSec)
    (hquota : bytes + size ≤ cfg.maxLogArtifactBytes) :
    (g.onLine size nowMs).2 = ⟨.store, none⟩
      ∧ Used cfg nowMs (lines + 1) (bytes + size) (g.onLine size nowMs).1 := by
  have hfits : ¬ g.overQuota size := by
    rw [overQuota, h.config, h.bytes]
    exact Nat.not_lt.mpr ((satAdd_le _ _).trans ((Nat.add_le_add_right (Nat.mod_le _ _) _).trans hquota))
  have hcalm : ¬ g.overRate nowMs := by
    rw [overRate, h.config, h.lines]
    exact Nat.not_lt.mpr hrate
  rw [onLine_eq, if_neg hfits, if_neg hcalm]
  refine ⟨rfl, (slide_cfg nowMs g).trans h.config, ?_, ?_⟩
  · have hlines : (g.count nowMs).linesThisWindow = lines + 1 := congrArg (· + 1) h.lines
    rw [← hlines, ← slide_count nowMs g]
    unfold slide
    split_ifs <;> rfl
  · show (g.artifactBytes + size) % u64Size = (bytes + size) % u64Size
    rw [h.bytes, Nat.mod_add_mod]

end OutputGovernor

/-! ### Capture as reading -/

/-- Store lines as they are. -/
def pushLines (lines : List (List Char)) (b : BoundedBuffer) : BoundedBuffer :=
  lines.foldl (fun b line => b.push (.text line)) b

theorem pushLines_append (ls ms : List (List Char)) (b : BoundedBuffer) :
    pushLines (ls ++ ms) b = pushLines ms (pushLines ls b) := List.foldl_append

/-- **The capture buffer stands where the reader stands.** -/
structure Tracks (cfg : CaptureConfig) (nowMs : Nat) (r : Reader) (c : CaptureBuffer) : Prop where
  config : c.cfg = cfg
  paused : r.dec = none ∧ r.cr = false
  pending : c.pending = r.line
  plain : ∀ x ∈ c.pending, CaptureBuffer.isPlain x
  buffer : c.buffer = pushLines r.out (.new cfg.ring)
  used : OutputGovernor.Used cfg.governance nowMs r.out.length (totalBytes r.out) c.governor

/-- The lines of a chunk are stored one by one, as long as they are within the limits. -/
theorem ingestLines_within {cfg : CaptureConfig} {nowMs : Nat} {c : CaptureBuffer}
    {lines : List (List Char)} {n bytes : Nat} (hcfg : c.cfg = cfg)
    (hused : OutputGovernor.Used cfg.governance nowMs n bytes c.governor)
    (hsize : ∀ line ∈ lines, byteLen line ≤ cfg.maxLineBytes)
    (hrate : n + lines.length ≤ cfg.governance.sampleAboveLinesPerSec)
    (hquota : bytes + totalBytes lines ≤ cfg.governance.maxLogArtifactBytes) :
    (CaptureBuffer.ingestLines nowMs lines c).buffer = pushLines lines c.buffer
      ∧ OutputGovernor.Used cfg.governance nowMs (n + lines.length) (bytes + totalBytes lines)
          (CaptureBuffer.ingestLines nowMs lines c).governor := by
  induction lines generalizing c n bytes with
  | nil => exact ⟨rfl, hused⟩
  | cons line lines ih =>
      have hfirst : bytes + byteLen line ≤ cfg.governance.maxLogArtifactBytes := by
        rw [totalBytes, List.map_cons, List.sum_cons] at hquota
        omega
      rw [List.length_cons] at hrate
      obtain ⟨hstore, hnext⟩ := hused.onLine (by omega) hfirst
      have hkept : truncateLine line c.cfg.maxLineBytes = .kept line := by
        rw [truncateLine, hcfg, if_pos (hsize line List.mem_cons_self)]
      -- a line within the limits is stored whole, and nothing is reported
      have hline : CaptureBuffer.ingestLine nowMs line c
          = { c with
              governor := (c.governor.onLine (byteLen line) nowMs).1
              events := c.events ++ []
              buffer := c.buffer.push (.text line) } := by
        unfold CaptureBuffer.ingestLine CaptureBuffer.storeLine
        dsimp only
        rw [hstore]
        dsimp only
        rw [hkept]
        rfl
      obtain ⟨hbuf, hgov⟩ := @ih (CaptureBuffer.ingestLine nowMs line c) (n + 1)
        (bytes + byteLen line) (by rw [hline]; exact hcfg) (by rw [hline]; exact hnext)
        (fun l hl => hsize l (List.mem_cons_of_mem _ hl)) (by omega)
        (by rw [totalBytes, List.map_cons, List.sum_cons] at hquota; rw [totalBytes]; omega)
      refine ⟨?_, ?_⟩
      · rw [hline] at hbuf
        show (CaptureBuffer.ingestLines nowMs lines
          (CaptureBuffer.ingestLine nowMs line c)).buffer = _
        rw [hline, hbuf]
        rfl
      · have htotal : bytes + totalBytes (line :: lines)
            = bytes + byteLen line + totalBytes lines := by
          simp [totalBytes, Nat.add_assoc]
        have hlen : n + (line :: lines).length = n + 1 + lines.length := by
          rw [List.length_cons]
          omega
        rw [htotal, hlen]
        exact hgov

/-- The limits of a whole run are limits of its parts. -/
def Limited (cfg : CaptureConfig) (r : Reader) : Prop :=
  (∀ line ∈ r.out, byteLen line ≤ cfg.maxLineBytes) ∧ byteLen r.line ≤ cfg.maxLineBytes
    ∧ r.out.length ≤ cfg.governance.sampleAboveLinesPerSec
    ∧ totalBytes r.out ≤ cfg.governance.maxLogArtifactBytes

theorem Limited.of_grows {cfg : CaptureConfig} {r s : Reader} (hs : Limited cfg s) (h : Reader.Grows r s) :
    Limited cfg r := by
  obtain ⟨hlines, hrest, hrate, hquota⟩ := hs
  obtain ⟨hout, l, hl, hline⟩ := h
  refine ⟨fun line hmem => hlines line (hout.subset hmem), ?_, hout.length_le.trans hrate, ?_⟩
  · have hle : byteLen r.line ≤ byteLen l := by
      obtain ⟨t, rfl⟩ := hline
      rw [byteLen_append]
      exact Nat.le_add_right _ _
    rcases hl with hl | rfl
    · exact hle.trans (hlines l hl)
    · exact hle.trans hrest
  · obtain ⟨t, ht⟩ := hout
    refine le_trans ?_ hquota
    rw [← ht, totalBytes, totalBytes, List.map_append, List.sum_append]
    exact Nat.le_add_right _ _

/-- **One chunk.** -/
theorem Tracks.chunk {cfg : CaptureConfig} {nowMs : Nat} {r : Reader} {c : CaptureBuffer}
    (h : Tracks cfg nowMs r c) (bs : List UInt8) (hlim : Limited cfg (r.chunk bs)) :
    Tracks cfg nowMs (r.chunk bs) (c.ingest (Utf8.fromUtf8Lossy bs) nowMs) := by
  have hchunk := chunk_eq h.paused.1 h.paused.2 bs
  have hingest := CaptureBuffer.ingest_eq h.plain (Utf8.fromUtf8Lossy bs) nowMs
  rw [hchunk] at hlim ⊢
  obtain ⟨hlines, hrest, hrate, hquota⟩ := hlim
  have hcompleted : CaptureBuffer.completed c.cfg.maxLineBytes c.pending (Utf8.fromUtf8Lossy bs)
      = cut r.line false (Utf8.fromUtf8Lossy bs) := by
    rw [CaptureBuffer.completed, h.pending, h.config]
    exact if_neg (Nat.not_lt.mpr hrest)
  rw [hcompleted] at hingest
  obtain ⟨hbuf, hgov⟩ := @ingestLines_within cfg nowMs c (cut r.line false (Utf8.fromUtf8Lossy bs)).1
    r.out.length (totalBytes r.out) h.config h.used
    (fun line hl => hlines line (List.mem_append_right _ hl))
    (by rw [← List.length_append]; exact hrate)
    (by rw [← totalBytes_append]; exact hquota)
  refine ⟨?_, ⟨rfl, rfl⟩, ?_, CaptureBuffer.ingest_plain h.plain _ nowMs, ?_, ?_⟩
  · rw [hingest]
    exact (CaptureBuffer.ingestLines_cfg nowMs _ c).trans h.config
  · rw [hingest]
  · rw [hingest, pushLines_append, ← h.buffer]
    exact hbuf
  · rw [hingest, List.length_append, totalBytes_append]
    exact hgov

theorem Tracks.chunks {cfg : CaptureConfig} {nowMs : Nat} {r : Reader} {c : CaptureBuffer}
    (h : Tracks cfg nowMs r c) (cs : List (List UInt8)) (hlim : Limited cfg (r.chunks cs)) :
    Tracks cfg nowMs (r.chunks cs)
      (cs.foldl (fun c bs => c.ingest (Utf8.fromUtf8Lossy bs) nowMs) c) := by
  induction cs generalizing r c with
  | nil => exact h
  | cons bs cs ih => exact ih (h.chunk bs (hlim.of_grows (Reader.grows_chunks _ cs))) hlim

theorem tracks_new (cfg : CaptureConfig) (nowMs : Nat) :
    Tracks cfg nowMs .start (.new cfg) :=
  ⟨rfl, ⟨rfl, rfl⟩, rfl, fun _ hx => (nomatch hx), rfl, OutputGovernor.used_new _ nowMs⟩

/-- **Within the limits the ring gets the lines that the reader reads.** -/
theorem captureChunks_spec {cfg : CaptureConfig} {chunks : List (List UInt8)} (h : Within cfg chunks)
    (nowMs : Nat) :
    (captureChunks cfg nowMs chunks).buffer = pushLines (readChunks chunks) (.new cfg.ring) := by
  have htracks := (tracks_new cfg nowMs).chunks chunks ⟨h.lines, h.rest, h.rate, h.quota⟩
  have hpump : captureChunks cfg nowMs chunks
      = chunks.foldl (fun c bs => c.ingest (Utf8.fromUtf8Lossy bs) nowMs) (.new cfg) :=
    RuntimeOutput.pump_capture nowMs (.withOutput cfg nowMs chunks)
  rw [hpump]
  exact htracks.buffer

/-! ### What the stored entries tell -/

theorem unroll_pushLines (lines : List (List Char)) (b : BoundedBuffer) :
    (pushLines lines b).entries.flatMap StoredLine.unroll
      = b.entries.flatMap StoredLine.unroll ++ lines.map .text := by
  induction lines generalizing b with
  | nil => simp [pushLines]
  | cons line lines ih =>
      show (pushLines lines (b.push (.text line))).entries.flatMap StoredLine.unroll = _
      rw [ih, BoundedBuffer.unroll_push b fun key hkey => by rw [← Option.some.inj hkey]]
      simp [StoredLine.unroll]

/-- **Two runs store the same entries exactly if they read the same lines.** -/
theorem capturedLines_eq_iff {cfg : CaptureConfig} {chunks chunks' : List (List UInt8)}
    (h : Within cfg chunks) (h' : Within cfg chunks') (nowMs : Nat) :
    capturedLines cfg nowMs chunks = capturedLines cfg nowMs chunks'
      ↔ readChunks chunks = readChunks chunks' := by
  unfold capturedLines
  rw [captureChunks_spec h, captureChunks_spec h']
  constructor
  · intro heq
    have hunroll := congrArg (List.flatMap StoredLine.unroll) heq
    rw [unroll_pushLines, unroll_pushLines] at hunroll
    have hmap := List.append_cancel_left hunroll
    exact List.map_injective_iff.mpr (fun _ _ heq => StoredLine.text.inj heq) hmap
  · intro heq
    rw [heq]

/-! ### Two ways of splitting -/

/-- **Captured lines depend on the chunks exactly through unclean splits.**  The same output within the
limits, split in two ways of which one is clean (such as not at all), is stored as the same
lines exactly if the other split is clean too: no chunk ends inside a character or between a
carriage return and its line feed. -/
theorem captured_alike_iff {cfg : CaptureConfig} {nowMs : Nat} {chunks chunks' : List (List UInt8)}
    (hsame : chunks.flatten = chunks'.flatten) (h : Within cfg chunks) (h' : Within cfg chunks')
    (hclean : CleanSplit [] chunks') :
    capturedLines cfg nowMs chunks = capturedLines cfg nowMs chunks' ↔ CleanSplit [] chunks := by
  rw [capturedLines_eq_iff h h', (readChunks_eq_iff chunks').mpr hclean, ← hsame, readChunks_eq_iff]

/-- A line that comes in two chunks, split between two characters. -/
theorem captured_alike_iff_between :
    capturedLines .default 0 [[0xC3, 0xA9], [0x62, 0x0D, 0x0A]]
        = capturedLines .default 0 [[0xC3, 0xA9, 0x62, 0x0D, 0x0A]]
      ↔ CleanSplit [] [[0xC3, 0xA9], [0x62, 0x0D, 0x0A]] := by
  have h : Within .default [[0xC3, 0xA9], [0x62, 0x0D, 0x0A]] := by decide +kernel
  have h' : Within .default [[0xC3, 0xA9, 0x62, 0x0D, 0x0A]] := by decide +kernel
  have hclean : CleanSplit [] [[0xC3, 0xA9, 0x62, 0x0D, 0x0A]] := by decide +kernel
  exact captured_alike_iff (by decide) h h' hclean

/-- A line of one character whose two bytes come in different chunks is stored as two U+FFFD; and a
line end that comes in two chunks ends an empty line as well. -/
theorem split_shows :
    (Within .default [[0xC3], [0xA9, 0x0A]] ∧ Within .default [[0xC3, 0xA9, 0x0A]]
      ∧ capturedLines .default 0 [[0xC3], [0xA9, 0x0A]]
        ≠ capturedLines .default 0 [[0xC3, 0xA9, 0x0A]])
      ∧ Within .default [[0x61, 0x0D], [0x0A]] ∧ Within .default [[0x61, 0x0D, 0x0A]]
      ∧ capturedLines .default 0 [[0x61, 0x0D], [0x0A]]
        ≠ capturedLines .default 0 [[0x61, 0x0D, 0x0A]] := by
  decide +kernel

end MemMux
