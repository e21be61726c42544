/-
MemMux/Scrollback.lean

What becomes of a task's output when its provider stops (`install_runtime`, `shutdown_runtime` and
`pump` of `memmuxd/src/daemon.rs`).

A run goes over any number of launches and stops.  `ScrollRun.accepted` records every line the
capture pipeline stores, and at a stop the partial line under way.  A line is in the history, or among
the entries of the capture buffer, or lost (`Kept`); a stop saves what the ring has evicted and
loses what is still in it, so that nothing is lost exactly if nothing is in it.
-/
import MemMux.Session

namespace MemMux

/-! ### What a line is stored as -/

/-- An entry that stands for a line at least. -/
theorem StoredLine.renderedRows_fold {l : StoredLine} (h : 0 < l.renderedRows) :
    0 < l.fold.renderedRows := by
  cases l with
  | text t => exact Nat.two_pos
  | repeated t count => exact Nat.succ_pos count
  | truncated head full ref => exact h

namespace BoundedBuffer

/-- Every entry stands for a line at least. -/
def NoBlank (b : BoundedBuffer) : Prop := ∀ l ∈ b.entries, 0 < l.renderedRows

theorem NoBlank.push {b : BoundedBuffer} (h : b.NoBlank) {line : StoredLine}
    (hline : 0 < line.renderedRows) : (b.push line).NoBlank := by
  intro l hl
  rcases push_cases line b with ⟨init, last, key, hinit, -, -, heq⟩ | heq
  · rw [NoBlank, entries, hinit] at h
    rw [heq] at hl
    simp only [entries, List.mem_append, List.mem_singleton] at hl h
    rcases hl with hl | hl | rfl
    · exact h l (.inl hl)
    · exact h l (.inr (.inl hl))
    · exact StoredLine.renderedRows_fold (h last (.inr (.inr rfl)))
  · rw [heq, entries_append] at hl
    rcases List.mem_append.mp hl with hl | hl
    · exact h l hl
    · rw [List.mem_singleton.mp hl]
      exact hline

end BoundedBuffer

namespace CaptureBuffer

/-- The entry that a line becomes. -/
def entryOf (line : List Char) (c : CaptureBuffer) : StoredLine :=
  match truncateLine line c.cfg.maxLineBytes with
  | .kept text => .text text
  | .truncated head fullBytes _ => .truncated head fullBytes ("art_" ++ toString c.artifactSeq)

/-- **What the pipeline accepts of a line**: the entry it becomes, if the governor lets it through. -/
def accepts (nowMs : Nat) (line : List Char) (c : CaptureBuffer) : List StoredLine :=
  match (c.governor.onLine (byteLen line) nowMs).2.decision with
  | .sampledOut | .quotaExceeded => []
  | .store => [c.entryOf line]

/-- What it accepts of the lines of a chunk. -/
def acceptsLines (nowMs : Nat) : List (List Char) → CaptureBuffer → List StoredLine
  | [], _ => []
  | line :: lines, c => c.accepts nowMs line ++ acceptsLines nowMs lines (ingestLine nowMs line c)

/-- What it accepts of a sequence of chunks. -/
def acceptsChunks (nowMs : Nat) : List (List UInt8) → CaptureBuffer → List StoredLine
  | [], _ => []
  | chunk :: chunks, c =>
      acceptsLines nowMs (completed c.cfg.maxLineBytes c.pending (Utf8.fromUtf8Lossy chunk)).1 c
        ++ acceptsChunks nowMs chunks (c.ingest (Utf8.fromUtf8Lossy chunk) nowMs)

/-- **Every accepted line goes into the ring.** -/
theorem ingestLine_buffer (nowMs : Nat) (line : List Char) (c : CaptureBuffer) :
    (ingestLine nowMs line c).buffer
      = (c.accepts nowMs line).foldl (fun b l => b.push l) c.buffer := by
  unfold ingestLine accepts storeLine entryOf
  dsimp only
  cases (c.governor.onLine (byteLen line) nowMs).2.decision with
  | sampledOut => rfl
  | quotaExceeded => rfl
  | store =>
      dsimp only
      cases truncateLine line c.cfg.maxLineBytes <;> rfl

theorem accepts_unroll (nowMs : Nat) (line : List Char) (c : CaptureBuffer) :
    ∀ l ∈ c.accepts nowMs line, l.unroll = [l] ∧ 0 < l.renderedRows
      ∧ ∀ key, l.collapseKey = some key → l = .text key := by
  unfold accepts entryOf
  split
  · simp
  · simp
  · split
    · simp [StoredLine.unroll, StoredLine.renderedRows, StoredLine.collapseKey]
    · simp [StoredLine.unroll, StoredLine.renderedRows, StoredLine.collapseKey]

/-- The lines that a ring and what it has evicted stand for. -/
def lines (c : CaptureBuffer) : List StoredLine := c.buffer.entries.flatMap StoredLine.unroll

/-- A buffer in working order: the partial line is one, and no entry is blank. -/
structure Ready (c : CaptureBuffer) : Prop where
  plain : ∀ x ∈ c.pending, isPlain x
  noBlank : c.buffer.NoBlank

theorem ready_new (cfg : CaptureConfig) : Ready (new cfg) :=
  ⟨fun _ hx => (nomatch hx), fun _ hl => (nomatch hl)⟩

/-- **The accepted lines come last**: one line.  Every entry goes on to stand for a line at least. -/
theorem lines_ingestLine {c : CaptureBuffer} (h : c.buffer.NoBlank) (nowMs : Nat) (line : List Char) :
    (ingestLine nowMs line c).lines = c.lines ++ c.accepts nowMs line
      ∧ (ingestLine nowMs line c).buffer.NoBlank := by
  have hpush : ∀ ls : List StoredLine, (∀ l ∈ ls, l.unroll = [l] ∧ 0 < l.renderedRows
      ∧ ∀ key, l.collapseKey = some key → l = .text key) → ∀ b : BoundedBuffer, b.NoBlank →
      (ls.foldl (fun b l => b.push l) b).entries.flatMap StoredLine.unroll
          = b.entries.flatMap StoredLine.unroll ++ ls
        ∧ (ls.foldl (fun b l => b.push l) b).NoBlank := by
    intro ls hls
    induction ls with
    | nil => exact fun b hb => ⟨(List.append_nil _).symm, hb⟩
    | cons l ls ih =>
        intro b hb
        obtain ⟨hunroll, hpos, hkey⟩ := hls l List.mem_cons_self
        obtain ⟨hrest, hnoBlank⟩ := ih (fun l hl => hls l (List.mem_cons_of_mem _ hl)) (b.push l)
          (hb.push hpos)
        refine ⟨?_, hnoBlank⟩
        rw [List.foldl_cons, hrest, BoundedBuffer.unroll_push b hkey, hunroll, List.append_assoc]
        rfl
  rw [lines, ingestLine_buffer]
  exact hpush _ (accepts_unroll nowMs line c) c.buffer h

/-- The lines of a chunk. -/
theorem lines_ingestLines {c : CaptureBuffer} (h : c.buffer.NoBlank) (nowMs : Nat)
    (ls : List (List Char)) :
    (ingestLines nowMs ls c).lines = c.lines ++ acceptsLines nowMs ls c
      ∧ (ingestLines nowMs ls c).buffer.NoBlank := by
  induction ls generalizing c with
  | nil => exact ⟨(List.append_nil _).symm, h⟩
  | cons line ls ih =>
      obtain ⟨hfirst, hnoBlank⟩ := lines_ingestLine h nowMs line
      obtain ⟨hrest, hlast⟩ := ih hnoBlank
      refine ⟨?_, hlast⟩
      rw [acceptsLines, ← List.append_assoc, ← hfirst]
      exact hrest

/-- **A sequence of chunks** leaves the accepted lines last, in order. -/
theorem lines_chunks {c : CaptureBuffer} (h : c.Ready) (nowMs : Nat) (chunks : List (List UInt8)) :
    let c' := chunks.foldl (fun c chunk => c.ingest (Utf8.fromUtf8Lossy chunk) nowMs) c
    c'.lines = c.lines ++ acceptsChunks nowMs chunks c ∧ c'.Ready := by
  induction chunks generalizing c with
  | nil => exact ⟨(List.append_nil _).symm, h⟩
  | cons chunk chunks ih =>
      have hplain := ingest_plain h.plain (Utf8.fromUtf8Lossy chunk) nowMs
      have heq := ingest_eq h.plain (Utf8.fromUtf8Lossy chunk) nowMs
      obtain ⟨hfirst, hnoBlank⟩ := lines_ingestLines h.noBlank nowMs
        (completed c.cfg.maxLineBytes c.pending (Utf8.fromUtf8Lossy chunk)).1
      have hready : (c.ingest (Utf8.fromUtf8Lossy chunk) nowMs).Ready := by
        refine ⟨hplain, ?_⟩
        rw [heq]
        exact hnoBlank
      obtain ⟨hrest, hlast⟩ := ih hready
      refine ⟨?_, hlast⟩
      have hlines : (c.ingest (Utf8.fromUtf8Lossy chunk) nowMs).lines
          = c.lines ++ acceptsLines nowMs
              (completed c.cfg.maxLineBytes c.pending (Utf8.fromUtf8Lossy chunk)).1 c := by
        rw [heq]
        exact hfirst
      rw [acceptsChunks, ← List.append_assoc, ← hlines]
      exact hrest

end CaptureBuffer

/-! ### Runs with launches and stops -/

/-- The output of one task, and every line accepted of it. -/
structure ScrollRun where
  io : TaskIo
  accepted : List StoredLine

inductive ScrollEvent
  /-- a provider is launched: a start, a restart, a resume, or the second half of a recycle -/
  | launch (nowMs : Nat)
  /-- the provider or its reader thread does something -/
  | provider (a : ProviderAct)
  /-- the daemon pumps; the provider goes on in the middle of it -/
  | pump (nowMs : Nat) (during : List ProviderAct)
  /-- the provider is stopped: terminate, hibernate, or the first half of a recycle -/
  | stop
  deriving DecidableEq, Repr

/-- What the pipeline accepts of the output in the channel. -/
def RuntimeOutput.accepts (nowMs : Nat) (rt : RuntimeOutput) : List StoredLine :=
  rt.capture.acceptsChunks nowMs rt.session.outputRx

/-- The unterminated line of a runtime that goes away. -/
def RuntimeOutput.trailing (rt : RuntimeOutput) : List StoredLine :=
  if rt.capture.pending = [] then [] else [.text rt.capture.pending]

namespace ScrollRun

/-- Before the first launch. -/
def start (files : ChunkFiles) : ScrollRun := ⟨⟨none, none, files⟩, []⟩

/-- The daemon's side of a pump, up to the look at the process. -/
def drained (r : ScrollRun) (nowMs : Nat) (during : List ProviderAct) : ScrollRun :=
  { io := during.foldl TaskIo.act (r.io.drain nowMs)
    accepted := r.accepted ++ (r.io.runtime.map (·.accepts nowMs)).getD [] }

/-- Every path that launches a provider finds none. -/
def step (dir : Path) (r : ScrollRun) : ScrollEvent → ScrollRun
  | .launch nowMs =>
      if r.io.isRunning then r else { r with io := r.io.installRuntime dir (.spawnPty nowMs) }
  | .provider a => { r with io := r.io.act a }
  | .pump nowMs during =>
      let r := r.drained nowMs during
      { io := r.io.retire
        accepted := r.accepted
          ++ ((r.io.runtime.filter (!·.isRunning)).map (·.trailing)).getD [] }
  | .stop =>
      { io := r.io.shutdownRuntime
        accepted := r.accepted ++ (r.io.runtime.map (·.trailing)).getD [] }

/-- **The history holds every accepted line**, in order and once, a run of equal lines counted by its
count. -/
def Complete (r : ScrollRun) : Prop :=
  match r.io.history with
  | none => r.accepted = []
  | some s => ∃ entries, ChunkStore.Shows (s, r.io.files) entries
      ∧ entries.flatMap StoredLine.unroll = r.accepted

/-- **A provider goes away with nothing in its ring and no partial line.** -/
def NothingLeft (r : ScrollRun) : ScrollEvent → Prop
  | .launch _ | .provider _ => True
  | .pump nowMs during => ∀ rt ∈ (r.drained nowMs during).io.runtime, rt.isRunning = false →
      rt.capture.buffer.lines = [] ∧ rt.capture.pending = []
  | .stop => ∀ rt ∈ r.io.runtime, rt.capture.buffer.lines = [] ∧ rt.capture.pending = []

instance (r : ScrollRun) : (e : ScrollEvent) → Decidable (NothingLeft r e)
  | .launch _ | .provider _ => isTrue trivial
  | .pump nowMs during =>
      inferInstanceAs (Decidable (∀ rt ∈ (r.drained nowMs during).io.runtime, _ → _))
  | .stop => inferInstanceAs (Decidable (∀ rt ∈ r.io.runtime, _))

/-! ### Where the lines are -/

/-- Whether the history store of a task, if it is open, holds these entries. -/
def HistoryHolds (hist : List StoredLine) (io : TaskIo) : Prop :=
  ∀ s ∈ io.history, ChunkStore.Holds hist (s, io.files)

theorem HistoryHolds.append {hist : List StoredLine} {io : TaskIo} (h : HistoryHolds hist io)
    (more : List StoredLine) : HistoryHolds (hist ++ more) (io.appendHistory more) := by
  unfold HistoryHolds TaskIo.appendHistory
  cases hs : io.history with
  | none => simp [hs]
  | some s =>
      intro s' hs'
      rw [← Option.some.inj hs']
      exact (h s hs).append more

theorem HistoryHolds.flush {hist : List StoredLine} {io : TaskIo} (h : HistoryHolds hist io) :
    HistoryHolds hist io.flushHistory := by
  unfold HistoryHolds TaskIo.flushHistory
  cases hs : io.history with
  | none => simp [hs]
  | some s =>
      intro s' hs'
      rw [← Option.some.inj hs']
      exact (h s hs).flush

theorem appendHistory_history (more : List StoredLine) (io : TaskIo) :
    (io.appendHistory more).history = none ↔ io.history = none := by
  unfold TaskIo.appendHistory
  cases hs : io.history <;> simp [hs]

theorem flushHistory_history (io : TaskIo) : io.flushHistory.history = none ↔ io.history = none := by
  unfold TaskIo.flushHistory
  cases hs : io.history <;> simp [hs]

/-- The lines that the capture buffer still has. -/
def buffered (r : ScrollRun) : List StoredLine := (r.io.runtime.map (·.capture.lines)).getD []

/-- **Every accepted line is somewhere**: in the history, in the capture buffer, or lost.  As long as
none is lost they are in order. -/
structure Kept (hist : List StoredLine) (lost : Nat) (r : ScrollRun) : Prop where
  history : HistoryHolds hist r.io
  closed : r.io.history = none → r.io.runtime = none ∧ hist = []
  ready : ∀ rt ∈ r.io.runtime, rt.capture.Ready
  count : lost + (hist.flatMap StoredLine.unroll ++ r.buffered).length = r.accepted.length
  lines : lost = 0 → hist.flatMap StoredLine.unroll ++ r.buffered = r.accepted

theorem kept_start (files : ChunkFiles) : Kept [] 0 (start files) :=
  ⟨fun _ hs => (nomatch hs), fun _ => ⟨rfl, rfl⟩, fun _ hrt => (nomatch hrt), rfl, fun _ => rfl⟩

theorem Kept.launch {hist : List StoredLine} {lost : Nat} {r : ScrollRun} (h : Kept hist lost r)
    (dir : Path) (nowMs : Nat) (hnone : r.io.runtime = none) :
    Kept hist lost { r with io := r.io.installRuntime dir (.spawnPty nowMs) } := by
  have hsame : ScrollRun.buffered { r with io := r.io.installRuntime dir (.spawnPty nowMs) }
      = r.buffered := by
    rw [buffered, buffered, hnone]
    rfl
  refine ⟨?_, fun hclosed => (nomatch hclosed), fun rt hrt => ?_, ?_, ?_⟩
  · intro s hs
    obtain rfl := Option.some.inj hs
    cases hhist : r.io.history with
    | none =>
        rw [(h.closed hhist).2]
        exact ChunkStore.holds_new _ _ _
    | some s => exact h.history s hhist
  · obtain rfl := Option.some.inj hrt
    exact CaptureBuffer.ready_new _
  · rw [hsame]
    exact h.count
  · rw [hsame]
    exact h.lines

theorem Kept.act {hist : List StoredLine} {lost : Nat} {r : ScrollRun} (h : Kept hist lost r)
    (a : ProviderAct) : Kept hist lost { r with io := r.io.act a } := by
  have hsame : ScrollRun.buffered { r with io := r.io.act a } = r.buffered := by
    unfold buffered TaskIo.act
    cases r.io.runtime <;> rfl
  refine ⟨h.history, fun hclosed => ?_, fun rt hrt => ?_, ?_, ?_⟩
  · have hnone := h.closed hclosed
    exact ⟨by rw [TaskIo.act, hnone.1]; rfl, hnone.2⟩
  · obtain ⟨rt', hrt', rfl⟩ := Option.map_eq_some_iff.mp hrt
    exact h.ready rt' hrt'
  · rw [hsame]
    exact h.count
  · rw [hsame]
    exact h.lines

theorem Kept.acts {hist : List StoredLine} {lost : Nat} {r : ScrollRun} (h : Kept hist lost r)
    (as : List ProviderAct) : Kept hist lost { r with io := as.foldl TaskIo.act r.io } := by
  induction as generalizing r with
  | nil => exact h
  | cons a as ih => exact ih (h.act a)

/-- **A pump moves evicted lines to the history.** -/
theorem Kept.drained {hist : List StoredLine} {lost : Nat} {r : ScrollRun} (h : Kept hist lost r)
    (nowMs : Nat) (during : List ProviderAct) :
    ∃ more, Kept (hist ++ more) lost (r.drained nowMs during) := by
  -- what the provider does meanwhile is one more run of its acts
  suffices ∃ more, Kept (hist ++ more) lost
      { io := r.io.drain nowMs
        accepted := r.accepted ++ (r.io.runtime.map (·.accepts nowMs)).getD [] } by
    obtain ⟨more, hmore⟩ := this
    exact ⟨more, hmore.acts during⟩
  cases hrt : r.io.runtime with
  | none =>
      refine ⟨[], ?_⟩
      rw [TaskIo.drain_none hrt, List.append_nil]
      simpa using h
  | some rt =>
      cases hs : r.io.history with
      | none => exact absurd (h.closed hs).1 (by simp [hrt])
      | some s =>
          have hdrain : r.io.drain nowMs
              = TaskIo.appendHistory (rt.pump nowMs).capture.buffer.evicted
                  { r.io with runtime := some (rt.pump nowMs).takeEvicted.2 } := by
            rw [TaskIo.drain, hrt]
            dsimp only
            rw [hs]
            rfl
          obtain ⟨hlines, hready⟩ := CaptureBuffer.lines_chunks (h.ready rt hrt) nowMs
            rt.session.outputRx
          rw [← RuntimeOutput.pump_capture] at hlines hready
          generalize hpumped : rt.pump nowMs = pumped at hdrain hlines hready
          have htaken : HistoryHolds hist { r.io with runtime := some pumped.takeEvicted.2 } :=
            h.history
          -- what was evicted and what is buffered are the lines so far and the new ones
          have hall : (hist ++ pumped.capture.buffer.evicted).flatMap StoredLine.unroll
                ++ pumped.takeEvicted.2.capture.lines
              = hist.flatMap StoredLine.unroll ++ r.buffered ++ rt.accepts nowMs := by
            rw [buffered, hrt, Option.map_some, Option.getD_some, List.append_assoc,
              RuntimeOutput.accepts, ← hlines]
            simp [CaptureBuffer.lines, BoundedBuffer.entries, RuntimeOutput.takeEvicted,
              CaptureBuffer.drainEvicted, BoundedBuffer.drainEvicted]
          refine ⟨pumped.capture.buffer.evicted, ?_⟩
          rw [Option.map_some, Option.getD_some, hdrain]
          refine ⟨htaken.append _, fun hclosed => ?_, fun rt' hrt' => ?_, ?_, fun hlost => ?_⟩
          · rw [appendHistory_history, hs] at hclosed
            cases hclosed
          · rw [TaskIo.appendHistory_runtime] at hrt'
            obtain rfl := Option.some.inj hrt'
            exact ⟨hready.plain, fun l hl => hready.noBlank l (List.mem_append_right _ hl)⟩
          · have hcount := h.count
            rw [buffered, TaskIo.appendHistory_runtime, Option.map_some, Option.getD_some, hall]
            show _ = (r.accepted ++ rt.accepts nowMs).length
            simp only [List.length_append] at hcount ⊢
            omega
          · rw [buffered, TaskIo.appendHistory_runtime, Option.map_some, Option.getD_some, hall,
              h.lines hlost]

/-- What is lost when a runtime goes away: its ring, and its partial line. -/
def leftover (rt : RuntimeOutput) : List StoredLine :=
  rt.capture.buffer.lines.flatMap StoredLine.unroll ++ rt.trailing

theorem leftover_eq_nil {rt : RuntimeOutput} (h : rt.capture.Ready) :
    leftover rt = [] ↔ rt.capture.buffer.lines = [] ∧ rt.capture.pending = [] := by
  have hring : rt.capture.buffer.lines.flatMap StoredLine.unroll = []
      ↔ rt.capture.buffer.lines = [] := by
    rw [List.flatMap_eq_nil_iff]
    constructor
    · intro hall
      rw [List.eq_nil_iff_forall_not_mem]
      intro l hl
      have hpos := h.noBlank l (List.mem_append_right _ hl)
      rw [← StoredLine.length_unroll, hall l hl] at hpos
      exact Nat.lt_irrefl 0 hpos
    · intro hnil l hl
      rw [hnil] at hl
      exact nomatch hl
  rw [leftover, List.append_eq_nil_iff, hring, RuntimeOutput.trailing]
  split_ifs with hpending <;> simp [hpending]

/-- **A runtime that goes away**: what it has evicted goes to the history, the rest is lost. -/
theorem Kept.leave {hist : List StoredLine} {lost : Nat} {r : ScrollRun} (h : Kept hist lost r)
    {rt : RuntimeOutput} (hrt : r.io.runtime = some rt) :
    Kept (hist ++ rt.capture.buffer.evicted) (lost + (leftover rt).length)
      { io := TaskIo.flushHistory (TaskIo.appendHistory rt.capture.buffer.evicted
          { r.io with runtime := none })
        accepted := r.accepted ++ rt.trailing } := by
  have hgone : HistoryHolds hist { r.io with runtime := none } := h.history
  have hbuffered : r.buffered = rt.capture.buffer.evicted.flatMap StoredLine.unroll
      ++ rt.capture.buffer.lines.flatMap StoredLine.unroll := by
    rw [buffered, hrt, Option.map_some, Option.getD_some, CaptureBuffer.lines, BoundedBuffer.entries,
      List.flatMap_append]
  refine ⟨(hgone.append _).flush, fun hclosed => ?_, ?_, ?_, fun hlost => ?_⟩
  · rw [flushHistory_history, appendHistory_history] at hclosed
    exact absurd (h.closed hclosed).1 (by simp [hrt])
  · simp
  · have hcount := h.count
    rw [hbuffered] at hcount
    simp only [buffered, TaskIo.flushHistory_runtime, TaskIo.appendHistory_runtime, Option.map_none,
      Option.getD_none, leftover, List.flatMap_append, List.length_append,
      List.append_nil] at hcount ⊢
    omega
  · obtain ⟨hlost, hleft⟩ := Nat.add_eq_zero_iff.mp hlost
    obtain ⟨hring, htrailing⟩ := List.append_eq_nil_iff.mp (List.eq_nil_of_length_eq_zero hleft)
    have hall := h.lines hlost
    rw [hbuffered, hring, List.append_nil] at hall
    rw [htrailing, List.append_nil, ← hall, buffered]
    simp

/-- **One event** loses lines only when a runtime goes away with something left in it. -/
theorem Kept.step {hist : List StoredLine} {lost : Nat} {r : ScrollRun} (h : Kept hist lost r)
    (dir : Path) (e : ScrollEvent) :
    ∃ hist' more, Kept hist' (lost + more) (ScrollRun.step dir r e) ∧ (more = 0 ↔ NothingLeft r e) := by
  cases e with
  | launch nowMs =>
      refine ⟨hist, 0, ?_, by simp [NothingLeft]⟩
      unfold ScrollRun.step TaskIo.isRunning
      dsimp only
      split_ifs with hrun
      · exact h
      · exact h.launch dir nowMs (Option.not_isSome_iff_eq_none.mp hrun)
  | provider a => exact ⟨hist, 0, h.act a, by simp [NothingLeft]⟩
  | pump nowMs during =>
      obtain ⟨taken, hdrained⟩ := h.drained nowMs during
      unfold ScrollRun.step NothingLeft
      dsimp only
      generalize r.drained nowMs during = r at hdrained
      cases hrt : r.io.runtime with
      | none =>
          refine ⟨hist ++ taken, 0, ?_, by simp⟩
          rw [TaskIo.retire, hrt]
          simpa using hdrained
      | some rt =>
          cases hrun : rt.isRunning with
          -- the runtime stays, and so does what it buffers
          | true =>
              refine ⟨hist ++ taken, 0, ?_, by simp [hrun]⟩
              simp only [TaskIo.retire, hrt, hrun, if_true]
              simpa [Option.filter_some, hrun] using hdrained
          | false =>
              -- the runtime goes, with its ring and its partial line
              refine ⟨hist ++ taken ++ rt.capture.buffer.evicted, (leftover rt).length, ?_, ?_⟩
              · have hretire : r.io.retire = TaskIo.flushHistory (TaskIo.appendHistory
                    rt.capture.buffer.evicted { r.io with runtime := none }) := by
                  rw [TaskIo.retire, hrt]
                  exact if_neg (by simp [hrun])
                rw [hretire, Option.filter_some]
                simp only [hrun, Bool.not_false, if_true, Option.map_some, Option.getD_some]
                exact hdrained.leave hrt
              · rw [List.length_eq_zero_iff, leftover_eq_nil (hdrained.ready rt hrt)]
                simp [hrun]
  | stop =>
      unfold ScrollRun.step NothingLeft TaskIo.shutdownRuntime
      dsimp only
      cases hrt : r.io.runtime with
      | none =>
          refine ⟨hist, 0, ?_, by simp⟩
          simpa using h
      | some rt =>
          refine ⟨hist ++ rt.capture.buffer.evicted, (leftover rt).length, h.leave hrt, ?_⟩
          rw [List.length_eq_zero_iff, leftover_eq_nil (h.ready rt hrt)]
          simp

theorem Kept.run {hist : List StoredLine} {lost : Nat} {r : ScrollRun} (h : Kept hist lost r)
    (dir : Path) (es : List ScrollEvent) :
    ∃ hist' more, Kept hist' (lost + more) (Run.run (ScrollRun.step dir) r es)
      ∧ (more = 0 ↔ Run.Allowed (ScrollRun.step dir) NothingLeft r es) := by
  induction es generalizing r hist lost with
  | nil => exact ⟨hist, 0, h, by simp [Run.Allowed]⟩
  | cons e es ih =>
      obtain ⟨hist₁, first, hfirst, hfirstIff⟩ := h.step dir e
      obtain ⟨hist₂, rest, hrest, hrestIff⟩ := ih hfirst
      refine ⟨hist₂, first + rest, ?_, ?_⟩
      · rw [← Nat.add_assoc]
        exact hrest
      · rw [Nat.add_eq_zero_iff, hfirstIff, hrestIff]
        rfl

/-! ### Complete histories -/

/-- **The history is complete exactly if no provider went away with anything left**: after any run
in which the last provider has exited or was stopped, the history holds every accepted line exactly
if, whenever a provider exited or was stopped, its ring and its partial line were empty. -/
theorem history_complete_iff (dir : Path) (files : ChunkFiles) {es : List ScrollEvent}
    (hdown : (Run.run (step dir) (start files) es).io.runtime = none) :
    Complete (Run.run (step dir) (start files) es)
      ↔ Run.Allowed (step dir) NothingLeft (start files) es := by
  obtain ⟨hist, lost, h, hiff⟩ := (kept_start files).run dir es
  rw [Nat.zero_add] at h
  rw [← hiff]
  generalize Run.run (step dir) (start files) es = r at h hdown
  -- no runtime is left, so that nothing is buffered
  have hnone : r.buffered = [] := by
    rw [buffered, hdown]
    rfl
  have hcount := h.count
  rw [hnone, List.append_nil] at hcount
  unfold Complete
  cases hs : r.io.history with
  | none =>
      rw [(h.closed hs).2] at hcount
      have hlen : lost = r.accepted.length := hcount
      rw [hlen, List.length_eq_zero_iff]
  | some s =>
      have hholds := h.history s hs
      constructor
      · rintro ⟨entries, hshows, hlines⟩
        rw [← hlines, hshows.unique hholds.shows] at hcount
        omega
      · intro hlost
        have hall := h.lines hlost
        rw [hnone, List.append_nil] at hall
        exact ⟨hist, hholds.shows, hall⟩

/-- A provider that exits without a word, and one that is stopped before anything was pumped. -/
theorem history_complete_iff_silent :
    Complete (Run.run (step "history") (start ∅)
      [.launch 0, .provider .exit, .pump 1 [], .launch 2, .provider (.write [0x61]), .stop]) :=
  (history_complete_iff "history" ∅ (by decide +kernel)).mpr (by decide +kernel)

/-- A provider prints a line and the beginning of another, both are pumped, and it is stopped: the
history is empty. -/
theorem stop_loses_ring :
    let r := Run.run (step "history") (start ∅)
      [.launch 0, .provider (.write [0x61, 0x0A, 0x62]), .provider (.read 8192), .pump 1 [], .stop]
    (r.io.runtime = none ∧ r.accepted = [.text ['a'], .text ['b']]
      ∧ r.io.history = some (ChunkStore.new "history" historyChunkLines))
      ∧ ¬ Complete r := by
  intro r
  have hrun : r.io.runtime = none ∧ r.accepted = [.text ['a'], .text ['b']]
      ∧ r.io.history = some (ChunkStore.new "history" historyChunkLines) := by
    decide +kernel
  refine ⟨hrun, fun hcomplete => ?_⟩
  unfold Complete at hcomplete
  rw [hrun.2.2, hrun.2.1] at hcomplete
  obtain ⟨entries, hshows, hlines⟩ := hcomplete
  have hnil : entries = [] := List.eq_nil_of_length_eq_zero hshows.2.symm
  rw [hnil] at hlines
  exact nomatch hlines

end ScrollRun

end MemMux
