/-
MemMux/History.lean

Reading history in pages, and chunk writes that fail (`memmux-pty/src/chunkstore.rs`,
`read_history` of `memmuxd/src/daemon.rs`).

A reader that goes on at the cursor a page ends with has seen the lines before its cursor, each of
them once (`Browsing`), whatever is appended meanwhile.

An append whose chunk write fails stops at the line that filled the chunk: the lines before it
stay buffered, and those after it are gone with the batch.  Where no write fails it is the append of
`ChunkStore` (`tryAppend_of_ok`).
-/
import MemMux.ChunkStore

namespace MemMux

/-- Render an entry for display. -/
def StoredLine.render : StoredLine → String
  | text t => String.ofList t
  | repeated t count => String.ofList t ++ " ×" ++ toString count
  | truncated head fullBytes artifactRef =>
      String.ofList head ++ "…(truncated " ++ toString fullBytes ++ " bytes, see " ++ artifactRef ++ ")"

namespace ChunkStore

/-! ### Pages -/

/-- What the daemon answers to `ReadHistory`. -/
structure Page where
  lines : List String
  nextCursor : Nat
  total : Nat
  deriving DecidableEq, Repr

/-- The daemon's `read_history`; `none` when a chunk file cannot be read. -/
def page (p : ChunkStore × ChunkFiles) (cursor limit : Nat) : Option Page :=
  (p.1.readHistory p.2 cursor limit).map fun lines =>
    ⟨lines.map StoredLine.render, cursor + lines.length, p.1.totalLines⟩

theorem Holds.page {lines : List StoredLine} {p : ChunkStore × ChunkFiles} (h : Holds lines p)
    (cursor limit : Nat) :
    ChunkStore.page p cursor limit
      = some ⟨(slice cursor limit lines).map StoredLine.render,
          cursor + (slice cursor limit lines).length, lines.length⟩ := by
  rw [ChunkStore.page, h.readHistory, h.total]
  rfl

/-- A reader, and the store it reads. -/
structure Browse where
  store : ChunkStore × ChunkFiles
  cursor : Nat
  visited : List String

/-- Something is written, or the reader turns the page. -/
inductive BrowseStep
  | call (c : Call)
  | next (limit : Nat)
  deriving DecidableEq, Repr

/-- The call of a step that writes. -/
def BrowseStep.call? : BrowseStep → Option Call
  | call c => some c
  | next _ => none

namespace Browse

/-- A reader before the first page. -/
def start (dir : Path) (chunkLines : Nat) (files : ChunkFiles) : Browse :=
  ⟨(.new dir chunkLines, files), 0, []⟩

def step (b : Browse) : BrowseStep → Browse
  | .call c => { b with store := c.step b.store }
  | .next limit =>
      match page b.store b.cursor limit with
      | some pg => ⟨b.store, pg.nextCursor, b.visited ++ pg.lines⟩
      | none => b

end Browse

/-- **The reader has seen the lines before its cursor.** -/
structure Browsing (lines : List StoredLine) (b : Browse) : Prop where
  holds : Holds lines b.store
  cursor : b.cursor ≤ lines.length
  visited : b.visited = (lines.take b.cursor).map StoredLine.render

variable {lines : List StoredLine} {b : Browse}

theorem Browsing.call (h : Browsing lines b) (c : Call) :
    Browsing (lines ++ appended [c]) (b.step (.call c)) := by
  have hholds : Holds (lines ++ appended [c]) (c.step b.store) := h.holds.run [c]
  refine ⟨hholds, ?_, ?_⟩
  · rw [List.length_append]
    exact Nat.le_add_right_of_le h.cursor
  · show b.visited = ((lines ++ appended [c]).take b.cursor).map StoredLine.render
    rw [List.take_append_of_le_length h.cursor]
    exact h.visited

/-- **A page turned**: the cursor moves over the lines of the page. -/
theorem Browsing.next (h : Browsing lines b) (limit : Nat) :
    Browsing lines (b.step (.next limit))
      ∧ (b.step (.next limit)).cursor = min (b.cursor + limit) lines.length := by
  have hlen : (slice b.cursor limit lines).length = min limit (lines.length - b.cursor) := by
    rw [slice, List.length_take, List.length_drop]
  have hcursor := h.cursor
  have hnext : b.cursor + (slice b.cursor limit lines).length = min (b.cursor + limit) lines.length := by
    omega
  have htake : lines.take (b.cursor + (slice b.cursor limit lines).length)
      = lines.take b.cursor ++ slice b.cursor limit lines := by
    rw [List.take_add, hlen, slice, ← List.length_drop, ← List.take_eq_take_min]
  simp only [Browse.step, h.holds.page]
  refine ⟨⟨h.holds, ?_, ?_⟩, hnext⟩
  · show b.cursor + (slice b.cursor limit lines).length ≤ lines.length
    omega
  · show _ = (lines.take (b.cursor + (slice b.cursor limit lines).length)).map StoredLine.render
    rw [htake, List.map_append, h.visited]

theorem Browsing.run (h : Browsing lines b) (steps : List BrowseStep) :
    Browsing (lines ++ appended (steps.filterMap BrowseStep.call?)) (Run.run Browse.step b steps) := by
  induction steps generalizing lines b with
  | nil =>
      rw [List.filterMap_nil, appended, List.flatMap_nil, List.append_nil]
      exact h
  | cons s steps ih =>
      cases s with
      | call c =>
          have hrest := ih (h.call c)
          rw [List.append_assoc] at hrest
          simpa [appended, BrowseStep.call?] using hrest
      | next limit => exact ih (h.next limit).1

/-- As many pages as there are lines left reach the end. -/
theorem Browsing.finish (h : Browsing lines b) {limits : List Nat} (hpos : ∀ n ∈ limits, 0 < n)
    (henough : lines.length - b.cursor ≤ limits.length) :
    let last := Run.run Browse.step b (limits.map .next)
    last.cursor = last.store.1.totalLines ∧ last.visited = lines.map StoredLine.render := by
  induction limits generalizing b with
  | nil =>
      have hend : b.cursor = lines.length :=
        Nat.le_antisymm h.cursor (Nat.le_of_sub_eq_zero (Nat.le_zero.mp henough))
      refine ⟨hend.trans h.holds.total.symm, ?_⟩
      show b.visited = _
      rw [h.visited, hend, List.take_length]
  | cons n limits ih =>
      obtain ⟨hnext, hcursor⟩ := h.next n
      rw [List.forall_mem_cons] at hpos
      rw [List.length_cons] at henough
      exact ih hnext hpos.2 (by omega)

/-- **History paging is exact.**  After any calls, with pages turned in between: every page is the
slice of the appended lines that it should be; the reader has seen the lines before its cursor, once
and in order; a page of at least one line moves it on unless it is at the end; and from there on any
pages, as many as there are lines left, show it all of them and end at the number of lines. -/
theorem paging_exact (dir : Path) (chunkLines : Nat) (files : ChunkFiles) (steps : List BrowseStep) :
    let b := Run.run Browse.step (.start dir chunkLines files) steps
    let lines := appended (steps.filterMap BrowseStep.call?)
    (∀ cursor n, b.store.1.readHistory b.store.2 cursor n = some ((lines.drop cursor).take n))
      ∧ b.visited = (lines.take b.cursor).map StoredLine.render
      ∧ b.store.1.totalLines = lines.length
      ∧ (∀ n, (b.step (.next n)).cursor = min (b.cursor + n) lines.length)
      ∧ ∀ limits : List Nat, (∀ n ∈ limits, 0 < n) → lines.length - b.cursor ≤ limits.length →
          let last := Run.run Browse.step b (limits.map .next)
          last.cursor = last.store.1.totalLines ∧ last.visited = lines.map StoredLine.render := by
  intro b lines
  have hstart : Browsing [] (.start dir chunkLines files) :=
    ⟨holds_new dir chunkLines files, Nat.le_refl 0, rfl⟩
  have h : Browsing lines b := by
    have hrun := hstart.run steps
    rwa [List.nil_append] at hrun
  exact ⟨h.holds.readHistory, h.visited, h.holds.total, fun n => (h.next n).2,
    fun limits hpos henough => h.finish hpos henough⟩

/-! ### Chunk writes that fail -/

/-- How a chunk write ends.  One that fails leaves whatever it leaves in the file. -/
inductive WriteResult
  | ok
  | error (left : Option (List StoredLine))
  deriving DecidableEq, Repr

/-- The chunk files after a failed write to `path`. -/
def leave (files : ChunkFiles) (path : Path) : Option (List StoredLine) → ChunkFiles
  | some lines => files.insert path lines
  | none => files.erase path

/-- `flush_chunk`, and whether it returns `Ok`; `write seq` says how the write of chunk `seq` ends.
Every attempt takes a sequence number. -/
def tryFlush (write : Nat → WriteResult) (p : ChunkStore × ChunkFiles) :
    (ChunkStore × ChunkFiles) × Bool :=
  if p.1.pending = [] then (p, true)
  else
    match write p.1.nextSeq with
    | .ok => (p.1.flushChunk p.2, true)
    | .error left =>
        (({ p.1 with nextSeq := p.1.nextSeq + 1 },
          leave p.2 (chunkPath p.1.dir p.1.nextSeq) left), false)

/-- `append`, and whether it returns `Ok`.  The first chunk write that fails ends it. -/
def tryAppend (write : Nat → WriteResult) :
    List StoredLine → ChunkStore × ChunkFiles → (ChunkStore × ChunkFiles) × Bool
  | [], p => (p, true)
  | line :: lines, p =>
      let p := buffer p line
      if p.1.chunkLines ≤ p.1.pending.length then
        match tryFlush write p with
        | (p, true) => tryAppend write lines p
        | (p, false) => (p, false)
      else tryAppend write lines p

/-- A call, as far as its writes succeed. -/
def tryCall (write : Nat → WriteResult) (p : ChunkStore × ChunkFiles) : Call → ChunkStore × ChunkFiles
  | .append lines => (tryAppend write lines p).1
  | .flush => (tryFlush write p).1

section

variable {write : Nat → WriteResult} {lines : List StoredLine} {p : ChunkStore × ChunkFiles}

theorem tryFlush_of_ok (h : write p.1.nextSeq = .ok) : tryFlush write p = (flush p, true) := by
  rw [tryFlush, ChunkStore.flush, h]
  split_ifs with hnil
  · rw [flushChunk, if_pos hnil]
  · rfl

/-- **Without failures `tryAppend` is `append`.** -/
theorem tryAppend_of_ok (h : ∀ seq, write seq = .ok) (batch : List StoredLine)
    (p : ChunkStore × ChunkFiles) : tryAppend write batch p = (append batch p, true) := by
  induction batch generalizing p with
  | nil => rfl
  | cons line batch ih =>
      have hline : append (line :: batch) p = append batch (appendLine p line) := rfl
      rw [tryAppend, hline, appendLine_eq]
      split_ifs
      · rw [tryFlush_of_ok (h _)]
        exact ih _
      · exact ih _

/-- What is left of a chunk is in no chunk of the index. -/
theorem Holds.leave (h : Holds lines p) (left : Option (List StoredLine)) :
    Holds lines ({ p.1 with nextSeq := p.1.nextSeq + 1 },
      ChunkStore.leave p.2 (chunkPath p.1.dir p.1.nextSeq) left) := by
  obtain ⟨parts, hparts, hlines⟩ := h.stored
  refine ⟨⟨parts, h.stores_elsewhere (fun path hne => ?_) hparts, hlines⟩, fun c hc => ?_, h.nonempty,
    h.total⟩
  · cases left with
    | none => exact AList.lookup_erase_ne hne
    | some lines => exact AList.lookup_insert_ne hne
  · obtain ⟨seq, hseq, hpath⟩ := h.named c hc
    exact ⟨seq, Nat.lt_succ_of_lt hseq, hpath⟩

theorem Holds.tryFlush (h : Holds lines p) : Holds lines (tryFlush write p).1 := by
  unfold ChunkStore.tryFlush
  split_ifs
  · exact h
  · split
    · exact h.flush
    · exact h.leave _

/-! ### Where a batch stops -/

/-- Of the writes from `seq` on the first to fail is the one `j` places on. -/
def FailsFirst (write : Nat → WriteResult) (seq j : Nat) : Prop :=
  (∀ i < j, write (seq + i) = .ok) ∧ write (seq + j) ≠ .ok

theorem FailsFirst.unique {seq i j : Nat} (hi : FailsFirst write seq i) (hj : FailsFirst write seq j) :
    i = j := by
  rcases Nat.lt_trichotomy i j with hlt | heq | hgt
  · exact absurd (hj.1 i hlt) hi.2
  · exact heq
  · exact absurd (hi.1 j hgt) hj.2

/-- One write that succeeds before those that follow. -/
theorem FailsFirst.succ {seq j : Nat} (hok : write seq = .ok) (h : FailsFirst write (seq + 1) j) :
    FailsFirst write seq (j + 1) := by
  have hshift (i : Nat) : seq + 1 + i = seq + (i + 1) := by omega
  refine ⟨fun i hi => ?_, ?_⟩
  · cases i with
    | zero => exact hok
    | succ i =>
        rw [← hshift]
        exact h.1 i (Nat.lt_of_succ_lt_succ hi)
  · rw [← hshift]
    exact h.2

/-- How many lines of a batch fill the chunk under way. -/
def room (s : ChunkStore) : Nat := max 1 (s.chunkLines - s.pending.length)

/-- The chunk is full once the line is buffered. -/
def Fills (p : ChunkStore × ChunkFiles) : Prop := p.1.chunkLines ≤ p.1.pending.length + 1

theorem fills_iff {line : StoredLine} :
    (buffer p line).1.chunkLines ≤ (buffer p line).1.pending.length ↔ Fills p := by
  show p.1.chunkLines ≤ (p.1.pending ++ [line]).length ↔ p.1.chunkLines ≤ p.1.pending.length + 1
  rw [List.length_append, List.length_singleton]

theorem tryAppend_open (write : Nat → WriteResult) (line : StoredLine) (hopen : ¬ Fills p)
    (batch : List StoredLine) :
    tryAppend write (line :: batch) p = tryAppend write batch (buffer p line) :=
  if_neg (fills_iff.not.mpr hopen)

theorem tryAppend_written (line : StoredLine) (hfull : Fills p) (hok : write p.1.nextSeq = .ok)
    (batch : List StoredLine) :
    tryAppend write (line :: batch) p = tryAppend write batch (flush (buffer p line)) := by
  have hflush : tryFlush write (buffer p line) = (flush (buffer p line), true) := tryFlush_of_ok hok
  rw [tryAppend, if_pos (fills_iff.mpr hfull), hflush]

theorem tryAppend_failed (line : StoredLine) {left : Option (List StoredLine)} (hfull : Fills p)
    (herr : write p.1.nextSeq = .error left) (batch : List StoredLine) :
    tryAppend write (line :: batch) p
      = (({ (buffer p line).1 with nextSeq := p.1.nextSeq + 1 },
          leave p.2 (chunkPath p.1.dir p.1.nextSeq) left), false) := by
  have hne : (buffer p line).1.pending ≠ [] := List.append_ne_nil_of_right_ne_nil _ (List.cons_ne_nil _ _)
  have herr' : write (buffer p line).1.nextSeq = .error left := herr
  have hflush : tryFlush write (buffer p line)
      = (({ (buffer p line).1 with nextSeq := p.1.nextSeq + 1 },
          leave p.2 (chunkPath p.1.dir p.1.nextSeq) left), false) := by
    rw [tryFlush, if_neg hne, herr']
    rfl
  rw [tryAppend, if_pos (fills_iff.mpr hfull), hflush]

/-- What a written chunk leaves: an empty buffer, and the next sequence number. -/
theorem flush_buffer (p : ChunkStore × ChunkFiles) (line : StoredLine) :
    (flush (buffer p line)).1.pending = [] ∧ (flush (buffer p line)).1.nextSeq = p.1.nextSeq + 1
      ∧ (flush (buffer p line)).1.chunkLines = p.1.chunkLines := by
  have hne : (buffer p line).1.pending ≠ [] := List.append_ne_nil_of_right_ne_nil _ (List.cons_ne_nil _ _)
  rw [ChunkStore.flush, flushChunk, if_neg hne]
  exact ⟨rfl, rfl, rfl⟩

/-- **The append stops inside the batch**, right after a line whose chunk could not be written. -/
def StopsIn (write : Nat → WriteResult) (lines batch : List StoredLine) (p : ChunkStore × ChunkFiles) :
    Prop :=
  (tryAppend write batch p).2 = false ∧ ∃ j, FailsFirst write p.1.nextSeq j
    ∧ p.1.room + j * p.1.chunkLines ≤ batch.length
    ∧ Holds (lines ++ batch.take (p.1.room + j * p.1.chunkLines)) (tryAppend write batch p).1

/-- An append that goes on after its first line stops where the rest of it does. -/
theorem StopsIn.cons {line : StoredLine} {batch : List StoredLine} {p' : ChunkStore × ChunkFiles}
    (hgoes : tryAppend write (line :: batch) p = tryAppend write batch p')
    (hplace : ∀ j, FailsFirst write p'.1.nextSeq j → ∃ i, FailsFirst write p.1.nextSeq i
      ∧ p.1.room + i * p.1.chunkLines = p'.1.room + j * p'.1.chunkLines + 1)
    (h : StopsIn write (lines ++ [line]) batch p') : StopsIn write lines (line :: batch) p := by
  obtain ⟨hstop, j, hfirst, hle, hpart⟩ := h
  obtain ⟨i, hfirst', hcount⟩ := hplace j hfirst
  rw [StopsIn, hgoes]
  refine ⟨hstop, i, hfirst', ?_, ?_⟩
  · rw [hcount, List.length_cons]
    exact Nat.succ_le_succ hle
  · rw [hcount, List.take_succ_cons]
    rwa [List.append_assoc] at hpart

/-- **An append takes the whole batch or stops inside it.** -/
theorem tryAppend_cases (h : Holds lines p) (hpos : 0 < p.1.chunkLines) (batch : List StoredLine) :
    ((tryAppend write batch p).2 = true ∧ Holds (lines ++ batch) (tryAppend write batch p).1)
      ∨ StopsIn write lines batch p := by
  induction batch generalizing lines p with
  | nil => exact .inl ⟨rfl, by rwa [List.append_nil]⟩
  | cons line batch ih =>
      have hbuffer := h.buffer line
      by_cases hfull : Fills p
      · have hroom : p.1.room = 1 := by
          unfold Fills at hfull
          unfold room
          omega
        cases hwrite : write p.1.nextSeq with
        | ok =>
            obtain ⟨hempty, hseq, hsize⟩ := flush_buffer p line
            have hgoes := tryAppend_written line hfull hwrite batch
            rcases ih hbuffer.flush (by rwa [hsize]) with ⟨hok, hall⟩ | hstops
            · rw [List.append_assoc] at hall
              exact .inl ⟨by rw [hgoes, hok], by rw [hgoes]; exact hall⟩
            · -- the chunk just written is one that succeeds before the failure
              refine .inr (hstops.cons hgoes fun j hj => ⟨j + 1, ?_, ?_⟩)
              · rw [hseq] at hj
                exact hj.succ hwrite
              · have hroom' : (flush (buffer p line)).1.room = p.1.chunkLines := by
                  rw [room, hempty, hsize]
                  exact Nat.max_eq_right hpos
                rw [hroom, hroom', hsize, Nat.succ_mul]
                omega
        | error left =>
            have hstop := tryAppend_failed line hfull hwrite batch
            have hcount : p.1.room + 0 * p.1.chunkLines = 1 := by rw [hroom, Nat.zero_mul]
            refine .inr ⟨by rw [hstop], 0, ⟨fun i hi => absurd hi (Nat.not_lt_zero i), ?_⟩, ?_, ?_⟩
            · rw [Nat.add_zero, hwrite]
              exact WriteResult.noConfusion
            · rw [hcount, List.length_cons]
              exact Nat.succ_pos _
            · rw [hstop, hcount, List.take_succ_cons, List.take_zero]
              exact hbuffer.leave left
      · have hgoes := tryAppend_open write line hfull batch
        rcases ih hbuffer hpos with ⟨hok, hall⟩ | hstops
        · rw [List.append_assoc] at hall
          exact .inl ⟨by rw [hgoes, hok], by rw [hgoes]; exact hall⟩
        · refine .inr (hstops.cons hgoes fun j hj => ⟨j, hj, ?_⟩)
          have hroom : p.1.room = (buffer p line).1.room + 1 := by
            have hlen : (buffer p line).1.pending.length = p.1.pending.length + 1 := List.length_append
            have hsize : (buffer p line).1.chunkLines = p.1.chunkLines := rfl
            unfold Fills at hfull
            rw [room, room, hlen, hsize]
            omega
          rw [hroom, Nat.add_right_comm]
          rfl

theorem Holds.tryAppend (h : Holds lines p) (hpos : 0 < p.1.chunkLines) (batch : List StoredLine) :
    ∃ lines', Holds lines' (tryAppend write batch p).1 := by
  rcases tryAppend_cases h hpos batch with ⟨-, hall⟩ | ⟨-, j, -, -, hpart⟩
  · exact ⟨_, hall⟩
  · exact ⟨_, hpart⟩

theorem tryFlush_chunkLines (p : ChunkStore × ChunkFiles) :
    (tryFlush write p).1.1.chunkLines = p.1.chunkLines := by
  unfold tryFlush flushChunk
  split_ifs
  · rfl
  · split <;> rfl

theorem tryAppend_chunkLines (batch : List StoredLine) (p : ChunkStore × ChunkFiles) :
    (tryAppend write batch p).1.1.chunkLines = p.1.chunkLines := by
  induction batch generalizing p with
  | nil => rfl
  | cons line batch ih =>
      by_cases hfull : Fills p
      · cases hwrite : write p.1.nextSeq with
        | ok => rw [tryAppend_written line hfull hwrite, ih, (flush_buffer p line).2.2]
        | error left =>
            rw [tryAppend_failed line hfull hwrite]
            rfl
      · rw [tryAppend_open write line hfull, ih]
        rfl

/-- Whatever writes failed before, a store holds some lines. -/
theorem exists_holds (write : Nat → WriteResult) (dir : Path) (chunkLines : Nat) (files : ChunkFiles)
    (calls : List Call) :
    0 < (Run.run (tryCall write) (new dir chunkLines, files) calls).1.chunkLines
      ∧ ∃ lines, Holds lines (Run.run (tryCall write) (new dir chunkLines, files) calls) := by
  refine Run.always (I := fun p : ChunkStore × ChunkFiles => 0 < p.1.chunkLines ∧ ∃ lines, Holds lines p)
    (fun p c hp => ?_) ⟨Nat.le_max_right _ _, [], holds_new dir chunkLines files⟩ calls
  obtain ⟨hpos, lines, hlines⟩ := hp
  cases c with
  | append batch => exact ⟨by rwa [tryCall, tryAppend_chunkLines], hlines.tryAppend hpos batch⟩
  | flush => exact ⟨by rwa [tryCall, tryFlush_chunkLines], lines, hlines.tryFlush⟩

/-- **Nothing of the batch is lost**: it is served after the earlier lines and counted, and the next
flush that succeeds leaves nothing of it unwritten. -/
def KeepsAll (lines batch : List StoredLine) (p : ChunkStore × ChunkFiles) : Prop :=
  Shows p (lines ++ batch) ∧ (flush p).1.pending = [] ∧ Shows (flush p) (lines ++ batch)

/-- The write that fails is that of the chunk which the last line of the batch fills. -/
def FailsAtLast (write : Nat → WriteResult) (s : ChunkStore) (batch : List StoredLine) : Prop :=
  ∃ j, FailsFirst write s.nextSeq j ∧ s.room + j * s.chunkLines = batch.length

theorem flush_pending (p : ChunkStore × ChunkFiles) : (flush p).1.pending = [] := by
  unfold ChunkStore.flush flushChunk
  split_ifs with hnil
  · exact hnil
  · rfl

/-- **When a failed append loses nothing.**  Whatever was called before, and however the chunk writes
ended: an append that fails keeps its whole batch exactly if the write that fails is that of the chunk
which the last line of the batch fills. -/
theorem failed_append_keeps_iff (dir : Path) (chunkLines : Nat) (files : ChunkFiles)
    (write : Nat → WriteResult) (calls : List Call) (batch : List StoredLine) :
    let p := Run.run (tryCall write) (new dir chunkLines, files) calls
    ∃ lines, Shows p lines ∧ ((tryAppend write batch p).2 = false →
      (KeepsAll lines batch (tryAppend write batch p).1 ↔ FailsAtLast write p.1 batch)) := by
  intro p
  obtain ⟨hpos, lines, hlines⟩ := exists_holds write dir chunkLines files calls
  refine ⟨lines, hlines.shows, fun hfailed => ?_⟩
  rcases tryAppend_cases hlines hpos batch with ⟨hok, -⟩ | ⟨-, j, hfirst, hle, hpart⟩
  · exact absurd (hfailed.symm.trans hok) Bool.false_ne_true
  · constructor
    · intro hkeeps
      have hsame := hpart.shows.unique hkeeps.1
      have hlen := congrArg List.length (List.append_cancel_left hsame)
      rw [List.length_take, Nat.min_eq_left hle] at hlen
      exact ⟨j, hfirst, hlen⟩
    · rintro ⟨i, hfirst', hlast⟩
      rw [hfirst.unique hfirst', hlast, List.take_length] at hpart
      exact ⟨hpart.shows, flush_pending _, hpart.flush.shows⟩

/-- With one line a chunk, the first write fails: the second line of the batch is gone. -/
theorem failed_append_loses :
    let write : Nat → WriteResult := fun _ => .error none
    let r := tryAppend write [.text ['a'], .text ['b']] (new "history" 1, ∅)
    r.2 = false ∧ r.1.1.totalLines = 1 ∧ r.1.1.readHistory r.1.2 0 10 = some [.text ['a']]
      ∧ ¬ KeepsAll [] [.text ['a'], .text ['b']] r.1 :=
  ⟨by decide +kernel, by decide +kernel, by decide +kernel, fun h => absurd h.1.2 (by decide +kernel)⟩

end

end ChunkStore

end MemMux
