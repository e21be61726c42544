/-
MemMux/ChunkStore.lean

The history chunk store (`memmux-pty/src/chunkstore.rs`): lines are appended, every full
chunk becomes a file, and history is read back in pages.

A chunk file is the list of lines in it: compression and JSON are taken to be faithful, and
so is the file system.  `Holds` relates a store to the lines appended to it; appending and
flushing keep it, and a page is a slice of those lines (`Holds.readHistory`).  A store that is
opened again starts with an empty index, whatever the directory holds.
-/
import MemMux.KeyMap
import MemMux.Ring
import MemMux.Run
import MemMux.Text
import Mathlib.Data.List.Forall2

namespace MemMux

/-! ### The store -/

/-- Metadata for one persisted chunk file. -/
structure ChunkMeta where
  seq : Nat
  path : Path
  lineCount : Nat
  deriving DecidableEq, Repr

/-- Appends evicted history to chunk files and serves paged reads. -/
structure ChunkStore where
  dir : Path
  chunkLines : Nat
  pending : List StoredLine
  chunks : List ChunkMeta
  nextSeq : Nat
  totalLines : Nat
  deriving DecidableEq, Repr

/-- The chunk files on disk. -/
abbrev ChunkFiles := KeyMap Path (List StoredLine)

/-- `format!("{n:08}")`. -/
def decPad (width n : Nat) : List Char :=
  List.replicate (width - (Nat.toDigits 10 n).length) '0' ++ Nat.toDigits 10 n

/-- The file of chunk `seq`. -/
def chunkPath (dir : Path) (seq : Nat) : Path :=
  dir.join (String.ofList ("chunk-".toList ++ decPad 8 seq ++ ".jsonl.zst".toList))

namespace ChunkStore

/-- Create a store rooted at `dir`, flushing a chunk every `chunkLines` lines. -/
def new (dir : Path) (chunkLines : Nat) : ChunkStore := ⟨dir, max chunkLines 1, [], [], 0, 0⟩

/-- Write the buffered lines to a chunk of their own. -/
def flushChunk (s : ChunkStore) (files : ChunkFiles) : ChunkStore × ChunkFiles :=
  if s.pending = [] then (s, files)
  else
    let path := chunkPath s.dir s.nextSeq
    ({ s with
        nextSeq := s.nextSeq + 1
        chunks := s.chunks ++ [⟨s.nextSeq, path, s.pending.length⟩]
        pending := [] },
      files.insert path s.pending)

/-- Append one line, flushing a full chunk. -/
def appendLine (p : ChunkStore × ChunkFiles) (line : StoredLine) : ChunkStore × ChunkFiles :=
  let s := { p.1 with pending := p.1.pending ++ [line], totalLines := p.1.totalLines + 1 }
  if s.chunkLines ≤ s.pending.length then s.flushChunk p.2 else (s, p.2)

/-- Append evicted lines, flushing full chunks to disk as they fill. -/
def append (lines : List StoredLine) (p : ChunkStore × ChunkFiles) : ChunkStore × ChunkFiles :=
  lines.foldl appendLine p

/-- Flush any buffered lines to a final (possibly partial) chunk. -/
def flush (p : ChunkStore × ChunkFiles) : ChunkStore × ChunkFiles := p.1.flushChunk p.2

/-- The lines of `lines` that lie in the page, after those already taken; the first of them has
the global index `base`. -/
def pick (cursor n : Nat) : Nat → List StoredLine → List StoredLine → List StoredLine
  | _, out, [] => out
  | base, out, line :: lines =>
      pick cursor n (base + 1) (if cursor ≤ base ∧ out.length < n then out ++ [line] else out) lines

/-- The loop of `readHistory` over the chunks; `none` when a file cannot be read. -/
def readChunks (files : ChunkFiles) (cursor n : Nat) :
    Nat → List StoredLine → List ChunkMeta → Option (Nat × List StoredLine)
  | base, out, [] => some (base, out)
  | base, out, c :: cs =>
      if n ≤ out.length then some (base, out)
      else if cursor < base + c.lineCount then
        match files.lookup c.path with
        | none => none
        | some lines => readChunks files cursor n (base + c.lineCount) (pick cursor n base out lines) cs
      else readChunks files cursor n (base + c.lineCount) out cs

/-- Read up to `n` lines of history starting at global line index `cursor`. -/
def readHistory (s : ChunkStore) (files : ChunkFiles) (cursor n : Nat) : Option (List StoredLine) :=
  (readChunks files cursor n 0 [] s.chunks).map fun (base, out) => pick cursor n base out s.pending

end ChunkStore

/-! ### File names -/

theorem decPad_injective (width : Nat) : Function.Injective (decPad width) := by
  have hval : ∀ n, Nat.ofDigitChars 10 (decPad width n) 0 = n := fun n => by
    rw [decPad, Nat.ofDigitChars_append, Nat.ofDigitChars_replicate_zero, Nat.mul_zero]
    exact Nat.ofDigitChars_toDigits (by decide) (by decide)
  intro n m h
  rw [← hval n, ← hval m, h]

/-- Different chunks have different files. -/
theorem chunkPath_injective (dir : Path) : Function.Injective (chunkPath dir) := by
  intro n m h
  have hname := String.ofList_injective (Path.join_right_injective dir h)
  exact decPad_injective 8 (List.append_cancel_left (List.append_cancel_right hname))

/-! ### Pages -/

/-- `m` lines from index `cursor` on. -/
def slice (cursor m : Nat) (lines : List StoredLine) : List StoredLine := (lines.drop cursor).take m

theorem slice_append (cursor m : Nat) (xs ys : List StoredLine) :
    slice cursor m (xs ++ ys)
      = slice cursor m xs ++ slice (cursor - xs.length) (m - (slice cursor m xs).length) ys := by
  have hlen : m - (xs.drop cursor).length = m - (slice cursor m xs).length := by
    rw [slice, List.length_take]
    omega
  rw [slice, List.drop_append, List.take_append, hlen]
  rfl

namespace ChunkStore

theorem pick_eq (cursor n base : Nat) (out lines : List StoredLine) :
    pick cursor n base out lines = out ++ slice (cursor - base) (n - out.length) lines := by
  induction lines generalizing base out with
  | nil => simp [pick, slice]
  | cons line lines ih =>
      rw [pick, ih]
      by_cases hcur : cursor ≤ base
      · have h0 : cursor - base = 0 := Nat.sub_eq_zero_of_le hcur
        have h1 : cursor - (base + 1) = 0 := by omega
        by_cases hlen : out.length < n
        · have hsucc : n - out.length = (n - (out.length + 1)) + 1 := by omega
          rw [if_pos ⟨hcur, hlen⟩, h0, h1, List.append_assoc, List.length_append,
            List.length_singleton, hsucc]
          rfl
        · have hfull : n - out.length = 0 := by omega
          rw [if_neg fun h => hlen h.2, hfull]
          simp [slice]
      · have hsucc : cursor - base = cursor - (base + 1) + 1 := by omega
        rw [if_neg fun h => hcur h.1, hsucc]
        rfl

/-- Whether the file of a chunk holds these lines. -/
def Stores (files : ChunkFiles) (c : ChunkMeta) (lines : List StoredLine) : Prop :=
  files.lookup c.path = some lines ∧ c.lineCount = lines.length

/-- A chunk before the page adds nothing to it, so that leaving it unread makes no difference. -/
theorem readChunks_cons {files : ChunkFiles} {c : ChunkMeta} {lines : List StoredLine}
    (hc : Stores files c lines) {cursor n base : Nat} {out : List StoredLine} (hn : out.length < n)
    (cs : List ChunkMeta) :
    readChunks files cursor n base out (c :: cs)
      = readChunks files cursor n (base + lines.length)
          (out ++ slice (cursor - base) (n - out.length) lines) cs := by
  rw [readChunks, if_neg (Nat.not_le.mpr hn), hc.1, hc.2]
  by_cases hin : cursor < base + lines.length
  · rw [if_pos hin]
    dsimp only
    rw [pick_eq]
  · have hnone : slice (cursor - base) (n - out.length) lines = [] := by
      rw [slice, List.drop_eq_nil_of_le (by omega), List.take_nil]
    rw [if_neg hin, hnone, List.append_nil]

/-- The loop reads the part of the page that lies in the chunks, and stops early only when the
page is full. -/
theorem readChunks_eq {files : ChunkFiles} {cs : List ChunkMeta} {parts : List (List StoredLine)}
    (h : List.Forall₂ (Stores files) cs parts) (cursor n base : Nat) (out : List StoredLine) :
    ∃ base' out', readChunks files cursor n base out cs = some (base', out')
      ∧ out' = out ++ slice (cursor - base) (n - out.length) parts.flatten
      ∧ (base' = base + parts.flatten.length ∨ n ≤ out'.length) := by
  induction h generalizing base out with
  | nil => exact ⟨base, out, rfl, by simp [slice], .inl rfl⟩
  | @cons c lines cs parts hc _ ih =>
      by_cases hfull : n ≤ out.length
      · refine ⟨base, out, if_pos hfull, ?_, .inr hfull⟩
        rw [Nat.sub_eq_zero_of_le hfull]
        simp [slice]
      · rw [readChunks_cons hc (Nat.not_le.mp hfull)]
        obtain ⟨base', out', hread, hout, hend⟩ := ih (base + lines.length)
          (out ++ slice (cursor - base) (n - out.length) lines)
        refine ⟨base', out', hread, ?_, ?_⟩
        · rw [hout, List.flatten_cons, slice_append, List.append_assoc, List.length_append]
          congr 2
          · rw [Nat.sub_add_eq, Nat.sub_add_eq]
        · rw [List.flatten_cons, List.length_append]
          exact hend.imp_left fun hb => hb.trans (Nat.add_assoc _ _ _)

/-! ### What a store holds -/

/-- **The store holds the lines appended to it**: those in its chunks, and those still buffered.
Every chunk has a file of its own. -/
structure Holds (lines : List StoredLine) (p : ChunkStore × ChunkFiles) : Prop where
  stored : ∃ parts, List.Forall₂ (Stores p.2) p.1.chunks parts ∧ parts.flatten ++ p.1.pending = lines
  named : ∀ c ∈ p.1.chunks, ∃ seq < p.1.nextSeq, c.path = chunkPath p.1.dir seq
  nonempty : ∀ c ∈ p.1.chunks, 0 < c.lineCount
  total : p.1.totalLines = lines.length

theorem holds_new (dir : Path) (chunkLines : Nat) (files : ChunkFiles) :
    Holds [] (new dir chunkLines, files) :=
  ⟨⟨[], .nil, rfl⟩, fun _ hc => (nomatch hc), fun _ hc => (nomatch hc), rfl⟩

/-- A file under the next number is none of the chunks'. -/
theorem Holds.stores_elsewhere {lines : List StoredLine} {p : ChunkStore × ChunkFiles}
    (h : Holds lines p) {files : ChunkFiles}
    (hfiles : ∀ path, path ≠ chunkPath p.1.dir p.1.nextSeq → files.lookup path = p.2.lookup path)
    {parts : List (List StoredLine)} (hparts : List.Forall₂ (Stores p.2) p.1.chunks parts) :
    List.Forall₂ (Stores files) p.1.chunks parts := by
  have hboth := (List.forall₂_and_left _ _).mpr ⟨h.named, hparts⟩
  refine hboth.imp ?_
  rintro c lines ⟨⟨seq, hseq, hpath⟩, hfile, hcount⟩
  have hne : c.path ≠ chunkPath p.1.dir p.1.nextSeq := fun heq =>
    hseq.ne (chunkPath_injective _ (hpath ▸ heq))
  exact ⟨(hfiles c.path hne).trans hfile, hcount⟩

theorem Holds.flush {lines : List StoredLine} {p : ChunkStore × ChunkFiles} (h : Holds lines p) :
    Holds lines (flush p) := by
  obtain ⟨parts, hparts, hlines⟩ := h.stored
  unfold ChunkStore.flush flushChunk
  split_ifs with hp
  · exact h
  · refine ⟨⟨parts ++ [p.1.pending], ?_, by simpa using hlines⟩, fun c hc => ?_, fun c hc => ?_,
      h.total⟩
    · refine List.rel_append (h.stores_elsewhere (fun path hne => ?_) hparts)
        (.cons ⟨AList.lookup_insert _, rfl⟩ .nil)
      exact AList.lookup_insert_ne hne
    · rcases List.mem_append.mp hc with hc | hc
      · obtain ⟨seq, hseq, hpath⟩ := h.named c hc
        exact ⟨seq, Nat.lt_succ_of_lt hseq, hpath⟩
      · rw [List.mem_singleton.mp hc]
        exact ⟨p.1.nextSeq, Nat.lt_succ_self _, rfl⟩
    · rcases List.mem_append.mp hc with hc | hc
      · exact h.nonempty c hc
      · rw [List.mem_singleton.mp hc]
        exact List.length_pos_of_ne_nil hp

/-- Buffer one line. -/
def buffer (p : ChunkStore × ChunkFiles) (line : StoredLine) : ChunkStore × ChunkFiles :=
  ({ p.1 with pending := p.1.pending ++ [line], totalLines := p.1.totalLines + 1 }, p.2)

/-- A line is buffered, and a full buffer is flushed. -/
theorem appendLine_eq (p : ChunkStore × ChunkFiles) (line : StoredLine) :
    appendLine p line
      = if (buffer p line).1.chunkLines ≤ (buffer p line).1.pending.length then flush (buffer p line)
        else buffer p line := rfl

theorem Holds.buffer {lines : List StoredLine} {p : ChunkStore × ChunkFiles} (h : Holds lines p)
    (line : StoredLine) : Holds (lines ++ [line]) (buffer p line) := by
  obtain ⟨parts, hparts, hlines⟩ := h.stored
  refine ⟨⟨parts, hparts, ?_⟩, h.named, h.nonempty, ?_⟩
  · show parts.flatten ++ (p.1.pending ++ [line]) = lines ++ [line]
    rw [← hlines, List.append_assoc]
  · show p.1.totalLines + 1 = (lines ++ [line]).length
    rw [h.total, List.length_append, List.length_singleton]

theorem Holds.appendLine {lines : List StoredLine} {p : ChunkStore × ChunkFiles} (h : Holds lines p)
    (line : StoredLine) : Holds (lines ++ [line]) (appendLine p line) := by
  rw [appendLine_eq]
  split_ifs
  · exact (h.buffer line).flush
  · exact h.buffer line

theorem Holds.append {lines : List StoredLine} {p : ChunkStore × ChunkFiles} (h : Holds lines p)
    (more : List StoredLine) : Holds (lines ++ more) (append more p) := by
  induction more generalizing lines p with
  | nil => rwa [List.append_nil]
  | cons line more ih =>
      have := ih (h.appendLine line)
      rwa [List.append_assoc] at this

/-- **A page is a slice of the lines appended.** -/
theorem Holds.readHistory {lines : List StoredLine} {p : ChunkStore × ChunkFiles} (h : Holds lines p)
    (cursor n : Nat) : p.1.readHistory p.2 cursor n = some (slice cursor n lines) := by
  obtain ⟨parts, hparts, hlines⟩ := h.stored
  obtain ⟨base, out, hread, hout, hend⟩ := readChunks_eq hparts cursor n 0 []
  have hslice : out = slice cursor n parts.flatten := hout
  rw [ChunkStore.readHistory, hread, Option.map_some, ← hlines, slice_append, ← hslice]
  show some (pick cursor n base out p.1.pending) = _
  rw [pick_eq]
  rcases hend with hbase | hfull
  · rw [hbase, Nat.zero_add]
  · rw [Nat.sub_eq_zero_of_le hfull]
    simp [slice]

/-- Without lines there are no chunks. -/
theorem Holds.chunks_nil {p : ChunkStore × ChunkFiles} (h : Holds [] p) : p.1.chunks = [] := by
  obtain ⟨parts, hparts, hlines⟩ := h.stored
  have hpos := h.nonempty
  generalize p.1.chunks = chunks at hparts hpos ⊢
  cases hparts with
  | nil => rfl
  | cons hc _ =>
      have hnil := List.append_eq_nil_iff.mp (List.append_eq_nil_iff.mp hlines).1
      have hlen := hpos _ List.mem_cons_self
      rw [hc.2, hnil.1] at hlen
      exact absurd hlen (Nat.lt_irrefl 0)

/-! ### Calls and reopening -/

/-- A call that writes to the store. -/
inductive Call
  | append (lines : List StoredLine)
  | flush
  deriving DecidableEq, Repr

def Call.step (p : ChunkStore × ChunkFiles) : Call → ChunkStore × ChunkFiles
  | .append lines => ChunkStore.append lines p
  | .flush => ChunkStore.flush p

/-- The lines a sequence of calls appends. -/
def appended (calls : List Call) : List StoredLine :=
  calls.flatMap fun
    | .append lines => lines
    | .flush => []

/-- A store that is opened and written to, with the directory it leaves. -/
def openAndCall (dir : Path) (chunkLines : Nat) (files : ChunkFiles) (calls : List Call) :
    ChunkStore × ChunkFiles := Run.run Call.step (new dir chunkLines, files) calls

theorem Holds.run {lines : List StoredLine} {p : ChunkStore × ChunkFiles} (h : Holds lines p)
    (calls : List Call) : Holds (lines ++ appended calls) (Run.run Call.step p calls) := by
  induction calls generalizing lines p with
  | nil =>
      rw [appended, List.flatMap_nil, List.append_nil]
      exact h
  | cons call calls ih =>
      rw [appended, List.flatMap_cons, ← List.append_assoc]
      cases call with
      | append more =>
          have hstep := h.append more
          exact ih hstep
      | flush =>
          have hstep := h.flush
          rw [← List.append_nil lines] at hstep
          exact ih hstep

/-- **A store that is opened and written to holds exactly what it was given.** -/
theorem holds_openAndCall (dir : Path) (chunkLines : Nat) (files : ChunkFiles) (calls : List Call) :
    Holds (appended calls) (openAndCall dir chunkLines files calls) :=
  (holds_new dir chunkLines files).run calls

/-- The history that `lines` make up, as a reader of the store sees it. -/
def Shows (p : ChunkStore × ChunkFiles) (lines : List StoredLine) : Prop :=
  (∀ cursor n, p.1.readHistory p.2 cursor n = some (slice cursor n lines))
    ∧ p.1.totalLines = lines.length

theorem Holds.shows {lines : List StoredLine} {p : ChunkStore × ChunkFiles} (h : Holds lines p) :
    Shows p lines := ⟨h.readHistory, h.total⟩

/-- A store shows one history. -/
theorem Shows.unique {p : ChunkStore × ChunkFiles} {xs ys : List StoredLine} (hx : Shows p xs)
    (hy : Shows p ys) : xs = ys := by
  have hlen : xs.length = ys.length := hx.2.symm.trans hy.2
  have hpage := (hx.1 0 xs.length).symm.trans (hy.1 0 xs.length)
  have hslice : xs.take xs.length = ys.take xs.length := Option.some.inj hpage
  rwa [List.take_length, hlen, List.take_length] at hslice

/-- **The history goes on across a reopening**: the lines appended before come first, then the
new ones, and the chunk files written before are as they were. -/
def Continues (first : ChunkStore × ChunkFiles) (before : List Call)
    (second : ChunkStore × ChunkFiles) (after : List Call) : Prop :=
  Shows second (appended before ++ appended after)
    ∧ ∀ c ∈ first.1.chunks, second.2.lookup c.path = first.2.lookup c.path

/-- **History goes on across a reopening exactly if there was none before it.**  A store opened
again counts from zero and writes its first chunk over the old one. -/
theorem reopen_continues_iff (dir : Path) (chunkLines chunkLines' : Nat) (files : ChunkFiles)
    (before after : List Call) :
    let first := openAndCall dir chunkLines files (before ++ [.flush])
    Continues first before (openAndCall dir chunkLines' first.2 after) after
      ↔ appended before = [] := by
  intro first
  have hflush : appended (before ++ [.flush]) = appended before := by
    simp [appended]
  have hfirst : Holds (appended before) first := hflush ▸ holds_openAndCall dir chunkLines files _
  have hsecond := holds_openAndCall dir chunkLines' first.2 after
  constructor
  · intro h
    have htotal := h.1.2
    rw [hsecond.total, List.length_append] at htotal
    exact List.eq_nil_of_length_eq_zero (by omega)
  · intro hnone
    rw [hnone] at hfirst
    refine ⟨?_, fun c hc => ?_⟩
    · rw [hnone]
      exact hsecond.shows
    · rw [hfirst.chunks_nil] at hc
      exact nomatch hc

/-- Two lines are written and flushed; after a reopening the store shows one line, the new one, and
its first chunk has replaced the old one. -/
theorem reopen_overwrites :
    let before := [Call.append [.text ['a'], .text ['b']]]
    let first := openAndCall "history" 500 ∅ (before ++ [.flush])
    let after := [Call.append [.text ['c']], .flush]
    let second := openAndCall "history" 500 first.2 after
    (second.1.readHistory second.2 0 10 = some [.text ['c']] ∧ second.1.totalLines = 1
      ∧ first.2.lookup (chunkPath "history" 0) = some [.text ['a'], .text ['b']]
      ∧ second.2.lookup (chunkPath "history" 0) = some [.text ['c']])
      ∧ ¬ Continues first before second after :=
  ⟨by decide +kernel, fun h => absurd h.1.2 (by decide +kernel)⟩

end ChunkStore

end MemMux
