/-
MemMux/Fates.lean

What becomes of every captured line (`memmux-pty/src/capture.rs`, `truncate.rs`).

The loop of `ingest` comes to its end (`loops_ingest`), and every line that it hands on has one of
three fates (`LineFate`): it is pushed whole, its head is pushed and the whole of it becomes an
artifact, or the governor drops it.  The ring and the artifacts are what these fates say.

The head is the one that the byte search of `truncate_line` finds (`byteLen_takeBytes`).
-/
import Mathlib.Data.List.Infix
import Mathlib.Data.List.Nodup
import MemMux.Capture
import MemMux.Run

namespace MemMux

/-! ### The head of a truncated line -/

/-- **The longest head within `limit` bytes.**  A head is a list of characters, so it ends at a
character boundary. -/
structure IsLongestHead (limit : Nat) (line head : List Char) : Prop where
  isPrefix : head <+: line
  within : byteLen head ≤ limit
  longest : ∀ other, other <+: line → byteLen other ≤ limit → other <+: head

theorem isLongestHead_takeBytes (limit : Nat) (line : List Char) :
    IsLongestHead limit line (takeBytes limit line) := by
  induction line generalizing limit with
  | nil => exact ⟨List.nil_prefix, Nat.zero_le _, fun other h _ => List.prefix_nil.mp h ▸ List.nil_prefix⟩
  | cons c cs ih =>
      have hcons (p : List Char) : byteLen (c :: p) = c.utf8Size + byteLen p := rfl
      rw [takeBytes]
      split_ifs with hfits
      · obtain ⟨hhead, hwithin, hlongest⟩ := ih (limit - c.utf8Size)
        refine ⟨List.cons_prefix_cons.mpr ⟨rfl, hhead⟩, ?_, fun other hother hle => ?_⟩
        · rw [hcons]
          omega
        · cases other with
          | nil => exact List.nil_prefix
          | cons d ds =>
              obtain ⟨rfl, htail⟩ := List.cons_prefix_cons.mp hother
              rw [hcons] at hle
              exact List.cons_prefix_cons.mpr ⟨rfl, hlongest ds htail (by omega)⟩
      · refine ⟨List.nil_prefix, Nat.zero_le _, fun other hother hle => ?_⟩
        cases other with
        | nil => exact List.nil_prefix
        | cons d ds =>
            obtain ⟨rfl, -⟩ := List.cons_prefix_cons.mp hother
            rw [hcons] at hle
            omega

/-- `str::is_char_boundary`. -/
def isCharBoundary (line : List Char) (n : Nat) : Bool := n ∈ line.inits.map byteLen

/-- `while end > 0 && !line.is_char_boundary(end) { end -= 1; }`. -/
def floorBoundary (line : List Char) : Nat → Nat
  | 0 => 0
  | n + 1 => if isCharBoundary line (n + 1) then n + 1 else floorBoundary line n

theorem isCharBoundary_iff {line : List Char} {n : Nat} :
    isCharBoundary line n = true ↔ ∃ p, p <+: line ∧ byteLen p = n := by
  simp [isCharBoundary, List.mem_inits]

/-- The search finds the last boundary. -/
theorem floorBoundary_eq {line : List Char} {m n : Nat} (hm : isCharBoundary line m = true)
    (hle : m ≤ n) (hlast : ∀ k, isCharBoundary line k = true → k ≤ n → k ≤ m) :
    floorBoundary line n = m := by
  induction n with
  | zero => exact (Nat.le_zero.mp hle).symm
  | succ n ih =>
      rw [floorBoundary]
      split_ifs with hb
      · exact Nat.le_antisymm (hlast _ hb (Nat.le_refl _)) hle
      · have hne : m ≠ n + 1 := fun heq => hb (heq ▸ hm)
        exact ih (by omega) fun k hk hkn => hlast k hk (Nat.le_succ_of_le hkn)

/-- **The head of a truncated line is the slice up to the last character boundary at or below the cap**,
as the search of `truncate_line` finds it. -/
theorem byteLen_takeBytes (limit : Nat) (line : List Char) :
    byteLen (takeBytes limit line) = floorBoundary line (min limit (byteLen line)) := by
  have hhead := isLongestHead_takeBytes limit line
  have hmono {p q : List Char} (h : p <+: q) : byteLen p ≤ byteLen q := by
    obtain ⟨t, rfl⟩ := h
    rw [byteLen_append]
    exact Nat.le_add_right _ _
  refine (floorBoundary_eq (isCharBoundary_iff.mpr ⟨_, hhead.isPrefix, rfl⟩)
    (Nat.le_min.mpr ⟨hhead.within, hmono hhead.isPrefix⟩) fun k hk hle => ?_).symm
  obtain ⟨p, hp, rfl⟩ := isCharBoundary_iff.mp hk
  exact hmono (hhead.longest p hp (Nat.le_trans hle (Nat.min_le_left _ _)))

namespace CaptureBuffer

/-! ### The loop comes to its end -/

/-- The loop of `ingest`, run until it breaks. -/
inductive Loops (nowMs : Nat) : CaptureBuffer → CaptureBuffer → Prop
  /-- no line ends, and the partial line is within the cap -/
  | done {c : CaptureBuffer} : findLine c.pending = none → byteLen c.pending ≤ c.cfg.maxLineBytes →
      Loops nowMs c c
  /-- no line ends, and the partial line is flushed -/
  | oversized {c : CaptureBuffer} : findLine c.pending = none →
      c.cfg.maxLineBytes < byteLen c.pending →
      Loops nowMs c (ingestLine nowMs c.pending { c with pending := [] })
  /-- a line ends -/
  | line {c c' : CaptureBuffer} {line rest : List Char} : findLine c.pending = some (line, rest) →
      Loops nowMs (ingestLine nowMs line { c with pending := rest }) c' → Loops nowMs c c'

theorem loops_ingestLoop {n : Nat} {c : CaptureBuffer} (nowMs : Nat) (h : c.pending.length < n) :
    Loops nowMs c (ingestLoop nowMs n c) := by
  induction n generalizing c with
  | zero => exact absurd h (Nat.not_lt_zero _)
  | succ n ih =>
      rw [ingestLoop]
      rcases findLine_cases c.pending with ⟨hfind, -⟩ | ⟨line, rest, hfind, hlen, -⟩
      · rw [hfind]
        dsimp only
        split_ifs with hover
        · exact .oversized hfind hover
        · exact .done hfind (Nat.not_lt.mp hover)
      · rw [hfind]
        refine .line hfind (ih ?_)
        rw [ingestLine_pending]
        exact Nat.lt_of_lt_of_le hlen (Nat.le_of_lt_succ h)

/-- **`ingest` terminates**, whatever the buffer and the chunk. -/
theorem loops_ingest (data : List Char) (nowMs : Nat) (c : CaptureBuffer) :
    Loops nowMs { c with pending := c.pending ++ data } (c.ingest data nowMs) :=
  loops_ingestLoop nowMs (Nat.lt_succ_self _)

end CaptureBuffer

/-! ### Three fates of a line -/

/-- What becomes of a line. -/
inductive LineFate
  /-- it is pushed to the ring as it is -/
  | text
  /-- its head is pushed, with the reference of the artifact that holds the whole line -/
  | truncated (head : List Char) (artifactRef : String)
  /-- the governor drops it -/
  | dropped (decision : GovernanceDecision)
  deriving DecidableEq, Repr

/-- A line, when it was observed, and what became of it. -/
structure CapturedLine where
  line : List Char
  nowMs : Nat
  fate : LineFate
  deriving DecidableEq, Repr

namespace CapturedLine

/-- The entry that is pushed. -/
def stored (l : CapturedLine) : Option StoredLine :=
  match l.fate with
  | .text => some (.text l.line)
  | .truncated head artifactRef => some (.truncated head (byteLen l.line) artifactRef)
  | .dropped _ => none

/-- The artifact that is left. -/
def artifact (l : CapturedLine) : Option PendingArtifact :=
  match l.fate with
  | .truncated _ artifactRef => some ⟨artifactRef, l.line⟩
  | _ => none

/-- What the governor decided. -/
def decision (l : CapturedLine) : GovernanceDecision :=
  match l.fate with
  | .dropped decision => decision
  | _ => .store

/-- **The fate is one that the line may have**: it is whole if it fits the cap, its head is the longest
one if it does not, and it is dropped only by a decision not to store it. -/
def Sound (maxLineBytes : Nat) (l : CapturedLine) : Prop :=
  match l.fate with
  | .text => byteLen l.line ≤ maxLineBytes
  | .truncated head _ =>
      maxLineBytes < byteLen l.line ∧ IsLongestHead (max maxLineBytes 1) l.line head
  | .dropped decision => decision ≠ .store

/-- What the governor sees of the line. -/
def seen (l : CapturedLine) : Nat × Nat := (byteLen l.line, l.nowMs)

end CapturedLine

namespace OutputGovernor

/-- The governor after some lines, given by their sizes and times. -/
def after (g : OutputGovernor) (lines : List (Nat × Nat)) : OutputGovernor :=
  Run.run (fun g l => (g.onLine l.1 l.2).1) g lines

/-- What it decides about them. -/
def decisions (g : OutputGovernor) : List (Nat × Nat) → List GovernanceDecision
  | [] => []
  | l :: lines => (g.onLine l.1 l.2).2.decision :: decisions (g.onLine l.1 l.2).1 lines

theorem after_concat (g : OutputGovernor) (lines : List (Nat × Nat)) (l : Nat × Nat) :
    g.after (lines ++ [l]) = ((g.after lines).onLine l.1 l.2).1 := Run.run_append _ _ _ _

theorem decisions_concat (g : OutputGovernor) (lines : List (Nat × Nat)) (l : Nat × Nat) :
    g.decisions (lines ++ [l])
      = g.decisions lines ++ [((g.after lines).onLine l.1 l.2).2.decision] := by
  induction lines generalizing g with
  | nil => rfl
  | cons l' lines ih => exact congrArg (_ :: ·) (ih (g.onLine l'.1 l'.2).1)

end OutputGovernor

/-- The reference of the n-th artifact. -/
def artifactRef (n : Nat) : String := "art_" ++ toString n

theorem artifactRef_injective : Function.Injective artifactRef := by
  intro m n h
  have htail : toString m = toString n := by
    have hlist := congrArg String.toList h
    rw [artifactRef, artifactRef, String.toList_append, String.toList_append] at hlist
    exact String.toList_inj.mp (List.append_cancel_left hlist)
  have hdigits := congrArg String.toList htail
  rw [Nat.toString_eq_repr, Nat.toString_eq_repr, Nat.toList_repr, Nat.toList_repr] at hdigits
  have hread := congrArg (fun ds => Nat.ofDigitChars 10 ds 0) hdigits
  simpa only [Nat.ofDigitChars_toDigits (by decide : 1 < 10) (Nat.le_refl 10)] using hread

namespace CaptureBuffer

/-- What becomes of a line that is handed to `ingestLine`. -/
def fate (nowMs : Nat) (line : List Char) (c : CaptureBuffer) : LineFate :=
  match (c.governor.onLine (byteLen line) nowMs).2.decision with
  | .store =>
      match truncateLine line c.cfg.maxLineBytes with
      | .kept _ => .text
      | .truncated head _ _ => .truncated head (artifactRef c.artifactSeq)
  | decision => .dropped decision

/-- **`ingestLine` gives the line its fate.** -/
theorem ingestLine_eq (nowMs : Nat) (line : List Char) (c : CaptureBuffer) :
    let l : CapturedLine := ⟨line, nowMs, c.fate nowMs line⟩
    ingestLine nowMs line c
        = { c with
            governor := (c.governor.onLine (byteLen line) nowMs).1
            events := c.events ++ (c.governor.onLine (byteLen line) nowMs).2.event.toList
            buffer := l.stored.toList.foldl (fun b s => b.push s) c.buffer
            artifacts := c.artifacts ++ l.artifact.toList
            artifactSeq := c.artifactSeq + l.artifact.toList.length }
      ∧ l.decision = (c.governor.onLine (byteLen line) nowMs).2.decision
      ∧ l.Sound c.cfg.maxLineBytes
      ∧ ∀ a ∈ l.artifact, a.artifactRef = artifactRef c.artifactSeq := by
  unfold ingestLine fate storeLine truncateLine CapturedLine.Sound
  generalize c.governor.onLine (byteLen line) nowMs = out
  obtain ⟨g, decision, event⟩ := out
  cases decision with
  | sampledOut => simp [CapturedLine.stored, CapturedLine.artifact, CapturedLine.decision]
  | quotaExceeded => simp [CapturedLine.stored, CapturedLine.artifact, CapturedLine.decision]
  | store =>
      dsimp only
      split_ifs with hfits
      · simp [CapturedLine.stored, CapturedLine.artifact, CapturedLine.decision, hfits]
      · have hhead := isLongestHead_takeBytes (max c.cfg.maxLineBytes 1) line
        simp [CapturedLine.stored, CapturedLine.artifact, CapturedLine.decision, hhead,
          Nat.not_le.mp hfits, artifactRef]

/-! ### Accounting for a run -/

/-- **The buffer is what the fates of the lines so far say.** -/
structure Accounted (cfg : CaptureConfig) (log : List CapturedLine) (c : CaptureBuffer) : Prop where
  config : c.cfg = cfg
  sound : ∀ l ∈ log, l.Sound cfg.maxLineBytes
  governor : c.governor = (OutputGovernor.new cfg.governance).after (log.map CapturedLine.seen)
  decided : log.map CapturedLine.decision
    = (OutputGovernor.new cfg.governance).decisions (log.map CapturedLine.seen)
  buffer : c.buffer = (log.filterMap CapturedLine.stored).foldl (fun b s => b.push s) (.new cfg.ring)
  artifacts : c.artifacts = log.filterMap CapturedLine.artifact
  refs : c.artifacts.map PendingArtifact.artifactRef = (List.range c.artifactSeq).map artifactRef

variable {cfg : CaptureConfig} {log : List CapturedLine} {c : CaptureBuffer}

theorem accounted_new (cfg : CaptureConfig) : Accounted cfg [] (new cfg) :=
  ⟨rfl, fun _ hl => (nomatch hl), rfl, rfl, rfl, rfl, rfl⟩

theorem Accounted.setPending (h : Accounted cfg log c) (pending : List Char) :
    Accounted cfg log { c with pending := pending } :=
  ⟨h.config, h.sound, h.governor, h.decided, h.buffer, h.artifacts, h.refs⟩

/-- **One line more is accounted for.** -/
theorem Accounted.ingestLine (h : Accounted cfg log c) (nowMs : Nat) (line : List Char) :
    Accounted cfg (log ++ [⟨line, nowMs, c.fate nowMs line⟩]) (ingestLine nowMs line c) := by
  obtain ⟨heq, hdecision, hsound, hrefs⟩ := ingestLine_eq nowMs line c
  generalize hl : (⟨line, nowMs, c.fate nowMs line⟩ : CapturedLine) = l at heq hdecision hsound hrefs ⊢
  have hseen : l.seen = (byteLen line, nowMs) := by rw [← hl]; rfl
  rw [heq]
  refine ⟨h.config, fun l' hl' => ?_, ?_, ?_, ?_, ?_, ?_⟩
  · rcases List.mem_append.mp hl' with hl' | hl'
    · exact h.sound l' hl'
    · rw [List.mem_singleton.mp hl', ← h.config]
      exact hsound
  · rw [List.map_append, List.map_singleton, OutputGovernor.after_concat, ← h.governor, hseen]
  · rw [List.map_append, List.map_append, List.map_singleton, List.map_singleton,
      OutputGovernor.decisions_concat, ← h.governor, h.decided, hdecision, hseen]
  · rw [List.filterMap_append, List.foldl_append, ← h.buffer]
    cases hst : l.stored <;> simp [hst]
  · rw [List.filterMap_append, ← h.artifacts]
    cases hart : l.artifact <;> simp [hart]
  · show (c.artifacts ++ l.artifact.toList).map PendingArtifact.artifactRef = _
    rw [List.map_append, h.refs]
    cases hart : l.artifact with
    | none => simp
    | some a => simp [List.range_succ, hrefs a hart]

theorem Accounted.ingestLines (h : Accounted cfg log c) (nowMs : Nat) (lines : List (List Char)) :
    ∃ more : List CapturedLine, more.map (fun l => (l.line, l.nowMs)) = lines.map (·, nowMs)
      ∧ Accounted cfg (log ++ more) (ingestLines nowMs lines c) := by
  induction lines generalizing log c with
  | nil => exact ⟨[], rfl, by rwa [List.append_nil]⟩
  | cons line lines ih =>
      obtain ⟨more, hmore, hacc⟩ := ih (h.ingestLine nowMs line)
      refine ⟨⟨line, nowMs, c.fate nowMs line⟩ :: more, ?_, ?_⟩
      · rw [List.map_cons, List.map_cons, hmore]
      · rwa [List.append_assoc] at hacc

/-- What is done to a capture buffer. -/
inductive Call
  | ingest (data : List Char) (nowMs : Nat)
  | flush (nowMs : Nat)
  deriving DecidableEq, Repr

def call (c : CaptureBuffer) : Call → CaptureBuffer
  | .ingest data nowMs => c.ingest data nowMs
  | .flush nowMs => c.flush nowMs

/-- The lines that a call hands on, with the time of the call. -/
def produced (c : CaptureBuffer) : Call → List (List Char × Nat)
  | .ingest data nowMs => (completed c.cfg.maxLineBytes c.pending data).1.map (·, nowMs)
  | .flush nowMs => if c.pending = [] then [] else [(c.pending, nowMs)]

/-- The lines that some calls hand on. -/
def producedAll (c : CaptureBuffer) : List Call → List (List Char × Nat)
  | [] => []
  | a :: calls => c.produced a ++ (c.call a).producedAll calls

/-- Between two calls the pending text ends no line and is within the cap. -/
def PendingSmall (c : CaptureBuffer) : Prop :=
  (∀ x ∈ c.pending, isPlain x) ∧ byteLen c.pending ≤ c.cfg.maxLineBytes

/-- **One call.** -/
theorem Accounted.call (h : Accounted cfg log c) (hp : c.PendingSmall) (a : Call) :
    (c.call a).PendingSmall
      ∧ ∃ more : List CapturedLine, more.map (fun l => (l.line, l.nowMs)) = c.produced a
          ∧ Accounted cfg (log ++ more) (c.call a) := by
  cases a with
  | ingest data nowMs =>
      have hplain := ingest_plain hp.1 data nowMs
      obtain ⟨more, hmore, hacc⟩ := h.ingestLines nowMs
        (completed c.cfg.maxLineBytes c.pending data).1
      have heq := ingest_eq hp.1 data nowMs
      refine ⟨⟨hplain, ?_⟩, more, hmore, ?_⟩
      · show byteLen (c.ingest data nowMs).pending ≤ (c.ingest data nowMs).cfg.maxLineBytes
        rw [heq]
        dsimp only
        rw [ingestLines_cfg]
        exact byteLen_completed _ _ _
      · show Accounted cfg (log ++ more) (c.ingest data nowMs)
        rw [heq]
        exact hacc.setPending _
  | flush nowMs =>
      simp only [CaptureBuffer.call, flush, produced]
      split_ifs with hnil
      · exact ⟨hp, [], rfl, by rwa [List.append_nil]⟩
      · refine ⟨?_, [⟨c.pending, nowMs, c.fate nowMs c.pending⟩], rfl, ?_⟩
        · rw [ingestLine_pending]
          exact ⟨fun x hx => (nomatch hx), Nat.zero_le _⟩
        · rw [ingestLine_pending]
          exact (h.ingestLine nowMs c.pending).setPending []

theorem Accounted.run (h : Accounted cfg log c) (hp : c.PendingSmall) (calls : List Call) :
    (Run.run CaptureBuffer.call c calls).PendingSmall
      ∧ ∃ more : List CapturedLine, more.map (fun l => (l.line, l.nowMs)) = c.producedAll calls
          ∧ Accounted cfg (log ++ more) (Run.run CaptureBuffer.call c calls) := by
  induction calls generalizing log c with
  | nil => exact ⟨hp, [], rfl, by rwa [List.append_nil]⟩
  | cons a calls ih =>
      obtain ⟨hp', more, hmore, hacc⟩ := h.call hp a
      obtain ⟨hp'', more', hmore', hacc'⟩ := ih hacc hp'
      refine ⟨hp'', more ++ more', ?_, ?_⟩
      · rw [List.map_append, hmore, hmore']
        rfl
      · rwa [List.append_assoc] at hacc'

/-- **Capture conserves lines.**  Every `ingest` comes to its end.  After any calls the pending text
has no line end and is within the cap, and the lines handed on have one fate each: the governor's
decisions say which are dropped, the ring is what the others push, in order, and the artifacts hold
the truncated lines under references of which no two are the same. -/
theorem capture_conserves (cfg : CaptureConfig) (calls : List Call) :
    let c := Run.run CaptureBuffer.call (new cfg) calls
    (∀ data nowMs, Loops nowMs { c with pending := c.pending ++ data } (c.ingest data nowMs))
      ∧ (∀ x ∈ c.pending, x ≠ '\n' ∧ x ≠ '\r')
      ∧ byteLen c.pending ≤ cfg.maxLineBytes
      ∧ ∃ log : List CapturedLine,
          log.map (fun l => (l.line, l.nowMs)) = (new cfg).producedAll calls
          ∧ (∀ l ∈ log, l.Sound cfg.maxLineBytes)
          ∧ log.map CapturedLine.decision
              = (OutputGovernor.new cfg.governance).decisions (log.map CapturedLine.seen)
          ∧ c.buffer
              = (log.filterMap CapturedLine.stored).foldl (fun b s => b.push s) (.new cfg.ring)
          ∧ c.artifacts = log.filterMap CapturedLine.artifact
          ∧ (c.artifacts.map PendingArtifact.artifactRef).Nodup := by
  intro c
  obtain ⟨hp, log, hlines, hacc⟩ := (accounted_new cfg).run
    (show (new cfg).PendingSmall from ⟨fun x hx => (nomatch hx), Nat.zero_le _⟩) calls
  rw [List.nil_append] at hacc
  refine ⟨fun data nowMs => loops_ingest data nowMs c, fun x hx => isPlain_iff.mp (hp.1 x hx), ?_,
    log, hlines, hacc.sound, hacc.decided, hacc.buffer, hacc.artifacts, ?_⟩
  · have hpending := hp.2
    rwa [hacc.config] at hpending
  · rw [hacc.refs]
    exact List.Nodup.map artifactRef_injective List.nodup_range

end CaptureBuffer

end MemMux
