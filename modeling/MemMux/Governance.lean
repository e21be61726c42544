/-
MemMux/Governance.lean

The output governor over a whole run (`memmux-pty/src/governance.rs`).

A run is a list of lines with their sizes and clock values, both of them any `u64`.  Its log
(`GovernedLine`) says what the governor decided about each line, in which window of the rate the
line fell, and whether it was over the rate or over the quota when it came.

The governor keeps its byte count as a `u64`; the log adds up natural numbers.  Counters of lines are
natural numbers in both: no run has 2^64 lines.
-/
import Mathlib.Data.Nat.ModEq
import MemMux.Capture
import MemMux.Run

namespace MemMux

/-! ### What one line changes -/

namespace OutputGovernor

variable (bytes nowMs : Nat) (g : OutputGovernor)

/-- The line is within the quota and over the rate: one of `sampleRatio` of them is stored. -/
def sampling : Bool := decide (g.overRate nowMs) && !decide (g.overQuota bytes)

@[simp] theorem onLine_cfg : (g.onLine bytes nowMs).1.cfg = g.cfg := by
  rw [onLine_eq]
  split_ifs <;> exact slide_cfg nowMs g

@[simp] theorem onLine_windowStartMs :
    (g.onLine bytes nowMs).1.windowStartMs = (g.slide nowMs).windowStartMs := by
  rw [onLine_eq]
  split_ifs <;> rfl

@[simp] theorem onLine_linesThisWindow :
    (g.onLine bytes nowMs).1.linesThisWindow = (g.slide nowMs).linesThisWindow + 1 := by
  rw [onLine_eq]
  split_ifs <;> rfl

theorem onLine_rateBreachActive :
    (g.onLine bytes nowMs).1.rateBreachActive
      = ((g.slide nowMs).rateBreachActive || g.sampling bytes nowMs) := by
  rw [onLine_eq, sampling]
  split_ifs with hquota hrate <;> simp [count, *]

theorem onLine_quotaBreached :
    (g.onLine bytes nowMs).1.quotaBreached = (g.quotaBreached || decide (g.overQuota bytes)) := by
  rw [onLine_eq]
  split_ifs with hquota <;> simp [hquota, count]

theorem onLine_linesSinceSample :
    (g.onLine bytes nowMs).1.linesSinceSample
      = g.linesSinceSample + (g.sampling bytes nowMs).toNat := by
  rw [onLine_eq, sampling]
  split_ifs with hquota hrate <;> simp [count, *]

/-- A line raises a rate event if it is the first of its window to be sampled. -/
theorem onLine_rateEvent :
    (g.onLine bytes nowMs).2.event.any GovernanceBreach.ofRate
      = (g.sampling bytes nowMs && !(g.slide nowMs).rateBreachActive) := by
  rw [onLine_eq, sampling, rateEvent]
  split_ifs with hquota hseen hrate <;> simp [GovernanceBreach.ofRate, *]

/-- A line raises a quota event if it is the first of the run over the quota. -/
theorem onLine_quotaEvent :
    (g.onLine bytes nowMs).2.event.any (fun b => !b.ofRate)
      = (decide (g.overQuota bytes) && !g.quotaBreached) := by
  rw [onLine_eq, rateEvent]
  split_ifs with hquota hseen hrate <;> simp [GovernanceBreach.ofRate, *]

theorem onLine_quotaExceeded_iff :
    (g.onLine bytes nowMs).2.decision = .quotaExceeded ↔ g.overQuota bytes := by
  rw [onLine_eq]
  split_ifs with hquota <;> simp [hquota]

theorem onLine_sampledOut_iff :
    (g.onLine bytes nowMs).2.decision = .sampledOut
      ↔ g.sampling bytes nowMs = true ∧ ¬ g.keepsNext := by
  rw [onLine_eq, sampling]
  split_ifs with hquota hrate hkeep <;> simp [*]

theorem onLine_store_iff :
    (g.onLine bytes nowMs).2.decision = .store
      ↔ ¬ g.overQuota bytes ∧ (g.overRate nowMs → g.keepsNext) := by
  rw [onLine_eq]
  split_ifs with hquota hrate hkeep <;> simp [*]

/-- Only a stored line is counted in bytes. -/
theorem onLine_artifactBytes :
    (g.onLine bytes nowMs).1.artifactBytes
      = if (g.onLine bytes nowMs).2.decision = .store then (g.artifactBytes + bytes) % u64Size
        else g.artifactBytes := by
  rw [onLine_eq]
  split_ifs <;> simp_all [count]

/-- A window that slides starts later than the one before. -/
theorem slide_cases :
    g.slide nowMs = g
      ∨ g.windowStartMs < (g.slide nowMs).windowStartMs
        ∧ (g.slide nowMs).rateBreachActive = false ∧ (g.slide nowMs).linesThisWindow = 0 := by
  unfold slide
  split_ifs with h
  · refine .inr ⟨?_, rfl, rfl⟩
    show g.windowStartMs < nowMs
    omega
  · exact .inl rfl

end OutputGovernor

/-! ### The log of a run -/

/-- One call of `on_line`. -/
structure OutputLine where
  bytes : UInt64
  nowMs : UInt64
  deriving DecidableEq, Repr

/-- What is logged of one line. -/
structure GovernedLine where
  bytes : Nat
  /-- where the window of the line starts; no two windows start at the same time -/
  windowMs : Nat
  overRate : Bool
  overQuota : Bool
  outcome : GovernanceOutcome
  deriving DecidableEq, Repr

namespace GovernedLine

/-- The line is over the rate, and would fit into the quota. -/
def sampling (e : GovernedLine) : Bool := e.overRate && !e.overQuota

def stored (e : GovernedLine) : Bool := e.outcome.decision = .store

/-- The line fell in the window that starts at `windowMs`. -/
def inWindow (windowMs : Nat) (e : GovernedLine) : Bool := e.windowMs = windowMs

/-- The line raised a `RateSampling` event in the window that starts at `windowMs`. -/
def rateIn (windowMs : Nat) (e : GovernedLine) : Bool :=
  e.inWindow windowMs && e.outcome.event.any GovernanceBreach.ofRate

/-- The line raised an `ArtifactQuota` event. -/
def quotaEvent (e : GovernedLine) : Bool := e.outcome.event.any fun b => !b.ofRate

end GovernedLine

/-- The entry of a line in the log. -/
def OutputGovernor.entry (g : OutputGovernor) (l : OutputLine) : GovernedLine where
  bytes := l.bytes.toNat
  windowMs := (g.onLine l.bytes.toNat l.nowMs.toNat).1.windowStartMs
  overRate := decide (g.overRate l.nowMs.toNat)
  overQuota := decide (g.overQuota l.bytes.toNat)
  outcome := (g.onLine l.bytes.toNat l.nowMs.toNat).2

/-- A governor and the log of all its lines. -/
structure GovernedRun where
  governor : OutputGovernor
  log : List GovernedLine
  deriving DecidableEq, Repr

namespace GovernedRun

def new (cfg : GovernanceConfig) : GovernedRun := ⟨.new cfg, []⟩

def step (r : GovernedRun) (l : OutputLine) : GovernedRun :=
  ⟨(r.governor.onLine l.bytes.toNat l.nowMs.toNat).1, r.log ++ [r.governor.entry l]⟩

/-- The bytes of the stored lines together. -/
def storedBytes (log : List GovernedLine) : Nat :=
  ((log.filter GovernedLine.stored).map GovernedLine.bytes).sum

/-! ### An exhausted quota -/

/-- No line after one over the quota is stored. -/
def NothingAfter (log : List GovernedLine) : Prop :=
  log.Pairwise fun e e' => e.outcome.decision = .quotaExceeded → e'.outcome.decision ≠ .store

/-- **Quota exhaustion is final**: the byte count is the size of the stored lines, it is within the
quota, and no line after one over the quota is stored. -/
def Final (r : GovernedRun) : Prop :=
  r.governor.artifactBytes = storedBytes r.log
    ∧ r.governor.artifactBytes ≤ r.governor.cfg.maxLogArtifactBytes
    ∧ NothingAfter r.log

instance (r : GovernedRun) : Decidable r.Final :=
  inferInstanceAs (Decidable (_ ∧ _ ∧ List.Pairwise _ _))

/-- A line that fits into the quota and is not sampled out comes before the first line over the
quota, and the byte count has room for it. -/
def InTime (r : GovernedRun) (l : OutputLine) : Prop :=
  ¬ r.governor.overQuota l.bytes.toNat →
    (r.governor.overRate l.nowMs.toNat → r.governor.keepsNext) →
      r.governor.quotaBreached = false
        ∧ r.governor.artifactBytes + l.bytes.toNat < u64Size

/-- The governor remembers whether a line was over the quota. -/
def Breached (r : GovernedRun) : Prop :=
  r.governor.quotaBreached = true ↔ ∃ e ∈ r.log, e.outcome.decision = .quotaExceeded

theorem breached_step (r : GovernedRun) (l : OutputLine) (h : r.Breached) : (r.step l).Breached := by
  have hnew := r.governor.onLine_quotaExceeded_iff l.bytes.toNat l.nowMs.toNat
  have hflag := r.governor.onLine_quotaBreached l.bytes.toNat l.nowMs.toNat
  unfold Breached at h ⊢
  simp only [step, List.mem_append, List.mem_singleton, or_and_right, exists_or, exists_eq_left]
  rw [← h, hflag, Bool.or_eq_true, decide_eq_true_eq]
  exact or_congr_right hnew.symm

theorem storedBytes_step (r : GovernedRun) (l : OutputLine) :
    storedBytes (r.step l).log
      = if (r.governor.entry l).stored then storedBytes r.log + l.bytes.toNat
        else storedBytes r.log := by
  simp only [storedBytes, step, List.filter_append, List.filter_singleton]
  cases (r.governor.entry l).stored with
  | true => simp [OutputGovernor.entry]
  | false => simp

theorem nothingAfter_step_iff {r : GovernedRun} (hb : r.Breached) (h : NothingAfter r.log)
    (l : OutputLine) :
    NothingAfter (r.step l).log
      ↔ ((r.governor.entry l).stored = true → r.governor.quotaBreached = false) := by
  rw [step, NothingAfter, List.pairwise_append]
  constructor
  · rintro ⟨-, -, hcross⟩ hs
    by_contra hseen
    obtain ⟨e, he, hdec⟩ := hb.mp (eq_true_of_ne_false hseen)
    exact hcross e he _ (List.mem_singleton_self _) hdec (of_decide_eq_true hs)
  · intro hseen
    refine ⟨h, List.pairwise_singleton _ _, fun e he e' he' hdec hs => ?_⟩
    obtain rfl := List.mem_singleton.mp he'
    have hfalse := hseen (decide_eq_true hs)
    rw [hb.mpr ⟨e, he, hdec⟩] at hfalse
    cases hfalse

/-- **One line keeps the quota final exactly if it is in time.** -/
theorem final_step_iff {r : GovernedRun} (hb : r.Breached) (h : r.Final) (l : OutputLine) :
    (r.step l).Final ↔ r.InTime l := by
  obtain ⟨hbytes, hmax, hpair⟩ := h
  have hstore := r.governor.onLine_store_iff l.bytes.toNat l.nowMs.toNat
  have hcount := r.governor.onLine_artifactBytes l.bytes.toNat l.nowMs.toNat
  have hcfg : (r.step l).governor.cfg = r.governor.cfg := r.governor.onLine_cfg _ _
  have htotal := storedBytes_step r l
  have hlog := nothingAfter_step_iff hb hpair l
  by_cases hs : (r.governor.onLine l.bytes.toNat l.nowMs.toNat).2.decision = .store
  · obtain ⟨hquota, hkeep⟩ := hstore.mp hs
    have hentry : (r.governor.entry l).stored = true := decide_eq_true hs
    rw [if_pos hs] at hcount
    rw [if_pos hentry] at htotal
    constructor
    · rintro ⟨hbytes', -, hpair'⟩ - -
      refine ⟨hlog.mp hpair' hentry, ?_⟩
      have hmod : (r.step l).governor.artifactBytes < u64Size := by
        rw [step, hcount]
        exact Nat.mod_lt _ (by decide)
      rwa [hbytes', htotal, ← hbytes] at hmod
    · intro hin
      obtain ⟨hunseen, hroom⟩ := hin hquota hkeep
      have hsum : (r.step l).governor.artifactBytes = r.governor.artifactBytes + l.bytes.toNat := by
        rw [step, hcount, Nat.mod_eq_of_lt hroom]
      refine ⟨by rw [hsum, htotal, hbytes], ?_, hlog.mpr fun _ => hunseen⟩
      -- the saturated sum is the sum, so the quota test bounds it
      rw [hsum, hcfg]
      unfold OutputGovernor.overQuota satAdd at hquota
      omega
  · have hentry : (r.governor.entry l).stored = false := decide_eq_false hs
    rw [if_neg hs] at hcount
    rw [hentry, if_neg Bool.false_ne_true] at htotal
    refine iff_of_true ⟨?_, ?_, hlog.mpr fun hst => ?_⟩ fun hquota hkeep => ?_
    · rw [htotal, ← hbytes]
      exact hcount
    · rw [hcfg]
      exact hcount ▸ hmax
    · rw [hentry] at hst
      cases hst
    · exact absurd (hstore.mpr ⟨hquota, hkeep⟩) hs

/-- **When quota exhaustion is final.** -/
theorem final_iff (cfg : GovernanceConfig) (lines : List OutputLine) :
    (∀ p, p <+: lines → (Run.run step (new cfg) p).Final)
      ↔ Run.Allowed step InTime (new cfg) lines := by
  have hb : (new cfg).Breached := by simp [Breached, new, OutputGovernor.new]
  have hfinal : (new cfg).Final := ⟨rfl, Nat.zero_le _, List.Pairwise.nil⟩
  exact Run.forall_prefix_iff_of_invariant breached_step (fun _ l hb h => final_step_iff hb h l)
    hb hfinal lines

/-- Of two lines, 20 bytes are over the quota of 10, and 5 bytes after them are stored. -/
theorem smaller_line_stored :
    ¬ (Run.run step (new ⟨10, 5000, 20⟩) [⟨20, 0⟩, ⟨5, 0⟩]).Final := by
  decide

/-! ### Nothing is dropped silently -/

/-- An entry of a list with one more entry is one of the old entries, or the new one. -/
theorem split_concat {pre post log : List GovernedLine} {e x : GovernedLine}
    (h : log ++ [x] = pre ++ e :: post) :
    (pre = log ∧ e = x) ∨ ∃ post', log = pre ++ e :: post' := by
  rcases List.eq_nil_or_concat post with rfl | ⟨post', y, rfl⟩
  · obtain ⟨hlog, hx⟩ := List.append_inj' h rfl
    exact .inl ⟨hlog.symm, (List.singleton_inj.mp hx).symm⟩
  · rw [List.concat_eq_append, ← List.cons_append, ← List.append_assoc] at h
    exact .inr ⟨post', (List.append_inj' h rfl).1⟩

/-- A run whose lines are accounted for. -/
structure Audited (cfg : GovernanceConfig) (r : GovernedRun) : Prop where
  config : r.governor.cfg = cfg
  windows : ∀ e ∈ r.log, e.windowMs ≤ r.governor.windowStartMs
  counted : r.log.countP (GovernedLine.inWindow r.governor.windowStartMs)
    = r.governor.linesThisWindow
  overRate : ∀ pre e post, r.log = pre ++ e :: post →
    (e.overRate = true
      ↔ cfg.sampleAboveLinesPerSec < (pre ++ [e]).countP (GovernedLine.inWindow e.windowMs))
  active : r.log.countP (GovernedLine.rateIn r.governor.windowStartMs)
    = r.governor.rateBreachActive.toNat
  perWindow : ∀ windowMs, r.log.countP (GovernedLine.rateIn windowMs) ≤ 1
  breached : r.log.countP GovernedLine.quotaEvent = r.governor.quotaBreached.toNat
  sampledOut : ∀ pre e post, r.log = pre ++ e :: post → e.outcome.decision = .sampledOut →
    (pre ++ [e]).countP (GovernedLine.rateIn e.windowMs) = 1
  quotaExceeded : ∀ pre e post, r.log = pre ++ e :: post → e.outcome.decision = .quotaExceeded →
    (pre ++ [e]).countP GovernedLine.quotaEvent = 1
  sampled : (r.log.filter GovernedLine.sampling).length = r.governor.linesSinceSample
  kept : ∀ n, n ≤ (r.log.filter GovernedLine.sampling).length →
    ((r.log.filter GovernedLine.sampling).take n).countP GovernedLine.stored
      = n / max cfg.sampleRatio 1

theorem audited_new (cfg : GovernanceConfig) : (new cfg).Audited cfg where
  config := rfl
  windows := fun e he => (nomatch he)
  counted := rfl
  overRate := fun pre e post h => absurd h.symm (by simp [new])
  active := rfl
  perWindow := fun _ => Nat.zero_le _
  breached := rfl
  sampledOut := fun pre e post h => absurd h.symm (by simp [new])
  quotaExceeded := fun pre e post h => absurd h.symm (by simp [new])
  sampled := rfl
  kept := fun n hn => by
    obtain rfl := Nat.le_zero.mp hn
    exact (Nat.zero_div _).symm

variable {cfg : GovernanceConfig} {r : GovernedRun}

/-- A window that has just begun has had no line. -/
theorem Audited.slide_cases (h : r.Audited cfg) (nowMs : Nat) :
    r.governor.slide nowMs = r.governor
      ∨ (∀ e ∈ r.log, e.inWindow (r.governor.slide nowMs).windowStartMs = false)
        ∧ (r.governor.slide nowMs).rateBreachActive = false
        ∧ (r.governor.slide nowMs).linesThisWindow = 0 := by
  rcases r.governor.slide_cases nowMs with hsame | ⟨hlater, hinactive, hzero⟩
  · exact .inl hsame
  · refine .inr ⟨fun e he => decide_eq_false fun heq => ?_, hinactive, hzero⟩
    have hle := h.windows e he
    omega

theorem Audited.counted_slide (h : r.Audited cfg) (nowMs : Nat) :
    r.log.countP (GovernedLine.inWindow (r.governor.slide nowMs).windowStartMs)
      = (r.governor.slide nowMs).linesThisWindow := by
  rcases h.slide_cases nowMs with hsame | ⟨hnone, -, hzero⟩
  · rw [hsame]
    exact h.counted
  · rw [hzero, List.countP_eq_zero]
    intro e he
    rw [hnone e he]
    exact Bool.false_ne_true

theorem Audited.active_slide (h : r.Audited cfg) (nowMs : Nat) :
    r.log.countP (GovernedLine.rateIn (r.governor.slide nowMs).windowStartMs)
      = (r.governor.slide nowMs).rateBreachActive.toNat := by
  rcases h.slide_cases nowMs with hsame | ⟨hnone, hinactive, -⟩
  · rw [hsame]
    exact h.active
  · rw [hinactive, Bool.toNat_false, List.countP_eq_zero]
    intro e he
    rw [GovernedLine.rateIn, hnone e he]
    exact Bool.false_ne_true

/-- The new line is counted in its window. -/
theorem Audited.counted_step (h : r.Audited cfg) (l : OutputLine) :
    (r.step l).log.countP (GovernedLine.inWindow (r.governor.entry l).windowMs)
      = (r.governor.slide l.nowMs.toNat).linesThisWindow + 1 := by
  have hwindow : (r.governor.entry l).windowMs = (r.governor.slide l.nowMs.toNat).windowStartMs :=
    r.governor.onLine_windowStartMs _ _
  have hentry : (r.governor.entry l).inWindow (r.governor.entry l).windowMs = true :=
    decide_eq_true rfl
  rw [step, List.countP_append, List.countP_singleton, if_pos hentry, hwindow, h.counted_slide]

/-- The new window has an event exactly if one of its lines was sampled. -/
theorem Audited.active_step (h : r.Audited cfg) (l : OutputLine) :
    (r.step l).log.countP (GovernedLine.rateIn (r.governor.entry l).windowMs)
      = (r.step l).governor.rateBreachActive.toNat := by
  have hrate := r.governor.onLine_rateEvent l.bytes.toNat l.nowMs.toNat
  have hwindow : (r.governor.entry l).windowMs = (r.governor.slide l.nowMs.toNat).windowStartMs :=
    r.governor.onLine_windowStartMs _ _
  have hentry : (r.governor.entry l).rateIn (r.governor.entry l).windowMs
      = (r.governor.sampling l.bytes.toNat l.nowMs.toNat
          && !(r.governor.slide l.nowMs.toNat).rateBreachActive) := by
    rw [GovernedLine.rateIn, GovernedLine.inWindow, decide_eq_true rfl, Bool.true_and]
    exact hrate
  rw [step, List.countP_append, List.countP_singleton, hentry, hwindow, h.active_slide,
    OutputGovernor.onLine_rateBreachActive]
  cases (r.governor.slide l.nowMs.toNat).rateBreachActive <;>
    cases r.governor.sampling l.bytes.toNat l.nowMs.toNat <;> rfl

/-- The run has a quota event exactly if one of its lines was over the quota. -/
theorem Audited.breached_step (h : r.Audited cfg) (l : OutputLine) :
    (r.step l).log.countP GovernedLine.quotaEvent = (r.step l).governor.quotaBreached.toNat := by
  have hevent : (r.governor.entry l).quotaEvent
      = (decide (r.governor.overQuota l.bytes.toNat) && !r.governor.quotaBreached) :=
    r.governor.onLine_quotaEvent l.bytes.toNat l.nowMs.toNat
  rw [step, List.countP_append, List.countP_singleton, hevent, h.breached,
    OutputGovernor.onLine_quotaBreached]
  cases r.governor.quotaBreached <;> cases decide (r.governor.overQuota l.bytes.toNat) <;> rfl

/-- **Of the lines over the rate every `sampleRatio`-th is stored.** -/
theorem Audited.kept_step (h : r.Audited cfg) (l : OutputLine) {n : Nat}
    (hn : n ≤ ((r.step l).log.filter GovernedLine.sampling).length) :
    (((r.step l).log.filter GovernedLine.sampling).take n).countP GovernedLine.stored
      = n / max cfg.sampleRatio 1 := by
  rw [step, List.filter_append] at hn ⊢
  by_cases hold : n ≤ (r.log.filter GovernedLine.sampling).length
  · rw [List.take_append_of_le_length hold]
    exact h.kept n hold
  · cases hsampling : (r.governor.entry l).sampling with
    | false =>
        rw [List.filter_singleton, hsampling, cond_false, List.append_nil] at hn
        exact absurd hn hold
    | true =>
        -- the new line is the next one over the rate, and the counter says whether it is kept
        rw [List.filter_singleton, hsampling, cond_true] at hn ⊢
        rw [List.length_append, List.length_singleton] at hn
        have hlast : n = r.governor.linesSinceSample + 1 := by
          rw [← h.sampled]
          omega
        have hall : n = (r.log.filter GovernedLine.sampling ++ [r.governor.entry l]).length := by
          rw [List.length_append, List.length_singleton]
          omega
        have hstored : (r.governor.entry l).stored = true ↔ max cfg.sampleRatio 1 ∣ n := by
          have hstore := r.governor.onLine_store_iff l.bytes.toNat l.nowMs.toNat
          rw [GovernedLine.sampling, Bool.and_eq_true, Bool.not_eq_true'] at hsampling
          have hrate : r.governor.overRate l.nowMs.toNat := of_decide_eq_true hsampling.1
          have hquota : ¬ r.governor.overQuota l.bytes.toNat := of_decide_eq_false hsampling.2
          rw [Nat.dvd_iff_mod_eq_zero, hlast, ← h.config]
          refine decide_eq_true_iff.trans (hstore.trans ?_)
          exact ⟨fun hs => hs.2 hrate, fun hs => ⟨hquota, fun _ => hs⟩⟩
        rw [hall, List.take_length, List.countP_append, List.countP_singleton, ← hall,
          ← List.take_length (l := r.log.filter GovernedLine.sampling), h.kept _ (Nat.le_refl _),
          h.sampled, hlast, Nat.succ_div, ← hlast]
        exact congrArg _ (if_congr hstored rfl rfl)

/-- **One more line is accounted for.** -/
theorem Audited.step (h : r.Audited cfg) (l : OutputLine) : (r.step l).Audited cfg where
  config := (r.governor.onLine_cfg _ _).trans h.config
  windows := fun e he => by
    show e.windowMs ≤ (r.governor.onLine _ _).1.windowStartMs
    rcases List.mem_append.mp he with he | he
    · have hle := h.windows e he
      rw [OutputGovernor.onLine_windowStartMs]
      rcases r.governor.slide_cases l.nowMs.toNat with hsame | ⟨hlater, -⟩
      · rwa [hsame]
      · omega
    · rw [List.mem_singleton.mp he]
      exact Nat.le_refl _
  counted := (h.counted_step l).trans (r.governor.onLine_linesThisWindow _ _).symm
  overRate := fun pre e post heq => by
    rcases split_concat heq with ⟨rfl, rfl⟩ | ⟨post', hlog⟩
    · have hcount := h.counted_step l
      rw [GovernedRun.step] at hcount
      rw [hcount, ← h.config]
      exact decide_eq_true_iff
    · exact h.overRate pre e post' hlog
  active := h.active_step l
  perWindow := fun windowMs => by
    by_cases hsame : (r.governor.entry l).windowMs = windowMs
    · rw [← hsame, h.active_step]
      exact Bool.toNat_le _
    · have hentry : (r.governor.entry l).rateIn windowMs = false := by
        rw [GovernedLine.rateIn, GovernedLine.inWindow, decide_eq_false hsame, Bool.false_and]
      rw [GovernedRun.step, List.countP_append, List.countP_singleton, hentry]
      exact h.perWindow windowMs
  breached := h.breached_step l
  sampledOut := fun pre e post heq hdec => by
    rcases split_concat heq with ⟨rfl, rfl⟩ | ⟨post', hlog⟩
    · obtain ⟨hsampling, -⟩ := (r.governor.onLine_sampledOut_iff _ _).mp hdec
      refine (h.active_step l).trans ?_
      rw [GovernedRun.step, OutputGovernor.onLine_rateBreachActive, hsampling, Bool.or_true]
      rfl
    · exact h.sampledOut pre e post' hlog hdec
  quotaExceeded := fun pre e post heq hdec => by
    rcases split_concat heq with ⟨rfl, rfl⟩ | ⟨post', hlog⟩
    · have hquota := (r.governor.onLine_quotaExceeded_iff _ _).mp hdec
      refine (h.breached_step l).trans ?_
      rw [GovernedRun.step, OutputGovernor.onLine_quotaBreached, decide_eq_true hquota, Bool.or_true]
      rfl
    · exact h.quotaExceeded pre e post' hlog hdec
  sampled := by
    rw [GovernedRun.step, List.filter_append, List.length_append, h.sampled,
      OutputGovernor.onLine_linesSinceSample, List.filter_singleton]
    have hentry : (r.governor.entry l).sampling
        = r.governor.sampling l.bytes.toNat l.nowMs.toNat := rfl
    rw [hentry]
    cases r.governor.sampling l.bytes.toNat l.nowMs.toNat <;> rfl
  kept := fun _ hn => h.kept_step l hn

theorem audited_run (cfg : GovernanceConfig) (lines : List OutputLine) :
    (Run.run GovernedRun.step (new cfg) lines).Audited cfg :=
  Run.always (I := fun r : GovernedRun => r.Audited cfg) (fun _ l h => h.step l) (audited_new cfg) lines

/-- **Nothing is dropped silently, and sampling keeps its ratio.**  A line counts as over the rate when
more lines than the threshold have come in its window.  Every line sampled out has the one rate event
of its window at or before it, and every line over the quota the one quota event of the run.  Of the
first `n` lines over the rate that fit into the quota, `n / max sampleRatio 1` are stored. -/
theorem nothing_silent (cfg : GovernanceConfig) (lines : List OutputLine) :
    let log := (Run.run step (new cfg) lines).log
    (∀ pre e post, log = pre ++ e :: post →
      (e.overRate = true
        ↔ cfg.sampleAboveLinesPerSec < (pre ++ [e]).countP (GovernedLine.inWindow e.windowMs))
      ∧ (e.outcome.decision = .sampledOut →
          (pre ++ [e]).countP (GovernedLine.rateIn e.windowMs) = 1
            ∧ log.countP (GovernedLine.rateIn e.windowMs) = 1)
      ∧ (e.outcome.decision = .quotaExceeded →
          (pre ++ [e]).countP GovernedLine.quotaEvent = 1
            ∧ log.countP GovernedLine.quotaEvent = 1))
      ∧ (∀ windowMs, log.countP (GovernedLine.rateIn windowMs) ≤ 1)
      ∧ log.countP GovernedLine.quotaEvent ≤ 1
      ∧ ∀ n, n ≤ (log.filter GovernedLine.sampling).length →
          ((log.filter GovernedLine.sampling).take n).countP GovernedLine.stored
            = n / max cfg.sampleRatio 1 := by
  intro log
  have h := audited_run cfg lines
  have hquota : log.countP GovernedLine.quotaEvent ≤ 1 := by
    rw [h.breached]
    exact Bool.toNat_le _
  refine ⟨fun pre e post heq => ⟨h.overRate pre e post heq, fun hdec => ?_, fun hdec => ?_⟩,
    h.perWindow, hquota, h.kept⟩
  -- the event at or before the line is the only one of the run
  · have hhead : pre ++ [e] <+: log := ⟨post, by rw [heq]; simp⟩
    have hone := h.sampledOut pre e post heq hdec
    exact ⟨hone, Nat.le_antisymm (h.perWindow _) (hone ▸ hhead.sublist.countP_le)⟩
  · have hhead : pre ++ [e] <+: log := ⟨post, by rw [heq]; simp⟩
    have hone := h.quotaExceeded pre e post heq hdec
    exact ⟨hone, Nat.le_antisymm hquota (hone ▸ hhead.sublist.countP_le)⟩

end GovernedRun

end MemMux
