/-
MemMux/LinuxSampler.lean

The Linux process sampler (`memmux-metrics/src/platform/linux.rs`).

The sampler walks `/proc` and reads the files of every directory whose name is a number.  What it
cannot read or parse of `status` and `smaps_rollup` is left at its default, but `stat` has
to be UTF-8 as a whole, and the kernel copies the name of the command into it byte by
byte.  `all_visible_iff` says that a process is lost exactly when that name is not UTF-8.
-/
import Mathlib.Data.List.Nodup
import Mathlib.Tactic.Common
import MemMux.LinuxParse
import MemMux.Utf8

namespace MemMux.LinuxSampler

open Decimal LinuxParse

/-! ### The sampler -/

/-- A sample with what only the Linux sampler reports. -/
structure LinuxSample extends ProcessSample where
  ussBytes : Option Nat
  swapBytes : Option Nat
  minflt : Option Nat
  majflt : Option Nat
  deriving DecidableEq, Repr

/-- An entry of `/proc`: its name, and what its files hold if they can be read. -/
structure ProcEntry where
  name : List UInt8
  stat : Option (List UInt8)
  status : Option (List UInt8)
  smapsRollup : Option (List UInt8)
  deriving DecidableEq, Repr

/-- `fs::read_to_string`: fails where the file cannot be read and where it is not UTF-8. -/
def readToString (file : Option (List UInt8)) : Option String :=
  (file.bind Utf8.fromUtf8).map String.ofList

/-- The sample of one directory; its name is a number, so the path leads back to the entry. -/
def sampleOne (dir : ProcEntry) : Option LinuxSample := do
  let stat ← readToString dir.stat
  let info ← parseStat stat
  if info.isZombie then none
  else
    let rssBytes :=
      ((readToString dir.status).bind fun s => parseStatusKbField s "VmRSS:").getD 0
    let rollup := ((readToString dir.smapsRollup).map parseSmapsRollup).getD default
    some
      { pid := info.pid
        ppid := info.ppid
        name := info.comm
        rssBytes := rssBytes
        pssBytes := rollup.pssBytes
        physFootprintBytes := none
        ussBytes := rollup.ussBytes
        swapBytes := rollup.swapBytes
        minflt := info.minflt
        majflt := info.majflt }

/-- Only numeric directory names are process ids. -/
def isPidName (name : List UInt8) : Bool :=
  let bytes := Utf8.encode (Utf8.fromUtf8Lossy name)
  bytes.all (fun b => 48 ≤ b && b ≤ 57) && !bytes.isEmpty

/-- The samples of `/proc`, in the order of its entries. -/
def snapshot (proc : List ProcEntry) : List LinuxSample :=
  (proc.filter fun e => isPidName e.name).filterMap sampleOne

/-! ### What the kernel shows -/

/-- A process as the kernel shows it.  Its command name may be any bytes, and its other files may
hold anything or be unreadable. -/
structure KernelProcess where
  pid : Pid
  ppid : Pid
  comm : List UInt8
  state : Char
  fields : List Int
  status : Option (List UInt8)
  smapsRollup : Option (List UInt8)
  pid_range : 0 < pid ∧ pid < 2 ^ 31
  ppid_range : 0 ≤ ppid ∧ ppid < 2 ^ 31
  state_letter : state.isAlpha

namespace KernelProcess

variable (p : KernelProcess)

/-- The line of `stat` up to the command name. -/
def before : List Char := print p.pid ++ [' ', '(']

/-- The line of `stat` from behind the command name on. -/
def after : List Char := ')' :: ((statWords p.state p.ppid p.fields).flatMap (' ' :: ·) ++ ['\n'])

/-- Its directory. -/
def dir : ProcEntry where
  name := Utf8.encode (print p.pid)
  stat := some (Utf8.encode p.before ++ p.comm ++ Utf8.encode p.after)
  status := p.status
  smapsRollup := p.smapsRollup

theorem state_visible : isWhitespace p.state = false ∧ p.state ≠ ')' := by
  have halpha := p.state_letter
  constructor
  · have hrange := isAlpha_iff.mp halpha
    unfold isWhitespace
    simp only [Bool.or_eq_false_iff, Bool.and_eq_false_iff, decide_eq_false_iff_not,
      beq_eq_false_iff_ne]
    omega
  · intro h
    rw [h] at halpha
    cases halpha

/-- **The line is text exactly when the command name is.** -/
theorem readToString_stat : readToString p.dir.stat = (Utf8.fromUtf8 p.comm).map fun comm =>
    String.ofList (statLine p.pid comm p.state p.ppid p.fields ['\n']) := by
  have hbefore : p.before = (print p.pid ++ [' ']) ++ ['('] := by
    rw [before, List.append_assoc]
    rfl
  show (Utf8.fromUtf8 (Utf8.encode p.before ++ p.comm ++ Utf8.encode p.after)).map _ = _
  rw [hbefore, after, Utf8.fromUtf8_between (b := 40) (c := 41) (by decide) (by decide) (by decide)
    (by decide), Option.map_map]
  refine congrArg (Option.map · _) (funext fun comm => ?_)
  simp [statLine]

/-- Whether the sampler leaves the process out on purpose. -/
def isZombie : Bool := p.state == 'Z'

/-- **One directory**: a sample with the right pid and ppid, unless the process is a zombie or its
command name is not UTF-8. -/
theorem sampleOne_dir :
    (∀ s ∈ sampleOne p.dir, s.pid = p.pid ∧ s.ppid = p.ppid) ∧
      ((sampleOne p.dir).isSome ↔ p.isZombie = false ∧ (Utf8.fromUtf8 p.comm).isSome) := by
  have hstat := p.readToString_stat
  obtain ⟨hvisible, hparen⟩ := p.state_visible
  rcases hcomm : Utf8.fromUtf8 p.comm with - | comm
  · rw [hcomm] at hstat
    have hnone : sampleOne p.dir = none := by simp [sampleOne, hstat]
    simp [hnone]
  · rw [hcomm] at hstat
    have hparse := @parseStat_statLine p.pid p.ppid comm p.state p.fields ['\n']
      ⟨Int.le_trans (by decide) (Int.le_of_lt p.pid_range.1), p.pid_range.2⟩
      ⟨Int.le_trans (by decide) p.ppid_range.1, p.ppid_range.2⟩ hvisible hparen
      (List.all_eq_true.mp (by decide))
    unfold sampleOne
    rw [hstat]
    simp only [Option.map_some, Option.bind_eq_bind, Option.bind_some, hparse]
    by_cases hz : p.state = 'Z'
    · simp [StatInfo.isZombie, isZombie, hz]
    · simp [StatInfo.isZombie, isZombie, hz]

end KernelProcess

/-! ### No live process is invisible -/

/-- The samples have the process exactly once, with its parent. -/
def Visible (samples : List LinuxSample) (p : KernelProcess) : Prop :=
  ∃ s, samples.filter (·.pid == p.pid) = [s] ∧ s.pid = p.pid ∧ s.ppid = p.ppid

/-- What a key selects from the results for distinct keys is the result for that key. -/
theorem filter_filterMap_of_nodup {α β κ : Type} [DecidableEq κ] {f : α → Option β} {key : α → κ}
    {keyOf : β → κ} (hkey : ∀ a, ∀ b ∈ f a, keyOf b = key a) {as : List α}
    (hnodup : (as.map key).Nodup) {a : α} (ha : a ∈ as) :
    (as.filterMap f).filter (keyOf · == key a) = (f a).toList := by
  have hnone : ∀ {as : List α}, key a ∉ as.map key →
      (as.filterMap f).filter (keyOf · == key a) = [] := by
    intro as hnot
    refine List.filter_eq_nil_iff.mpr fun b hb heq => hnot ?_
    obtain ⟨a', ha', hb⟩ := List.mem_filterMap.mp hb
    rw [← beq_iff_eq.mp heq, hkey a' b hb]
    exact List.mem_map_of_mem ha'
  induction as with
  | nil => cases ha
  | cons c as ih =>
      rw [List.map_cons, List.nodup_cons] at hnodup
      have hsplit : (c :: as).filterMap f = (f c).toList ++ as.filterMap f := by
        rw [List.filterMap_cons]
        cases f c <;> rfl
      rw [hsplit, List.filter_append]
      rcases List.mem_cons.mp ha with rfl | ha
      · have hself : (f a).toList.filter (keyOf · == key a) = (f a).toList :=
          List.filter_eq_self.mpr fun b hb => beq_iff_eq.mpr (hkey a b (Option.mem_toList.mp hb))
        rw [hself, hnone hnodup.1, List.append_nil]
      · have hother : (f c).toList.filter (keyOf · == key a) = [] := by
          refine List.filter_eq_nil_iff.mpr fun b hb heq => hnodup.1 ?_
          rw [← hkey c b (Option.mem_toList.mp hb), beq_iff_eq.mp heq]
          exact List.mem_map_of_mem ha
        rw [hother, List.nil_append, ih hnodup.2 ha]

variable {proc : List ProcEntry} {procs : List KernelProcess}

/-- The samples are those of the processes' directories. -/
theorem snapshot_eq (hproc : (proc.filter fun e => isPidName e.name)
    = procs.map KernelProcess.dir) :
    snapshot proc = procs.filterMap fun p => sampleOne p.dir := by
  rw [snapshot, hproc, List.filterMap_map]
  rfl

theorem visible_iff (hproc : (proc.filter fun e => isPidName e.name)
    = procs.map KernelProcess.dir) (hpids : (procs.map (·.pid)).Nodup) {p : KernelProcess}
    (hp : p ∈ procs) :
    Visible (snapshot proc) p ↔ p.isZombie = false ∧ (Utf8.fromUtf8 p.comm).isSome := by
  obtain ⟨hsample, hsome⟩ := p.sampleOne_dir
  have hfilter : (snapshot proc).filter (·.pid == p.pid) = (sampleOne p.dir).toList := by
    rw [snapshot_eq hproc]
    exact @filter_filterMap_of_nodup _ _ _ _ _ _ (fun s : LinuxSample => s.pid)
      (fun q s hs => (q.sampleOne_dir.1 s hs).1) _ hpids _ hp
  rw [← hsome, Visible, hfilter]
  rcases hs : sampleOne p.dir with - | s
  · simp
  · have hright := hsample s hs
    exact ⟨fun _ => rfl, fun _ => ⟨s, rfl, hright⟩⟩

/-- **No live process is invisible, as long as its command name is UTF-8**: the snapshot has
exactly one sample, with the right pid and ppid, for every process that is no zombie, if and
only if the command names of these processes are UTF-8. -/
theorem all_visible_iff (hproc : (proc.filter fun e => isPidName e.name)
    = procs.map KernelProcess.dir) (hpids : (procs.map (·.pid)).Nodup) :
    (∀ p ∈ procs, p.isZombie = false → Visible (snapshot proc) p) ↔
      ∀ p ∈ procs, p.isZombie = false → (Utf8.fromUtf8 p.comm).isSome := by
  refine forall_congr' fun p => forall_congr' fun hp => forall_congr' fun hz => ?_
  rw [visible_iff hproc hpids hp]
  exact and_iff_right hz

/-- A shell, with nothing but its `stat` to read. -/
def shell : KernelProcess where
  pid := 41
  ppid := 1
  comm := [0x73, 0x68]
  state := 'S'
  fields := [41, 41]
  status := none
  smapsRollup := none
  pid_range := by decide
  ppid_range := by decide
  state_letter := by decide

/-- Its child, which named itself by a byte that begins no character. -/
def renamed : KernelProcess where
  pid := 42
  ppid := 41
  comm := [0xFF]
  state := 'R'
  fields := [41, 41]
  status := none
  smapsRollup := none
  pid_range := by decide
  ppid_range := by decide
  state_letter := by decide

/-- A `/proc` with a directory of another kind. -/
def twoProcesses : List ProcEntry :=
  [⟨Utf8.encode "meminfo".toList, none, none, none⟩, shell.dir, renamed.dir]

theorem all_visible_iff_two :
    ¬ ∀ p ∈ [shell, renamed], p.isZombie = false → Visible (snapshot twoProcesses) p := by
  rw [@all_visible_iff twoProcesses [shell, renamed] (by decide) (by decide)]
  intro h
  exact absurd (h renamed (by simp) (by decide)) (by decide)

/-- The child is there and is not in the snapshot. -/
theorem renamed_invisible : (snapshot twoProcesses).map (·.pid) = [41] ∧
    ¬ ∀ (proc : List ProcEntry) (procs : List KernelProcess),
      (proc.filter fun e => isPidName e.name) = procs.map KernelProcess.dir →
      (procs.map (·.pid)).Nodup →
      ∀ p ∈ procs, p.isZombie = false → Visible (snapshot proc) p := by
  have hpids : (snapshot twoProcesses).map (·.pid) = [41] := by decide
  refine ⟨hpids, fun h => ?_⟩
  obtain ⟨s, hs, hpid, -⟩ := h twoProcesses [shell, renamed] (by decide) (by decide) renamed
    (by simp) (by decide)
  have hmem : s ∈ snapshot twoProcesses :=
    List.mem_of_mem_filter (hs ▸ List.mem_singleton_self s)
  have hs41 : s.pid ∈ [(41 : Pid)] := hpids ▸ List.mem_map_of_mem hmem
  rw [hpid] at hs41
  exact absurd hs41 (by decide)

end MemMux.LinuxSampler
