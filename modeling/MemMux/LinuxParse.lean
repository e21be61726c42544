/-
MemMux/LinuxParse.lean

The parsers of the `/proc` files of a process
(`memmux-metrics/src/platform/linux_parse.rs`).

`statLine` is the line the kernel writes.  The name of the command stands in it unescaped, between the
first `(` and the last `)`: `splitComm_line` finds it whatever it contains, and the words after it are
then the fields (`statWords`), which both parsers count from the same place.
-/
import MemMux.Budget
import MemMux.Decimal
import MemMux.ProcessTree
import MemMux.Text
import MemMux.Words

namespace MemMux.LinuxParse

open Decimal

/-! ### `stat` -/

/-- Fields extracted from `/proc/<pid>/stat`. -/
structure StatInfo where
  pid : Pid
  comm : String
  state : Char
  ppid : Pid
  minflt : Option Nat
  majflt : Option Nat
  deriving DecidableEq, Repr

/-- Whether the process is a zombie. -/
def StatInfo.isZombie (i : StatInfo) : Bool := i.state == 'Z'

/-- `str::find`. -/
def find (c : Char) (cs : List Char) : Option Nat := cs.findIdx? (· == c)

/-- `str::rfind`. -/
def rfind (c : Char) (cs : List Char) : Option Nat :=
  (cs.reverse.findIdx? (· == c)).map (cs.length - 1 - ·)

/-- What stands before the first `(`, between it and the last `)`, and after that. -/
def splitComm (cs : List Char) : Option (List Char × List Char × List Char) :=
  match find '(' cs, rfind ')' cs with
  | some start, some close =>
      if close < start then none
      else some (cs.take start, (cs.take close).drop (start + 1), cs.drop (close + 1))
  | _, _ => none

/-- The fields after `comm`. -/
def fieldsOf (rest : List Char) : List (List Char) :=
  Words.split isWhitespace (trimChars isWhitespace rest)

/-- `str::parse::<i32>`. -/
def parseI32 (cs : List Char) : Option Pid := parseSigned (2 ^ 31) cs

/-- `str::parse::<u64>`. -/
def parseU64 (cs : List Char) : Option Nat := parseUnsigned u64Size cs

/-- Parse the parts of `/proc/<pid>/stat` the sampler needs. -/
def parseStat (content : String) : Option StatInfo := do
  let (before, comm, rest) ← splitComm content.toList
  let pid ← parseI32 (trimChars isWhitespace before)
  let fields := fieldsOf rest
  let state ← fields.head?.bind List.head?
  let ppid ← fields[1]?.bind parseI32
  let minflt := fields[7]?.bind parseU64
  let majflt := fields[9]?.bind parseU64
  some ⟨pid, String.ofList comm, state, ppid, minflt, majflt⟩

/-- Parse cumulative CPU jiffies: `(utime, stime)` in clock ticks. -/
def parseStatCpuTicks (content : String) : Option (Nat × Nat) := do
  let (_, _, rest) ← splitComm content.toList
  let fields := fieldsOf rest
  let utime ← fields[11]?.bind parseU64
  let stime ← fields[12]?.bind parseU64
  some (utime, stime)

/-! ### `status` and `smaps_rollup` -/

/-- `str::strip_prefix`. -/
def stripPrefix (pre cs : List Char) : Option (List Char) := cs.dropPrefix? pre

/-- `trim_end_matches("kB")`, on the text read backwards. -/
def dropUnit : List Char → List Char
  | 'B' :: 'k' :: cs => dropUnit cs
  | cs => cs

/-- The number of a line in kB. -/
def parseKb (rest : List Char) : Option Nat :=
  parseU64 (trimChars isWhitespace (dropUnit (trimChars isWhitespace rest).reverse).reverse)

/-- A number of kB in bytes. -/
def kbToBytes (kb : Nat) : Nat := kb * 1024 % u64Size

/-- Parse a `SIZE:` style field (in kB) of `/proc/<pid>/status`; the first line that has it counts. -/
def parseStatusKbField (content field : String) : Option Nat :=
  ((linesOf content).findSome? (stripPrefix field.toList)).bind fun rest =>
    (parseKb rest).map kbToBytes

/-- Memory fields extracted from a `/proc/<pid>/smaps_rollup` file, in bytes. -/
structure SmapsRollup where
  pssBytes : Option Nat
  ussBytes : Option Nat
  swapBytes : Option Nat
  deriving DecidableEq, Repr

instance : Inhabited SmapsRollup := ⟨⟨none, none, none⟩⟩

/-- Add a line's number to a slot. -/
def addKb (slot : Option Nat) (rest : List Char) : Option Nat :=
  match parseKb rest with
  | none => slot
  | some kb => some ((slot.getD 0 + kb) % u64Size)

/-- One line of `smaps_rollup`; the slots hold kB. -/
def addLine (r : SmapsRollup) (line : List Char) : SmapsRollup :=
  match stripPrefix "Pss:".toList line, stripPrefix "Private_Clean:".toList line,
    stripPrefix "Private_Dirty:".toList line, stripPrefix "Swap:".toList line with
  | some rest, _, _, _ => { r with pssBytes := addKb r.pssBytes rest }
  | none, some rest, _, _ => { r with ussBytes := addKb r.ussBytes rest }
  | none, none, some rest, _ => { r with ussBytes := addKb r.ussBytes rest }
  | none, none, none, some rest => { r with swapBytes := addKb r.swapBytes rest }
  | none, none, none, none => r

/-- Parse PSS, USS and swap from a `smaps_rollup` file. -/
def parseSmapsRollup (content : String) : SmapsRollup :=
  let kb := (linesOf content).foldl addLine default
  { pssBytes := kb.pssBytes.map kbToBytes
    ussBytes := kb.ussBytes.map kbToBytes
    swapBytes := kb.swapBytes.map kbToBytes }

/-! ### The kernel's line -/

/-- The fields after `comm`, as the kernel prints them. -/
def statWords (state : Char) (ppid : Pid) (fields : List Int) : List (List Char) :=
  [state] :: print ppid :: fields.map print

/-- The kernel's line: `pid (comm) state ppid fields…`, and white space at its end. -/
def statLine (pid : Pid) (comm : List Char) (state : Char) (ppid : Pid) (fields : List Int)
    (stop : List Char) : List Char :=
  print pid ++ [' '] ++ '(' :: (comm ++ ')' ::
    ((statWords state ppid fields).flatMap (' ' :: ·) ++ stop))

theorem find_append {c : Char} {xs : List Char} (h : c ∉ xs) (ys : List Char) :
    find c (xs ++ c :: ys) = some xs.length := by
  have hnone : xs.findIdx? (· == c) = none := by
    rw [List.findIdx?_eq_none_iff]
    intro x hx
    exact beq_eq_false_iff_ne.mpr fun he => h (he ▸ hx)
  simp [find, List.findIdx?_append, hnone, List.findIdx?_cons]

theorem rfind_append {c : Char} (xs : List Char) {ys : List Char} (h : c ∉ ys) :
    rfind c (xs ++ c :: ys) = some xs.length := by
  have hfind := @find_append _ ys.reverse (fun hc => h (List.mem_reverse.mp hc)) xs.reverse
  have hrev : (xs ++ c :: ys).reverse = ys.reverse ++ c :: xs.reverse := by simp
  rw [rfind, hrev, ← find, hfind, Option.map_some]
  simp

/-- **What the first and the last parenthesis enclose** is `comm`, whatever stands in it. -/
theorem splitComm_line {before rest : List Char} (hbefore : '(' ∉ before) (hrest : ')' ∉ rest)
    (comm : List Char) :
    splitComm (before ++ '(' :: (comm ++ ')' :: rest)) = some (before, comm, rest) := by
  have hline : before ++ '(' :: (comm ++ ')' :: rest)
      = (before ++ '(' :: comm) ++ ')' :: rest := by
    rw [List.append_assoc, List.cons_append]
  have hstart := find_append hbefore (comm ++ ')' :: rest)
  have hclose := rfind_append (before ++ '(' :: comm) hrest
  rw [← hline] at hclose
  have hlen : (before ++ '(' :: comm).length = before.length + 1 + comm.length := by
    simp only [List.length_append, List.length_cons]
    omega
  have hafter : (before ++ '(' :: (comm ++ ')' :: rest)).drop
      ((before ++ '(' :: comm).length + 1) = rest := by
    rw [hline, ← List.drop_drop, List.drop_left, List.drop_one, List.tail_cons]
  have hbetween : ((before ++ '(' :: (comm ++ ')' :: rest)).take
      (before ++ '(' :: comm).length).drop (before.length + 1) = comm := by
    rw [hline, List.take_left, ← List.drop_drop, List.drop_left, List.drop_one, List.tail_cons]
  rw [splitComm, hstart, hclose]
  dsimp only
  rw [if_neg (by omega), List.take_left, hbetween, hafter]

/-! ### Its words -/

/-- White space is no digit and no minus. -/
theorem isWhitespace_print {x : Int} {c : Char} (h : c ∈ print x) : isWhitespace c = false := by
  rcases mem_print h with hd | rfl
  · have hrange : 48 ≤ c.toNat ∧ c.toNat ≤ 57 := by
      simpa [Char.isDigit, UInt32.le_iff_toNat_le] using hd
    unfold isWhitespace
    simp only [Bool.or_eq_false_iff, Bool.and_eq_false_iff, decide_eq_false_iff_not, beq_eq_false_iff_ne]
    omega
  · decide

theorem print_ne {x : Int} {c d : Char} (h : c ∈ print x) (hd : d.isDigit = false) (hm : d ≠ '-') :
    c ≠ d := by
  rintro rfl
  rcases mem_print h with hc | hc
  · rw [hd] at hc
    cases hc
  · exact hm hc

/-- A printed number is trimmed to itself. -/
theorem trim_print (x : Int) : trimChars isWhitespace (print x ++ [' ']) = print x := by
  have hall : ∀ c ∈ print x, isWhitespace c = false := fun c hc => isWhitespace_print hc
  have hfirst : (print x ++ [' ']).dropWhile isWhitespace = print x ++ [' '] := by
    obtain ⟨c, cs, heq⟩ := List.exists_cons_of_ne_nil (print_ne_nil x)
    rw [heq, List.cons_append, List.dropWhile_cons_of_neg]
    simp [hall c (heq ▸ List.mem_cons_self)]
  show (List.dropWhile _ _).rdropWhile isWhitespace = _
  rw [hfirst, List.rdropWhile_concat_pos _ _ _ (by decide), List.rdropWhile_eq_self_iff]
  intro hne
  simp [hall _ (List.getLast_mem hne)]

variable {pid ppid : Pid} {comm : List Char} {state : Char} {fields : List Int} {stop : List Char}

theorem mem_statWords {w : List Char} (h : w ∈ statWords state ppid fields) :
    w = [state] ∨ ∃ x, w = print x := by
  rcases List.mem_cons.mp h with h | h
  · exact .inl h
  · rcases List.mem_cons.mp h with h | h
    · exact .inr ⟨ppid, h⟩
    · obtain ⟨x, -, hx⟩ := List.mem_map.mp h
      exact .inr ⟨x, hx.symm⟩

/-- The words after `comm` are the fields. -/
theorem fieldsOf_line (hstate : isWhitespace state = false) (hstop : ∀ c ∈ stop, isWhitespace c) :
    fieldsOf ((statWords state ppid fields).flatMap (' ' :: ·) ++ stop)
      = statWords state ppid fields := by
  have hwords : ∀ w ∈ statWords state ppid fields, w ≠ [] ∧ ∀ c ∈ w, isWhitespace c = false := by
    intro w hw
    rcases mem_statWords hw with rfl | ⟨x, rfl⟩
    · exact ⟨List.cons_ne_nil _ _, fun c hc => List.mem_singleton.mp hc ▸ hstate⟩
    · exact ⟨print_ne_nil x, fun c hc => isWhitespace_print hc⟩
  show Words.split isWhitespace ((List.dropWhile _ _).rdropWhile isWhitespace) = _
  rw [Words.split_rdropWhile, Words.split_dropWhile,
    Words.split_flatMap (by decide) hwords hstop]

/-- Both parsers take the kernel's line apart at the same places. -/
theorem splitComm_statLine (hparen : state ≠ ')') (hstop : ∀ c ∈ stop, isWhitespace c) :
    splitComm (statLine pid comm state ppid fields stop)
      = some (print pid ++ [' '], comm,
          (statWords state ppid fields).flatMap (' ' :: ·) ++ stop) := by
  refine splitComm_line ?_ ?_ comm
  · intro hmem
    rcases List.mem_append.mp hmem with hmem | hmem
    · exact print_ne hmem (by decide) (by decide) rfl
    · exact absurd (List.mem_singleton.mp hmem) (by decide)
  · intro hmem
    rcases List.mem_append.mp hmem with hmem | hmem
    · obtain ⟨w, hw, hmem⟩ := List.mem_flatMap.mp hmem
      rcases List.mem_cons.mp hmem with hmem | hmem
      · exact absurd hmem (by decide)
      · rcases mem_statWords hw with rfl | ⟨x, rfl⟩
        · exact hparen (List.mem_singleton.mp hmem).symm
        · exact print_ne hmem (by decide) (by decide) rfl
    · exact absurd (hstop _ hmem) (by decide)

/-! ### Reading the line -/

/-- Field `n` of `stat`, for the fields from the fifth on. -/
def statField (fields : List Int) (n : Nat) : Option Int := fields[n - 5]?

/-- A field as the parsers read it: one that is no `u64` is left out. -/
def countField (fields : List Int) (n : Nat) : Option Nat :=
  ((statField fields n).map print).bind parseU64

/-- What `parse_stat` makes of a line. -/
theorem parseStat_statLine (hpid : -2 ^ 31 ≤ pid ∧ pid < 2 ^ 31)
    (hppid : -2 ^ 31 ≤ ppid ∧ ppid < 2 ^ 31) (hstate : isWhitespace state = false)
    (hparen : state ≠ ')') (hstop : ∀ c ∈ stop, isWhitespace c) :
    parseStat (String.ofList (statLine pid comm state ppid fields stop))
      = some ⟨pid, String.ofList comm, state, ppid, countField fields 10, countField fields 12⟩ := by
  have hpid' : parseI32 (print pid) = some pid := parseSigned_print hpid.1 hpid.2
  have hppid' : parseI32 (print ppid) = some ppid := parseSigned_print hppid.1 hppid.2
  unfold parseStat
  rw [String.toList_ofList, splitComm_statLine hparen hstop]
  simp only [Option.bind_eq_bind, Option.bind_some]
  rw [trim_print, hpid', fieldsOf_line hstate hstop, statWords]
  simp only [Option.bind_some, List.head?_cons, List.getElem?_cons_succ, List.getElem?_cons_zero,
    hppid', List.getElem?_map]
  rfl

/-- What `parse_stat_cpu_ticks` makes of it. -/
theorem parseStatCpuTicks_statLine (hstate : isWhitespace state = false) (hparen : state ≠ ')')
    (hstop : ∀ c ∈ stop, isWhitespace c) :
    parseStatCpuTicks (String.ofList (statLine pid comm state ppid fields stop))
      = (countField fields 14).bind fun utime =>
          (countField fields 15).bind fun stime => some (utime, stime) := by
  unfold parseStatCpuTicks
  rw [String.toList_ofList, splitComm_statLine hparen hstop]
  simp only [Option.bind_eq_bind, Option.bind_some]
  rw [fieldsOf_line hstate hstop, statWords]
  simp only [List.getElem?_cons_succ, List.getElem?_map]
  rfl

/-- A printed field within `u64` is read back. -/
theorem countField_eq {n : Nat}
    (h : ∀ x ∈ statField fields n, 0 ≤ x ∧ x < (u64Size : Int)) :
    countField fields n = (statField fields n).map Int.toNat := by
  unfold countField
  rcases hx : statField fields n with - | x
  · rfl
  · obtain ⟨hlo, hhi⟩ := h x hx
    obtain ⟨m, rfl⟩ := Int.eq_ofNat_of_zero_le hlo
    exact parseUnsigned_print (Int.ofNat_lt.mp hhi)

/-- **`parse_stat` and `parse_stat_cpu_ticks` invert the kernel's line**: for every pid, every
`comm`, every state that is a visible character other than `)`, every ppid and every list of
further fields of which those read are within `u64`, they give exactly what was printed.  A field
the line is too short for is not there. -/
theorem parse_stat_inverts (pid ppid : Pid) (comm : String) (state : Char) (fields : List Int)
    (stop : List Char) (hpid : -2 ^ 31 ≤ pid ∧ pid < 2 ^ 31)
    (hppid : -2 ^ 31 ≤ ppid ∧ ppid < 2 ^ 31) (hstate : isWhitespace state = false ∧ state ≠ ')')
    (hu64 : ∀ n ∈ [10, 12, 14, 15], ∀ x ∈ statField fields n, 0 ≤ x ∧ x < (u64Size : Int))
    (hstop : ∀ c ∈ stop, isWhitespace c) :
    parseStat (String.ofList (statLine pid comm.toList state ppid fields stop))
        = some
          { pid := pid
            comm := comm
            state := state
            ppid := ppid
            minflt := (statField fields 10).map Int.toNat
            majflt := (statField fields 12).map Int.toNat } ∧
      parseStatCpuTicks (String.ofList (statLine pid comm.toList state ppid fields stop))
        = (statField fields 14).bind fun utime =>
            (statField fields 15).bind fun stime => some (utime.toNat, stime.toNat) := by
  have hread : ∀ n ∈ [10, 12, 14, 15], countField fields n = (statField fields n).map Int.toNat :=
    fun n hn => countField_eq (hu64 n hn)
  constructor
  · rw [parseStat_statLine hpid hppid hstate.1 hstate.2 hstop, String.ofList_toList,
      hread 10 (by decide), hread 12 (by decide)]
  · rw [parseStatCpuTicks_statLine hstate.1 hstate.2 hstop, hread 14 (by decide),
      hread 15 (by decide)]
    simp only [Option.bind_map]
    rfl

/-- A command that imitates the fields behind it. -/
theorem parse_stat_inverts_imitation :
    parseStat "42 (x) S 1 2 (y) R 7 42 42 0 -1 0 3 0 9 0 700 300\n"
        = some ⟨42, "x) S 1 2 (y", 'R', 7, some 3, some 9⟩ ∧
      parseStatCpuTicks "42 (x) S 1 2 (y) R 7 42 42 0 -1 0 3 0 9 0 700 300\n"
        = some (700, 300) := by
  have h := parse_stat_inverts 42 7 "x) S 1 2 (y" 'R' [42, 42, 0, -1, 0, 3, 0, 9, 0, 700, 300] ['\n']
    (by decide) (by decide) (by decide) (by decide) (List.all_eq_true.mp (by decide))
  exact h

end MemMux.LinuxParse
