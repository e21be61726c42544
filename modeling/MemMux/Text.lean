/-
MemMux/Text.lean

Text and digest helpers of the standard library, as the daemon uses them: UTF-8 bytes, hex
formatting, the FNV-1a loop, trimming, lines and path components.

Strings are taken apart as lists of characters, so that every function is structurally
recursive and can be evaluated.
-/
import Mathlib.Data.String.Basic
import Mathlib.Tactic.Common

namespace MemMux

/-! ### Bytes and digests -/

/-- The bytes of a string. -/
def utf8 (s : String) : List UInt8 := s.toList.flatMap String.utf8EncodeChar

/-- The FNV-1a 64-bit loop. -/
def fnv1a (bytes : List UInt8) : UInt64 :=
  bytes.foldl (fun h b => (h ^^^ b.toUInt64) * 0x100000001b3) 0xcbf29ce484222325

/-- `format!("{n:x}")`. -/
def hex (n : Nat) : String := String.ofList (Nat.toDigits 16 n)

/-- `format!("{n:0width$x}")`. -/
def hexPad (width n : Nat) : String :=
  let digits := Nat.toDigits 16 n
  String.ofList (List.replicate (width - digits.length) '0' ++ digits)

/-- FNV-1a 64-bit content digest, rendered as zero-padded hex. -/
def contentHash (bytes : List UInt8) : String := hexPad 16 (fnv1a bytes).toNat

/-! ### Letters -/

theorem isUpper_iff {c : Char} : c.isUpper = true ↔ 65 ≤ c.toNat ∧ c.toNat ≤ 90 :=
  decide_eq_true_iff.trans (and_congr UInt32.le_iff_toNat_le UInt32.le_iff_toNat_le)

theorem isLower_iff {c : Char} : c.isLower = true ↔ 97 ≤ c.toNat ∧ c.toNat ≤ 122 :=
  Bool.and_eq_true_iff.trans (and_congr (decide_eq_true_iff.trans UInt32.le_iff_toNat_le)
    (decide_eq_true_iff.trans UInt32.le_iff_toNat_le))

/-- The ASCII letters. -/
theorem isAlpha_iff {c : Char} :
    c.isAlpha = true ↔ (65 ≤ c.toNat ∧ c.toNat ≤ 90) ∨ 97 ≤ c.toNat ∧ c.toNat ≤ 122 :=
  Bool.or_eq_true_iff.trans (or_congr isUpper_iff isLower_iff)

/-! ### Trimming and lines -/

/-- `char::is_whitespace` (the Unicode property `White_Space`). -/
def isWhitespace (c : Char) : Bool :=
  let n := c.toNat
  (9 ≤ n && n ≤ 13) || n == 0x20 || n == 0x85 || n == 0xA0 || n == 0x1680
    || (0x2000 ≤ n && n ≤ 0x200A) || n == 0x2028 || n == 0x2029 || n == 0x202F || n == 0x205F
    || n == 0x3000

/-- Drop the characters satisfying `p` from both ends. -/
def trimChars (p : Char → Bool) (cs : List Char) : List Char :=
  ((cs.dropWhile p).reverse.dropWhile p).reverse

/-- `str::trim`. -/
def trim (s : String) : String := String.ofList (trimChars isWhitespace s.toList)

/-- `str::lines`: split at line feeds, dropping one carriage return at the end of a line and the
empty line after a final line feed. -/
def linesOf (s : String) : List (List Char) :=
  let strip (l : List Char) : List Char := if l.getLast? = some '\r' then l.dropLast else l
  let rec go : List Char → List Char → List (List Char)
    | [], [] => []
    | [], line => [line.reverse]
    | c :: cs, line => if c = '\n' then strip line.reverse :: go cs [] else go cs (c :: line)
  go s.toList []

/-- `str::get(n..)`: what follows the first `n` bytes, if they end at a character boundary. -/
def dropBytes : Nat → List Char → Option (List Char)
  | 0, cs => some cs
  | _ + 1, [] => none
  | n + 1, c :: cs => if n + 1 < c.utf8Size then none else dropBytes (n + 1 - c.utf8Size) cs

/-! ### Paths -/

/-- A file-system path. -/
abbrev Path := String

/-- `PathBuf::join` with a relative component. -/
def Path.join (p : Path) (q : String) : Path := p ++ "/" ++ q

/-- `Path::file_name`: the last component, unless it is `..`. -/
def Path.fileName (p : Path) : Option String :=
  let components := (p.toList.splitOn '/').filter fun c => c ≠ [] ∧ c ≠ ['.']
  match components.getLast? with
  | none => none
  | some c => if c = ['.', '.'] then none else some (String.ofList c)

/-- `Path::components`, by which paths are compared: whether the path starts at the root, and its parts
without the empty ones and any `.` but a leading one. -/
def Path.components (p : Path) : Bool × List (List Char) :=
  let parts := p.toList.splitOn '/'
  (p.toList.head? = some '/',
    parts.take 1 ++ (parts.drop 1).filter fun c => c ≠ [] ∧ c ≠ ['.'])

example : Path.components "/data/" = Path.components "//data/." ∧
    Path.components "./data" ≠ Path.components "data" := by decide

/-- Joining a component is injective in it. -/
theorem Path.join_right_injective (p : Path) : Function.Injective p.join := by
  intro q r h
  have hlist : p.toList ++ '/' :: q.toList = p.toList ++ '/' :: r.toList := by
    simpa [Path.join] using congrArg String.toList h
  exact String.toList_inj.mp (List.cons_inj_right _ |>.mp (List.append_cancel_left hlist))

theorem Path.join_left_injective (q : String) : Function.Injective fun p : Path => p.join q := by
  intro p r h
  have hlist : p.toList ++ '/' :: q.toList = r.toList ++ '/' :: q.toList := by
    simpa [Path.join] using congrArg String.toList h
  exact String.toList_inj.mp (List.append_cancel_right hlist)

end MemMux
