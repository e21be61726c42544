/-
MemMux/Decimal.lean

Numbers in decimal: printing, and parsing as `str::parse` does it.

The parsers of an unsigned and of a signed type differ in their range and in that only the signed
one knows a minus; both take a leading plus and any number of leading zeros.  A printed number
is parsed back if it is in range (`parseUnsigned_toDigits`, `parseSigned_print`).
-/
import Mathlib.Data.List.Basic
import Mathlib.Tactic.Common

namespace Decimal

/-! ### Printing and parsing -/

/-- A number as it is printed. -/
def print : Int → List Char
  | .ofNat n => Nat.toDigits 10 n
  | .negSucc n => '-' :: Nat.toDigits 10 (n + 1)

/-- The value of at least one digit. -/
def digitsValue (cs : List Char) : Option Nat :=
  if cs ≠ [] ∧ cs.all Char.isDigit then some (Nat.ofDigitChars 10 cs 0) else none

/-- `str::parse` for the unsigned type of the values below `bound`. -/
def parseUnsigned (bound : Nat) (cs : List Char) : Option Nat :=
  (digitsValue (match cs with | '+' :: ds => ds | ds => ds)).filter (· < bound)

/-- `str::parse` for the signed type of the values from `-bound` to below `bound`. -/
def parseSigned (bound : Nat) : List Char → Option Int
  | '-' :: ds => ((digitsValue ds).filter (· ≤ bound)).map fun n => -(n : Int)
  | '+' :: ds => ((digitsValue ds).filter (· < bound)).map fun n => (n : Int)
  | ds => ((digitsValue ds).filter (· < bound)).map fun n => (n : Int)

example : parseUnsigned 256 "+0255".toList = some 255 ∧ parseUnsigned 256 "256".toList = none ∧
    parseUnsigned 256 "-1".toList = none ∧ parseSigned 128 "-128".toList = some (-128) := by decide

/-! ### The characters of a printed number -/

theorem isDigit_of_mem_toDigits {n : Nat} {c : Char} (h : c ∈ Nat.toDigits 10 n) : c.isDigit :=
  Nat.isDigit_of_mem_toDigits (by decide) (by decide) h

theorem print_ne_nil (x : Int) : print x ≠ [] := by
  cases x with
  | ofNat n => exact Nat.toDigits_ne_nil
  | negSucc n => exact List.cons_ne_nil _ _

/-- A printed number has digits, and a minus if it is negative. -/
theorem mem_print {x : Int} {c : Char} (h : c ∈ print x) : c.isDigit ∨ c = '-' := by
  cases x with
  | ofNat n => exact .inl (isDigit_of_mem_toDigits h)
  | negSucc n =>
      rcases List.mem_cons.mp h with rfl | h
      · exact .inr rfl
      · exact .inl (isDigit_of_mem_toDigits h)

/-! ### Parsing a printed number -/

theorem digitsValue_toDigits (n : Nat) : digitsValue (Nat.toDigits 10 n) = some n := by
  have hall : (Nat.toDigits 10 n).all Char.isDigit :=
    List.all_eq_true.mpr fun _ hc => isDigit_of_mem_toDigits hc
  rw [digitsValue, if_pos ⟨Nat.toDigits_ne_nil, hall⟩, Nat.ofDigitChars_ten_toDigits]

/-- The digits of a number begin with a digit. -/
theorem toDigits_eq_cons (n : Nat) : ∃ d ds, d.isDigit ∧ Nat.toDigits 10 n = d :: ds := by
  obtain ⟨d, ds, heq⟩ := List.exists_cons_of_ne_nil (@Nat.toDigits_ne_nil n 10)
  exact ⟨d, ds, isDigit_of_mem_toDigits (heq ▸ List.mem_cons_self), heq⟩

/-- A printed natural number is parsed back if it is in range, and refused if it is not. -/
theorem parseUnsigned_toDigits (bound n : Nat) :
    parseUnsigned bound (Nat.toDigits 10 n) = if n < bound then some n else none := by
  obtain ⟨d, ds, hd, heq⟩ := toDigits_eq_cons n
  have hplus : d ≠ '+' := by
    rintro rfl
    exact absurd hd (by decide)
  have hvalue := digitsValue_toDigits n
  unfold parseUnsigned
  rw [heq] at hvalue ⊢
  split
  · rename_i heq'
    exact absurd (List.cons.inj heq').1 hplus
  · rw [hvalue, Option.filter_some]
    simp only [decide_eq_true_eq]

theorem parseUnsigned_print {bound n : Nat} (h : n < bound) :
    parseUnsigned bound (Nat.toDigits 10 n) = some n := by
  rw [parseUnsigned_toDigits, if_pos h]

theorem parseSigned_print {bound : Nat} {x : Int} (hlo : -(bound : Int) ≤ x)
    (hhi : x < (bound : Int)) : parseSigned bound (print x) = some x := by
  cases x with
  | ofNat n =>
      obtain ⟨d, ds, hd, heq⟩ := toDigits_eq_cons n
      have hvalue := digitsValue_toDigits n
      have hn : n < bound := Int.ofNat_lt.mp hhi
      rw [print, heq] at *
      unfold parseSigned
      split
      · rename_i heq'
        rw [(List.cons.inj heq').1] at hd
        exact absurd hd (by decide)
      · rename_i heq'
        rw [(List.cons.inj heq').1] at hd
        exact absurd hd (by decide)
      · rw [hvalue, Option.filter_some, if_pos (decide_eq_true hn)]
        rfl
  | negSucc n =>
      have hn : n + 1 ≤ bound := by omega
      rw [print, parseSigned, digitsValue_toDigits, Option.filter_some,
        if_pos (decide_eq_true hn)]
      rfl

end Decimal
