/-
MemMux/Calendar.lean

The Gregorian calendar, before and after its introduction.

A `Date` is a day that exists, and `next` is the day after it.  No day comes back: the dates counted
from any day on are all different (`after_injective`).
-/
import Mathlib.Data.Int.ConditionallyCompleteOrder
import Mathlib.Data.Int.SuccPred
import Mathlib.Order.Monotone.Basic
import Mathlib.Tactic.Common
import Mathlib.Tactic.SplitIfs

namespace Calendar

/-! ### Dates -/

def IsLeap (year : Int) : Prop := year % 4 = 0 ∧ (year % 100 ≠ 0 ∨ year % 400 = 0)

instance (year : Int) : Decidable (IsLeap year) :=
  inferInstanceAs (Decidable (year % 4 = 0 ∧ (year % 100 ≠ 0 ∨ year % 400 = 0)))

/-- The days of a month. -/
def monthLength (year month : Int) : Int :=
  if month = 2 then if IsLeap year then 29 else 28
  else if month = 4 ∨ month = 6 ∨ month = 9 ∨ month = 11 then 30
  else 31

theorem monthLength_pos (year month : Int) : 0 < monthLength year month := by
  unfold monthLength
  split_ifs <;> decide

theorem monthLength_le (year month : Int) : monthLength year month ≤ 31 := by
  unfold monthLength
  split_ifs <;> decide

/-- Only the second month depends on the year. -/
theorem monthLength_eq {month : Int} (hmonth : month ≠ 2) (year year' : Int) :
    monthLength year month = monthLength year' month := by
  unfold monthLength
  rw [if_neg hmonth, if_neg hmonth]

/-- A day that exists. -/
@[ext]
structure Date where
  year : Int
  month : Int
  day : Int
  month_pos : 1 ≤ month
  month_le : month ≤ 12
  day_pos : 1 ≤ day
  day_le : day ≤ monthLength year month
  deriving DecidableEq

/-- The day after, of the numbers alone. -/
def nextFields : Int × Int × Int → Int × Int × Int
  | (year, month, day) =>
      if day < monthLength year month then (year, month, day + 1)
      else if month < 12 then (year, month + 1, 1)
      else (year + 1, 1, 1)

namespace Date

/-- The day after. -/
def next (d : Date) : Date :=
  if hday : d.day < monthLength d.year d.month then
    { d with
      day := d.day + 1
      day_pos := by have := d.day_pos; omega
      day_le := by omega }
  else if hmonth : d.month < 12 then
    { year := d.year
      month := d.month + 1
      day := 1
      month_pos := by have := d.month_pos; omega
      month_le := by omega
      day_pos := by decide
      day_le := monthLength_pos _ _ }
  else
    { year := d.year + 1
      month := 1
      day := 1
      month_pos := by decide
      month_le := by decide
      day_pos := by decide
      day_le := monthLength_pos _ _ }

/-- The year, the month and the day. -/
def fields (d : Date) : Int × Int × Int := (d.year, d.month, d.day)

theorem fields_next (d : Date) : d.next.fields = nextFields d.fields := by
  unfold next nextFields
  dsimp only [fields]
  split
  · rfl
  · split <;> rfl

/-- The day `n` days later. -/
def after (d : Date) (n : Nat) : Date := next^[n] d

theorem after_succ (d : Date) (n : Nat) : d.after (n + 1) = (d.after n).next :=
  Function.iterate_succ_apply' next n d

/-! ### The order of the days -/

/-- A number that grows from day to day: no month has more than 31 of them. -/
def rank (d : Date) : Int := 372 * d.year + 31 * d.month + d.day

theorem rank_lt_next (d : Date) : d.rank < d.next.rank := by
  have hle := d.day_le
  have hlen := monthLength_le d.year d.month
  have hmonth := d.month_le
  unfold next
  split
  · show 372 * d.year + 31 * d.month + d.day < 372 * d.year + 31 * d.month + (d.day + 1)
    omega
  · split
    · show 372 * d.year + 31 * d.month + d.day < 372 * d.year + 31 * (d.month + 1) + 1
      omega
    · show 372 * d.year + 31 * d.month + d.day < 372 * (d.year + 1) + 31 * 1 + 1
      omega

theorem year_le_next (d : Date) : d.year ≤ d.next.year := by
  unfold next
  split
  · exact le_refl d.year
  · split
    · exact le_refl d.year
    · show d.year ≤ d.year + 1
      omega

theorem year_le_after (d : Date) (n : Nat) : d.year ≤ (d.after n).year := by
  induction n with
  | zero => exact le_refl d.year
  | succ n ih =>
      rw [after_succ]
      exact le_trans ih (year_le_next _)

theorem rank_after_strictMono (d : Date) : StrictMono fun n => (d.after n).rank := by
  refine strictMono_nat_of_lt_succ fun n => ?_
  rw [after_succ]
  exact rank_lt_next _

/-- **No day comes back.** -/
theorem after_injective (d : Date) : Function.Injective d.after := fun _ _ h =>
  (rank_after_strictMono d).injective (congrArg rank h)

end Date

/-- The day from which Unix counts. -/
def epoch : Date where
  year := 1970
  month := 1
  day := 1
  month_pos := by decide
  month_le := by decide
  day_pos := by decide
  day_le := by decide

/-! ### The clock -/

/-- A second of a day. -/
@[ext]
structure Clock where
  hour : Nat
  minute : Nat
  second : Nat
  hour_lt : hour < 24
  minute_lt : minute < 60
  second_lt : second < 60
  deriving DecidableEq

namespace Clock

/-- The seconds since midnight. -/
def seconds (c : Clock) : Nat := 3600 * c.hour + 60 * c.minute + c.second

/-- The clock `n` seconds after midnight. -/
def ofSeconds (n : Nat) (h : n < 86400) : Clock where
  hour := n / 3600
  minute := n % 3600 / 60
  second := n % 60
  hour_lt := by omega
  minute_lt := by omega
  second_lt := by omega

theorem seconds_lt (c : Clock) : c.seconds < 86400 := by
  have hhour := c.hour_lt
  have hminute := c.minute_lt
  have hsecond := c.second_lt
  unfold seconds
  omega

theorem seconds_ofSeconds (n : Nat) (h : n < 86400) : (ofSeconds n h).seconds = n := by
  unfold ofSeconds seconds
  dsimp only
  omega

theorem seconds_injective : Function.Injective seconds := by
  intro c e h
  have hc := c.minute_lt
  have he := e.minute_lt
  have hc' := c.second_lt
  have he' := e.second_lt
  unfold seconds at h
  exact Clock.ext (by omega) (by omega) (by omega)

end Clock

end Calendar
