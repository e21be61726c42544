/-
MemMux/Stamp.lean

The time of a benchmark report (`memmux-bench/src/report.rs`).

`civilFromDays` computes a date from the number of a day, by a division into eras of 400 years that
begin in March.  It agrees with counting the days one by one from 1970-01-01 (`civilFromDays_eq`), so
that a report shows the day and the clock of its time and no other (`shows_iff`).
-/
import MemMux.Calendar
import MemMux.ChunkStore
import MemMux.Decimal

namespace MemMux.Stamp

open Calendar

/-! ### The code -/

/-- `civil_from_days`: the year, month and day.  No operand of a division is negative. -/
def civilFromDays (days : Int) : Int × Int × Int :=
  let z := days + 719468
  let era := z / 146097
  let doe := z - era * 146097
  let yoe := (doe - doe / 1460 + doe / 36524 - doe / 146096) / 365
  let y := yoe + era * 400
  let doy := doe - (365 * yoe + yoe / 4 - yoe / 100)
  let mp := (5 * doy + 2) / 153
  let d := doy - (153 * mp + 2) / 5 + 1
  let m := if mp < 10 then mp + 3 else mp - 9
  let year := if m ≤ 2 then y + 1 else y
  (year, m, d)

/-- An `i64` filled up with zeros, as `{:0width}` prints it: a minus takes one place. -/
def pad (width : Nat) : Int → List Char
  | .ofNat n => decPad width n
  | .negSucc n => '-' :: decPad (width - 1) (n + 1)

/-- The `format!` of `format_utc`. -/
def text : Int × Int × Int → Nat → Nat → Nat → List Char
  | (year, m, d), hh, mm, ss =>
      pad 4 year ++ '-' :: (pad 2 m ++ '-' :: (pad 2 d ++ ' ' :: (decPad 2 hh ++ ':' ::
        (decPad 2 mm ++ ':' :: (decPad 2 ss ++ ['Z'])))))

/-- `format_utc`, of the whole seconds since the epoch.  A time before it has none. -/
def formatUtc (sinceEpoch : Option UInt64) : String :=
  let secs := (sinceEpoch.getD 0).toNat
  let days : Int := (secs / 86400 : Nat)
  let rem := secs % 86400
  String.ofList (text (civilFromDays days) (rem / 3600) (rem % 3600 / 60) (rem % 60))

example : formatUtc none = "1970-01-01 00:00:00Z" ∧
    formatUtc (some 1700000000) = "2023-11-14 22:13:20Z" := by decide

/-! ### Years that begin in March -/

/-- The days of an era before its year `y`. -/
def yearStart (y : Int) : Int := 365 * y + y / 4 - y / 100 + y / 400

/-- The month and the day of a day in such a year. -/
def monthDay (doy : Int) : Int × Int :=
  let mp := (5 * doy + 2) / 153
  (if mp < 10 then mp + 3 else mp - 9, doy - (153 * mp + 2) / 5 + 1)

/-! ### The months -/

/-- The months from one day to the next, in a year whose last month has 29 days. -/
theorem monthDay_succ : ∀ k : Nat, k < 365 →
    monthDay (k + 1) = if (monthDay k).2 < monthLength 0 (monthDay k).1
      then ((monthDay k).1, (monthDay k).2 + 1)
      else (if (monthDay k).1 < 12 then (monthDay k).1 + 1 else 1, 1) := by
  decide +kernel

/-- The last month of such a year begins on day 337. -/
theorem monthDay_range : ∀ k : Nat, k < 366 →
    1 ≤ (monthDay k).1 ∧ ((monthDay k).1 = 2 ↔ 337 ≤ k) ∧
      ((monthDay k).1 = 2 → (monthDay k).2 = k - 336) := by
  decide +kernel

/-! ### Days of an era -/

/-- The year `y` of an era, in the terms of its century, its cycle of four years and its rest. -/
theorem yearStart_eq {c q r : Int} (hc : 0 ≤ c ∧ c < 4) (hq : 0 ≤ q ∧ q < 25) (hr : 0 ≤ r ∧ r < 4) :
    yearStart (100 * c + 4 * q + r) = 36524 * c + 1461 * q + 365 * r := by
  unfold yearStart
  omega

theorem yearStart_succ {c q r : Int} (hc : 0 ≤ c ∧ c < 4) (hq : 0 ≤ q ∧ q < 25)
    (hr : 0 ≤ r ∧ r < 4) :
    yearStart (100 * c + 4 * q + r + 1) = 36524 * c + 1461 * q + 365 * r + 365
      + if r = 3 ∧ (q ≠ 24 ∨ c = 3) then 1 else 0 := by
  unfold yearStart
  split <;> omega

/-- The code's division finds the year of a day. -/
theorem yearOfEra_eq {y k : Int} (hy : 0 ≤ y ∧ y < 400) (hk : 0 ≤ k)
    (hlt : yearStart y + k < yearStart (y + 1)) :
    let doe := yearStart y + k
    (doe - doe / 1460 + doe / 36524 - doe / 146096) / 365 = y := by
  obtain ⟨c, q, r, rfl, hc, hq, hr⟩ : ∃ c q r : Int, y = 100 * c + 4 * q + r ∧
      (0 ≤ c ∧ c < 4) ∧ (0 ≤ q ∧ q < 25) ∧ 0 ≤ r ∧ r < 4 :=
    ⟨y / 100, y % 100 / 4, y % 4, by omega, by omega, by omega, by omega⟩
  rw [yearStart_eq hc hq hr, yearStart_succ hc hq hr] at hlt
  intro doe
  have hdoe : doe = 36524 * c + 1461 * q + 365 * r + k := by
    rw [← yearStart_eq hc hq hr]
  rw [hdoe]
  -- each quotient is that of the year, or one more near the end of a cycle
  have hfour : (36524 * c + 1461 * q + 365 * r + k) / 1460
      = 25 * c + q + if 1460 ≤ 24 * c + q + 365 * r + k then 1 else 0 := by
    split at hlt <;> split <;> omega
  have hcentury : (36524 * c + 1461 * q + 365 * r + k) / 36524
      = c + if 36524 ≤ 1461 * q + 365 * r + k then 1 else 0 := by
    split at hlt <;> split <;> omega
  have hera : (36524 * c + 1461 * q + 365 * r + k) / 146096
      = if 146096 ≤ 36524 * c + 1461 * q + 365 * r + k then 1 else 0 := by
    split at hlt <;> split <;> omega
  rw [hfour, hcentury, hera]
  split at hlt <;> split_ifs <;> omega

/-- The day `k` of the year `y` of an era. -/
structure Place where
  era : Int
  y : Int
  k : Int
  y_range : 0 ≤ y ∧ y < 400
  k_nonneg : 0 ≤ k
  k_lt : yearStart y + k < yearStart (y + 1)

namespace Place

/-- The number of the day, from 1970-01-01 on. -/
def days (p : Place) : Int := p.era * 146097 + yearStart p.y + p.k - 719468

/-- The date of the day. -/
def fields (p : Place) : Int × Int × Int :=
  let (m, d) := monthDay p.k
  (if m ≤ 2 then p.y + p.era * 400 + 1 else p.y + p.era * 400, m, d)

/-- An era is never left by its days. -/
theorem dayOfEra_range (p : Place) : 0 ≤ yearStart p.y + p.k ∧ yearStart p.y + p.k < 146097 := by
  obtain ⟨hy, hy'⟩ := p.y_range
  have hk := p.k_nonneg
  have hlt := p.k_lt
  unfold yearStart at hlt ⊢
  omega

theorem civilFromDays_days (p : Place) : civilFromDays p.days = p.fields := by
  obtain ⟨hlo, hhi⟩ := p.dayOfEra_range
  have hz : p.days + 719468 = p.era * 146097 + (yearStart p.y + p.k) := by
    unfold days
    omega
  have hera : (p.days + 719468) / 146097 = p.era := by
    rw [hz]
    omega
  have hdoe : p.days + 719468 - p.era * 146097 = yearStart p.y + p.k := by
    rw [hz]
    omega
  have hyear := yearOfEra_eq p.y_range p.k_nonneg p.k_lt
  have hdoy : yearStart p.y + p.k - (365 * p.y + p.y / 4 - p.y / 100) = p.k := by
    obtain ⟨hy, hy'⟩ := p.y_range
    unfold yearStart
    omega
  dsimp only at hyear
  unfold civilFromDays
  dsimp only
  rw [hera, hdoe, hyear, hdoy]
  rfl

/-- The last month has 29 days in a year of 366. -/
theorem yearLength (p : Place) :
    yearStart (p.y + 1) - yearStart p.y
      = if IsLeap (p.y + p.era * 400 + 1) then 366 else 365 := by
  obtain ⟨hy, hy'⟩ := p.y_range
  by_cases hleap : IsLeap (p.y + p.era * 400 + 1)
  · rw [if_pos hleap]
    unfold IsLeap at hleap
    unfold yearStart
    omega
  · rw [if_neg hleap]
    unfold IsLeap at hleap
    unfold yearStart
    omega

/-- The last month of a year that begins in March. -/
theorem februaryLength (p : Place) :
    monthLength (p.y + p.era * 400 + 1) 2 = yearStart (p.y + 1) - yearStart p.y - 337 := by
  rw [p.yearLength]
  unfold monthLength
  rw [if_pos rfl]
  split_ifs <;> rfl

/-- The day after, in the same year. -/
theorem fields_sameYear (p : Place) (hlt : yearStart p.y + (p.k + 1) < yearStart (p.y + 1)) :
    Place.fields { p with
      k := p.k + 1
      k_nonneg := by have := p.k_nonneg; omega
      k_lt := hlt } = nextFields p.fields := by
  obtain ⟨n, hn⟩ := Int.eq_ofNat_of_zero_le p.k_nonneg
  have hlen := p.yearLength
  have hfebruary := p.februaryLength
  have hk : n < 365 := by
    split_ifs at hlen <;> omega
  have hstep := monthDay_succ n hk
  obtain ⟨hpos, hfeb, hday⟩ := monthDay_range n (by omega)
  unfold fields nextFields
  dsimp only
  rw [hn, hstep]
  generalize monthDay n = md at hfeb hday hpos ⊢
  obtain ⟨m, d⟩ := md
  dsimp only at hfeb hday hpos ⊢
  by_cases hm : m = 2
  · subst hm
    have hd := hday rfl
    have hzero : monthLength 0 2 = 29 := by decide
    rw [if_pos (le_refl 2), hzero, hfebruary, if_pos (show d < 29 by omega),
      if_pos (show d < yearStart (p.y + 1) - yearStart p.y - 337 by omega)]
    rfl
  · -- the year of the calendar begins with the eleventh month
    have hlength := monthLength_eq hm 0
      (if m ≤ 2 then p.y + p.era * 400 + 1 else p.y + p.era * 400)
    rw [hlength]
    split_ifs <;> first | rfl | omega

/-- The last day of a year that begins in March. -/
theorem nextFields_last (p : Place) (hend : yearStart p.y + (p.k + 1) = yearStart (p.y + 1)) :
    nextFields p.fields = (p.y + p.era * 400 + 1, 3, 1) := by
  obtain ⟨n, hn⟩ := Int.eq_ofNat_of_zero_le p.k_nonneg
  have hlen := p.yearLength
  have hfebruary := p.februaryLength
  have hk : n = 364 ∨ n = 365 := by
    split_ifs at hlen <;> omega
  obtain ⟨-, hfeb, hday⟩ := monthDay_range n (by omega)
  have hm : (monthDay n).1 = 2 := hfeb.2 (by omega)
  have hd := hday hm
  unfold fields nextFields
  dsimp only
  rw [hn, hm, hd, if_pos (le_refl 2), hfebruary,
    if_neg (show ¬(n : Int) - 336 < yearStart (p.y + 1) - yearStart p.y - 337 by omega)]
  rfl

theorem fields_first {p : Place} (hk : p.k = 0) : p.fields = (p.y + p.era * 400, 3, 1) := by
  unfold fields
  rw [hk]
  rfl

/-- The day after the last of a year. -/
theorem exists_nextYear (p : Place) (hend : yearStart p.y + (p.k + 1) = yearStart (p.y + 1)) :
    ∃ p' : Place, p'.days = p.days + 1 ∧ p'.fields = nextFields p.fields := by
  rw [p.nextFields_last hend]
  obtain ⟨hy, hy'⟩ := p.y_range
  by_cases hera : p.y = 399
  · -- the next year is the first of the next era
    have hlast : yearStart (399 + 1) = 146097 := by decide
    rw [hera, hlast] at hend
    refine ⟨⟨p.era + 1, 0, 0, by decide, by decide, by decide⟩, ?_, ?_⟩
    · have hzero : yearStart 0 = 0 := by decide
      unfold days
      dsimp only
      rw [hera, hzero]
      omega
    · rw [fields_first rfl, hera]
      refine Prod.ext ?_ rfl
      dsimp only
      omega
  · have hnext : yearStart (p.y + 1) < yearStart (p.y + 1 + 1) := by
      unfold yearStart
      omega
    refine ⟨⟨p.era, p.y + 1, 0, by omega, by decide, by omega⟩, ?_, ?_⟩
    · unfold days
      dsimp only
      omega
    · rw [fields_first rfl]
      refine Prod.ext ?_ rfl
      dsimp only
      omega

theorem exists_next (p : Place) :
    ∃ p' : Place, p'.days = p.days + 1 ∧ p'.fields = nextFields p.fields := by
  by_cases hlt : yearStart p.y + (p.k + 1) < yearStart (p.y + 1)
  · refine ⟨_, ?_, p.fields_sameYear hlt⟩
    unfold days
    dsimp only
    omega
  · have hk := p.k_lt
    exact p.exists_nextYear (by omega)

end Place

/-! ### The days since the epoch -/

theorem exists_place (n : Nat) : ∃ p : Place, p.days = n ∧ p.fields = (epoch.after n).fields := by
  induction n with
  | zero =>
      -- the epoch is in January, the eleventh month of the year 1969 of the division
      exact ⟨⟨4, 369, 306, by decide, by decide, by decide⟩, by decide, by decide⟩
  | succ n ih =>
      obtain ⟨p, hdays, hfields⟩ := ih
      obtain ⟨p', hdays', hfields'⟩ := p.exists_next
      refine ⟨p', ?_, ?_⟩
      · rw [hdays', hdays]
        rfl
      · rw [hfields', hfields, Date.after_succ, Date.fields_next]

/-- **The division gives the day that counting gives.** -/
theorem civilFromDays_eq (n : Nat) : civilFromDays n = (epoch.after n).fields := by
  obtain ⟨p, hdays, hfields⟩ := exists_place n
  rw [← hdays, p.civilFromDays_days, hfields]

/-! ### The text -/

/-- The text of a day and a clock. -/
def stamp (d : Date) (c : Clock) : String :=
  String.ofList (text d.fields c.hour c.minute c.second)

theorem formatUtc_eq (sinceEpoch : Option UInt64) :
    formatUtc sinceEpoch = stamp (epoch.after ((sinceEpoch.getD 0).toNat / 86400))
      (Clock.ofSeconds ((sinceEpoch.getD 0).toNat % 86400) (Nat.mod_lt _ (by decide))) := by
  unfold formatUtc stamp
  dsimp only
  rw [civilFromDays_eq]
  rfl

/-- A text is cut at its first separator in one way. -/
theorem append_cons_inj {c : Char} {xs xs' ys ys' : List Char} (hxs : c ∉ xs) (hxs' : c ∉ xs')
    (h : xs ++ c :: ys = xs' ++ c :: ys') : xs = xs' ∧ ys = ys' := by
  induction xs generalizing xs' with
  | nil =>
      cases xs' with
      | nil => exact ⟨rfl, (List.cons.inj h).2⟩
      | cons x' xs' => exact absurd ((List.cons.inj h).1 ▸ List.mem_cons_self) hxs'
  | cons x xs ih =>
      cases xs' with
      | nil => exact absurd ((List.cons.inj h).1 ▸ List.mem_cons_self) hxs
      | cons x' xs' =>
          obtain ⟨hx, hrest⟩ := List.cons.inj h
          obtain ⟨hxs, hys⟩ := ih (List.not_mem_of_not_mem_cons hxs)
            (List.not_mem_of_not_mem_cons hxs') hrest
          exact ⟨by rw [hx, hxs], hys⟩

theorem not_mem_decPad {c : Char} (hc : c.isDigit = false) (width n : Nat) : c ∉ decPad width n := by
  intro h
  rcases List.mem_append.mp h with h | h
  · rw [List.eq_of_mem_replicate h] at hc
    exact absurd hc (by decide)
  · rw [Decimal.isDigit_of_mem_toDigits h] at hc
    cases hc

/-- A number is known from the text up to a separator. -/
theorem decPad_append_inj {c : Char} (hc : c.isDigit = false) {width n m : Nat} {ys zs : List Char}
    (h : decPad width n ++ c :: ys = decPad width m ++ c :: zs) : n = m ∧ ys = zs := by
  obtain ⟨hpad, hrest⟩ := append_cons_inj (not_mem_decPad hc width n) (not_mem_decPad hc width m) h
  exact ⟨decPad_injective width hpad, hrest⟩

theorem pad_append_inj {c : Char} (hc : c.isDigit = false) {width : Nat} {x y : Int} (hx : 0 ≤ x)
    (hy : 0 ≤ y) {ys zs : List Char} (h : pad width x ++ c :: ys = pad width y ++ c :: zs) :
    x = y ∧ ys = zs := by
  obtain ⟨n, rfl⟩ := Int.eq_ofNat_of_zero_le hx
  obtain ⟨m, rfl⟩ := Int.eq_ofNat_of_zero_le hy
  obtain ⟨hnum, hrest⟩ := decPad_append_inj hc h
  exact ⟨congrArg Int.ofNat hnum, hrest⟩

/-- A text has one day and one clock. -/
theorem stamp_inj {d e : Date} {b c : Clock} (hd : 0 ≤ d.year) (he : 0 ≤ e.year)
    (h : stamp d b = stamp e c) : d = e ∧ b = c := by
  have hdm := d.month_pos
  have hem := e.month_pos
  have hdd := d.day_pos
  have hed := e.day_pos
  have htext := String.ofList_injective h
  -- no digit is a separator, so the fields are read off one after the other
  obtain ⟨hyear, h⟩ := pad_append_inj (by decide) hd he htext
  obtain ⟨hmonth, h⟩ := pad_append_inj (by decide) (by omega) (by omega) h
  obtain ⟨hday, h⟩ := pad_append_inj (by decide) (by omega) (by omega) h
  obtain ⟨hhour, h⟩ := decPad_append_inj (by decide) h
  obtain ⟨hminute, h⟩ := decPad_append_inj (by decide) h
  obtain ⟨hsecond, -⟩ := decPad_append_inj (by decide) h
  exact ⟨Date.ext hyear hmonth hday, Clock.ext hhour hminute hsecond⟩

/-- **The text of a time shows the day and the clock that it is, and no other.** -/
theorem shows_iff (sinceEpoch : Option UInt64) (n : Nat) (c : Clock) :
    formatUtc sinceEpoch = stamp (epoch.after n) c
      ↔ (sinceEpoch.getD 0).toNat = 86400 * n + c.seconds := by
  have hyear := fun n => le_trans (show (0 : Int) ≤ epoch.year by decide) (epoch.year_le_after n)
  rw [formatUtc_eq]
  constructor
  · intro h
    obtain ⟨hday, hclock⟩ := stamp_inj (hyear _) (hyear _) h
    have hseconds := Clock.seconds_ofSeconds ((sinceEpoch.getD 0).toNat % 86400)
      (Nat.mod_lt _ (by decide))
    rw [hclock] at hseconds
    rw [← Date.after_injective epoch hday, hseconds]
    omega
  · intro h
    have hclock := c.seconds_lt
    have hday : (sinceEpoch.getD 0).toNat / 86400 = n := by omega
    rw [hday]
    congr 1
    apply Clock.seconds_injective
    rw [Clock.seconds_ofSeconds]
    omega

end MemMux.Stamp
