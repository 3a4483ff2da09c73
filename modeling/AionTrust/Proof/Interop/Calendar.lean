import Mathlib.Tactic.IntervalCases
import Mathlib.Tactic.Linarith
import AionTrust.Framework.Calendar
import AionTrust.Impl.Interop.Rfc3339

/-!
# The civil calendar

A day lies in an era of 400 years, counted from the first of March of the year
0, and there in a century, a group of four years, a year and a day of the year
(`InCycle`). Only the last year of a group has a day 365, and only the last
century a whole last group. `civilFromDays` and `daysFromCivil` are computed
from this position, without overflow (`civilFromDays_eq`, `daysFromCivil_eq`).
The position is that of the date with the day's number (`InCycle.date`), so the
two functions are a date of a day and the day of a date (`civil_date`,
`daysFromCivil_date`).
-/

namespace AionTrust.Proof

open AionTrust.Impl
open Framework (ok_bind Date daysBeforeYear daysBeforeMonth daysInMonth isLeap)

/-- The position of a day, 1970-01-01 being day 0. -/
structure InCycle (z era c k j doy : Int) : Prop where
  century : 0 ≤ c ∧ c ≤ 3
  group : 0 ≤ k ∧ k ≤ 24
  year : 0 ≤ j ∧ j ≤ 3
  day : 0 ≤ doy ∧ doy ≤ 365
  leap : doy = 365 → j = 3 ∧ (k < 24 ∨ c = 3)
  sum : z + 719468 = 146097 * era + (36524 * c + 1461 * k + 365 * j + doy)

/-- Every day has a position. -/
theorem exists_inCycle (z : Int) : ∃ era c k j doy, InCycle z era c k j doy := by
  let doe := (z + 719468) % 146097
  let c := min 3 (doe / 36524)
  let r := doe - 36524 * c
  let j := min 3 (r % 1461 / 365)
  refine ⟨(z + 719468) / 146097, c, r / 1461, j, r % 1461 - 365 * j, ?_, ?_, ?_, ?_, ?_, ?_⟩ <;> omega

/-- The year of the era, as `civilFromDays` finds it. -/
theorem InCycle.yearOfEra {z era c k j doy doe : Int} (h : InCycle z era c k j doy)
    (hdoe : 36524 * c + 1461 * k + 365 * j + doy = doe) :
    (doe - doe / 1460 + doe / 36524 - doe / 146096) / 365 = 100 * c + 4 * k + j := by
  obtain ⟨⟨hc₀, hc₁⟩, hk, ⟨hj₀, hj₁⟩, hday, hleap, -⟩ := h
  -- the last day of the era is the one that counts as a fifth century
  have hcentury : doe / 36524 = c ∨ (doe = 146096 ∧ c = 3 ∧ k = 24 ∧ j = 3 ∧ doy = 365) := by omega
  have hera : doe / 146096 = 0 ∨ (doe = 146096 ∧ c = 3 ∧ k = 24 ∧ j = 3 ∧ doy = 365) := by omega
  interval_cases j <;> interval_cases c <;> omega

/-- The biased division rounds down. -/
theorem eraOf_eq {cycle n : Int} (hcycle : 0 < cycle ∧ cycle ≤ 2 ^ 32) (hn : -2 ^ 62 ≤ n) :
    eraOf cycle n = .ok (n / cycle) := by
  rw [eraOf]
  split
  · rw [ok_bind, Int.tdiv_eq_ediv_of_nonneg (by omega)]
    rfl
  · have hneg : n - (cycle - 1) = -(-n - 1 + cycle) := by ring
    have hmod := Int.emod_add_mul_ediv (-n - 1) cycle
    have hmod₀ := Int.emod_nonneg (-n - 1) hcycle.1.ne'
    have hmod₁ := Int.emod_lt_of_pos (-n - 1) hcycle.1
    have hdiv : n / cycle = -((-n - 1) / cycle) - 1 :=
      ((Int.ediv_emod_unique hcycle.1).mpr
        ⟨(by linarith : cycle - 1 - (-n - 1) % cycle + cycle * (-((-n - 1) / cycle) - 1) = n),
          by omega, by omega⟩).1
    rw [i64_eq (by omega), ok_bind, hneg, Int.neg_tdiv, Int.tdiv_eq_ediv_of_nonneg (by omega),
      Int.add_ediv_of_dvd_right (dvd_refl _), Int.ediv_self hcycle.1.ne', hdiv, neg_add]
    rfl

/-- Month and day of the month of a day of the year, which starts in March. -/
def monthOf (doy : Int) : Int :=
  if (5 * doy + 2) / 153 < 10 then (5 * doy + 2) / 153 + 3 else (5 * doy + 2) / 153 - 9

def dayOf (doy : Int) : Int := doy - (153 * ((5 * doy + 2) / 153) + 2) / 5 + 1

/-- The year of a date at this position. -/
def yearOf (era c k j doy : Int) : Int :=
  100 * c + 4 * k + j + era * 400 + if monthOf doy ≤ 2 then 1 else 0

theorem civilFromDays_eq {z era c k j doy : Int} (h : InCycle z era c k j doy)
    (hz : -2 ^ 62 ≤ z ∧ z ≤ 2 ^ 62) :
    civilFromDays z = .ok (yearOf era c k j doy, monthOf doy, dayOf doy) := by
  have hyear := @h.yearOfEra
  obtain ⟨hc, hk, hj, hday, -, hsum⟩ := h
  have hera : (z + 719468) / 146097 = era := by omega
  have hdoe : z + 719468 - era * 146097 = 36524 * c + 1461 * k + 365 * j + doy := by omega
  have hgroup : (100 * c + 4 * k + j) / 4 = 25 * c + k := by omega
  have hcentury : (100 * c + 4 * k + j) / 100 = c := by omega
  have hmp : 0 ≤ (5 * doy + 2) / 153 ∧ (5 * doy + 2) / 153 ≤ 11 := by omega
  rw [civilFromDays, i64_eq (by omega), ok_bind, eraOf_eq (by omega) (by omega), ok_bind, hera,
    i64_eq (n := era * 146097) (by omega), ok_bind, hdoe]
  generalize hdoe' : 36524 * c + 1461 * k + 365 * j + doy = doe
  have hdoy : doe - (365 * (100 * c + 4 * k + j) + (25 * c + k) - c) = doy := by omega
  rw [i64_eq (n := doe) (by omega), ok_bind]
  simp only [Int.tdiv_eq_ediv_of_nonneg (show 0 ≤ doe by omega)]
  rw [i64_eq (by omega), ok_bind, i64_eq (by omega), ok_bind, i64_eq (by omega), ok_bind,
    Int.tdiv_eq_ediv_of_nonneg (by omega), hyear _ hdoe', Int.tdiv_eq_ediv_of_nonneg (by omega),
    Int.tdiv_eq_ediv_of_nonneg (by omega), hgroup, hcentury, i64_eq (n := era * 400) (by omega), ok_bind,
    i64_eq (by omega), ok_bind, i64_eq (by omega), ok_bind, i64_eq (by omega), ok_bind,
    i64_eq (by omega), ok_bind, hdoy, i64_eq (n := doy) (by omega), ok_bind,
    i64_eq (n := 5 * doy) (by omega), ok_bind, i64_eq (n := 5 * doy + 2) (by omega), ok_bind,
    Int.tdiv_eq_ediv_of_nonneg (by omega)]
  unfold yearOf monthOf dayOf
  generalize (5 * doy + 2) / 153 = mp at hmp ⊢
  rw [i64_eq (by omega), ok_bind, i64_eq (by omega), ok_bind, Int.tdiv_eq_ediv_of_nonneg (by omega),
    i64_eq (by omega), ok_bind, i64_eq (by omega), ok_bind]
  have hmonth : (if mp < 10 then i64 (mp + 3) else i64 (mp - 9)) =
      .ok (if mp < 10 then mp + 3 else mp - 9) := by
    split <;> exact i64_eq (by omega)
  rw [hmonth, ok_bind]
  generalize (if mp < 10 then mp + 3 else mp - 9) = m
  split
  · rw [i64_eq (by omega)]
    rfl
  · rw [add_zero]
    rfl

theorem daysFromCivil_eq {z era c k j doy : Int} (h : InCycle z era c k j doy)
    (hz : -2 ^ 62 ≤ z ∧ z ≤ 2 ^ 62) :
    daysFromCivil (yearOf era c k j doy) (monthOf doy) (dayOf doy) = .ok z := by
  obtain ⟨hc, hk, hj, hday, -, hsum⟩ := h
  have hgroup : (100 * c + 4 * k + j) / 4 = 25 * c + k := by omega
  have hcentury : (100 * c + 4 * k + j) / 100 = c := by omega
  have hmp : 0 ≤ (5 * doy + 2) / 153 ∧ (5 * doy + 2) / 153 ≤ 11 := by omega
  have hy : (if monthOf doy ≤ 2 then i64 (yearOf era c k j doy - 1) else .ok (yearOf era c k j doy)) =
      .ok (100 * c + 4 * k + j + era * 400) := by
    unfold yearOf
    split
    · rw [i64_eq (by omega), add_sub_cancel_right]
    · rw [add_zero]
  have hmonth : (if monthOf doy > 2 then i64 (monthOf doy - 3) else i64 (monthOf doy + 9)) =
      .ok ((5 * doy + 2) / 153) := by
    unfold monthOf
    split <;> split <;> (rw [i64_eq (by omega)]; congr 1; omega)
  have hera : (100 * c + 4 * k + j + era * 400) / 400 = era := by omega
  have hyoe : 100 * c + 4 * k + j + era * 400 - era * 400 = 100 * c + 4 * k + j := by omega
  rw [daysFromCivil, hy, ok_bind, eraOf_eq (by omega) (by omega), ok_bind, hera,
    i64_eq (n := era * 400) (by omega), ok_bind, hyoe, i64_eq (by omega), ok_bind, hmonth, ok_bind]
  unfold dayOf
  generalize (5 * doy + 2) / 153 = mp at hmp ⊢
  have hdoy : (153 * mp + 2) / 5 + (doy - (153 * mp + 2) / 5 + 1) - 1 = doy := by omega
  rw [i64_eq (by omega), ok_bind, i64_eq (by omega), ok_bind, Int.tdiv_eq_ediv_of_nonneg (by omega)]
  dsimp only
  rw [i64_eq (by omega), ok_bind, hdoy, i64_eq (by omega), ok_bind, i64_eq (by omega), ok_bind,
    Int.tdiv_eq_ediv_of_nonneg (by omega), Int.tdiv_eq_ediv_of_nonneg (by omega), hgroup, hcentury,
    i64_eq (by omega), ok_bind, i64_eq (by omega), ok_bind, i64_eq (by omega), ok_bind, i64_eq (by omega), ok_bind,
    i64_eq (by omega), ok_bind, i64_eq (by omega)]
  congr 1
  omega

/-! ## Dates -/

/-- From March on the months begin on the days `(153 * mp + 2) / 5` of the year
that starts in March. -/
theorem daysBeforeMonth_march (y : Int) {m : Nat} (hm : 3 ≤ m ∧ m ≤ 12) :
    daysBeforeMonth y m = (153 * ((m : Int) - 3) + 2) / 5 + daysBeforeMonth y 3 := by
  obtain ⟨h₀, h₁⟩ := hm
  interval_cases m <;> simp [daysBeforeMonth, daysInMonth] <;> ring

theorem daysInMonth_march (y : Int) {m : Nat} (hm : 3 ≤ m ∧ m ≤ 12) :
    daysInMonth y m = (153 * ((m : Int) - 2) + 2) / 5 - (153 * ((m : Int) - 3) + 2) / 5 := by
  obtain ⟨h₀, h₁⟩ := hm
  interval_cases m <;> rfl

/-- The first of March, and the first of January after it, by the year alone. -/
theorem march_first (y : Int) :
    daysBeforeYear y + daysBeforeMonth y 3 = 365 * y + y / 4 - y / 100 + y / 400 + 60 := by
  simp only [daysBeforeYear, daysBeforeMonth, daysInMonth, isLeap, decide_eq_true_eq]
  split <;> omega

theorem january_first (y : Int) :
    daysBeforeYear (y + 1) = 365 * y + y / 4 - y / 100 + y / 400 + 366 := by
  rw [daysBeforeYear]
  omega

/-- A position in terms of the year that starts in March. -/
theorem InCycle.march {z era c k j doy y : Int} (h : InCycle z era c k j doy)
    (hy : y = 100 * c + 4 * k + j + era * 400) :
    z + 719468 = 365 * y + y / 4 - y / 100 + y / 400 + doy ∧ (doy = 365 → isLeap (y + 1) = true) := by
  obtain ⟨hc, hk, hj, -, hleap, hsum⟩ := h
  have hfour : y / 4 = 100 * era + 25 * c + k := by omega
  have hcentury : y / 100 = 4 * era + c := by omega
  have hera : y / 400 = era := by omega
  refine ⟨by linarith, fun hlast => ?_⟩
  obtain ⟨rfl, hgroup⟩ := hleap hlast
  clear hfour hcentury hera hsum hleap
  rw [isLeap, decide_eq_true_eq]
  -- the last year of a century is a leap year in the last century only
  by_cases hk' : k = 24
  · obtain rfl := hgroup.resolve_left (by omega)
    exact ⟨by omega, .inr (by omega)⟩
  · exact ⟨by omega, .inl (by omega)⟩

/-- What `civilFromDays` finds is the date with this number. -/
theorem InCycle.date {z era c k j doy : Int} (h : InCycle z era c k j doy) : ∃ date : Date,
    date.year = yearOf era c k j doy ∧ (date.month : Int) = monthOf doy ∧ date.day = dayOf doy ∧
      date.dayNumber = z + 719528 := by
  unfold yearOf monthOf dayOf
  generalize hy : 100 * c + 4 * k + j + era * 400 = y
  obtain ⟨hsum, hleap⟩ := h.march hy.symm
  obtain ⟨hday₀, hday₁⟩ := h.day
  clear h hy
  generalize hmp : (5 * doy + 2) / 153 = mp
  by_cases hm : mp < 10
  · obtain ⟨m, hm'⟩ : ∃ m : Nat, (m : Int) = mp + 3 := ⟨(mp + 3).toNat, by omega⟩
    have hrange : 3 ≤ m ∧ m ≤ 12 := by omega
    have hmonth := daysBeforeMonth_march y hrange
    have hlength := daysInMonth_march y hrange
    rw [show (m : Int) - 3 = mp by omega] at hmonth hlength
    rw [show (m : Int) - 2 = mp + 1 by omega] at hlength
    rw [if_pos hm, if_neg (by omega), add_zero]
    refine ⟨⟨y, m, doy - (153 * mp + 2) / 5 + 1, by omega⟩, rfl, hm', rfl, ?_⟩
    have hfirst := march_first y
    rw [Date.dayNumber, hmonth]
    linarith
  · rw [if_neg hm, if_pos (by omega)]
    rcases (by omega : mp = 10 ∨ mp = 11) with rfl | rfl
    · refine ⟨⟨y + 1, 1, doy - (153 * 10 + 2) / 5 + 1, ?_⟩, rfl, rfl, rfl, ?_⟩
      · rw [daysInMonth]
        omega
      · simp only [Date.dayNumber, daysBeforeMonth, daysInMonth, january_first]
        omega
    · refine ⟨⟨y + 1, 2, doy - (153 * 11 + 2) / 5 + 1, ?_⟩, rfl, rfl, rfl, ?_⟩
      · rw [daysInMonth]
        split
        · omega
        · rename_i hshort
          have hlast : doy ≠ 365 := mt hleap hshort
          omega
      · simp only [Date.dayNumber, daysBeforeMonth, daysInMonth, january_first]
        omega

/-- 1970-01-01. -/
def epoch : Date where
  year := 1970
  month := 1
  day := 1
  valid := by decide

/-- What `civilFromDays` finds of a day is its date. -/
theorem civil_date {z : Int} (hz : -2 ^ 62 ≤ z ∧ z ≤ 2 ^ 62) : ∃ date : Date,
    civilFromDays z = .ok (date.year, (date.month : Int), date.day) ∧ date.dayNumber = z + 719528 := by
  obtain ⟨era, c, k, j, doy, h⟩ := exists_inCycle z
  obtain ⟨date, hyear, hmonth, hday, hnumber⟩ := h.date
  exact ⟨date, by rw [civilFromDays_eq h hz, hyear, hmonth, hday], hnumber⟩

/-- And `daysFromCivil` of a date is its day. -/
theorem daysFromCivil_date (date : Date) {z : Int} (hdate : date.dayNumber = z + 719528)
    (hz : -2 ^ 62 ≤ z ∧ z ≤ 2 ^ 62) : daysFromCivil date.year date.month date.day = .ok z := by
  obtain ⟨era, c, k, j, doy, h⟩ := exists_inCycle z
  obtain ⟨date', hyear, hmonth, hday, hnumber⟩ := h.date
  obtain rfl := Date.dayNumber_injective (hdate.trans hnumber.symm)
  rw [hyear, hmonth, hday, daysFromCivil_eq h hz]

/-- A day that an `i64` of seconds falls on, or the one before or after. -/
def InDays (z : Int) : Prop := -(2 ^ 63 / 86400 + 1) ≤ z ∧ z ≤ 2 ^ 63 / 86400 + 1

/-- No day of a timestamp overflows on the way to its date and back: it has a date
of the calendar, which has the day, and the day after has the date after. The
first day has the first date, and every date of such a day has it. -/
theorem civil_gregorian :
    (∀ z, InDays z → ∃ date : Date, civilFromDays z = .ok (date.year, (date.month : Int), date.day) ∧
      (1 ≤ date.month ∧ date.month ≤ 12) ∧
      civilFromDays (z + 1) = .ok (date.next.year, (date.next.month : Int), date.next.day) ∧
      daysFromCivil date.year date.month date.day = .ok z) ∧
    civilFromDays 0 = .ok (1970, 1, 1) ∧
    ∀ date : Date, InDays (date.dayNumber - epoch.dayNumber) →
      ∃ z, daysFromCivil date.year date.month date.day = .ok z ∧
        civilFromDays z = .ok (date.year, (date.month : Int), date.day) := by
  have hepoch : epoch.dayNumber = 719528 := by decide
  refine ⟨fun z hz => ?_, rfl, fun date hdate => ?_⟩
  · have hnear : -2 ^ 62 ≤ z ∧ z + 1 ≤ 2 ^ 62 := by unfold InDays at hz; omega
    obtain ⟨date, hcivil, hnumber⟩ := civil_date (z := z) (by omega)
    obtain ⟨date', hcivil', hnumber'⟩ := civil_date (z := z + 1) (by omega)
    obtain rfl : date' = date.next := Date.dayNumber_injective (by rw [Date.dayNumber_next]; omega)
    exact ⟨date, hcivil, date.month_range, hcivil', daysFromCivil_date date hnumber (by omega)⟩
  · have hnear : -2 ^ 62 ≤ date.dayNumber - 719528 ∧ date.dayNumber - 719528 ≤ 2 ^ 62 := by
      unfold InDays at hdate
      omega
    obtain ⟨date', hcivil, hnumber⟩ := civil_date hnear
    obtain rfl : date' = date := Date.dayNumber_injective (by omega)
    exact ⟨_, daysFromCivil_date date' (by omega) hnear, hcivil⟩

/-- The year fits in four characters between the years -999 and 9999. -/
theorem year_range {date : Date} {z : Int} (hdate : date.dayNumber = z + 719528) :
    -999 ≤ date.year ∧ date.year ≤ 9999 ↔ -1084405 ≤ z ∧ z ≤ 2932896 := by
  have hfirst := Date.year_lt_iff (d := date) (y := -999)
  have hlast := Date.year_lt_iff (d := date) (y := 10000)
  rw [show daysBeforeYear (-999) = -364877 by decide] at hfirst
  rw [show daysBeforeYear 10000 = 3652425 by decide] at hlast
  omega

end AionTrust.Proof
