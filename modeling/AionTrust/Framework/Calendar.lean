import Mathlib.Algebra.Order.Ring.Int
import Mathlib.Data.Int.ConditionallyCompleteOrder
import Mathlib.Order.SuccPred.LinearLocallyFinite
import Mathlib.Tactic.Common
import Mathlib.Tactic.IntervalCases

/-!
# The Gregorian calendar

Dates of the calendar, continued before its introduction and to years before
the year 0 (`Date`), and the days counted from the start of the year 0
(`Date.dayNumber`): those of the years before, of the months before, and of
the month. A year of the count follows the one before by its length
(`daysBeforeYear_succ`), and a date is found by its number
(`dayNumber_injective`), which the day after follows (`dayNumber_next`).
-/

namespace Framework

/-- A year with a 29th of February. -/
def isLeap (y : Int) : Bool := decide (y % 4 = 0 ∧ (y % 100 ≠ 0 ∨ y % 400 = 0))

def yearLength (y : Int) : Int := if isLeap y then 366 else 365

/-- The days of a month, from 1 to 12; any other has none. -/
def daysInMonth (y : Int) : Nat → Int
  | 2 => if isLeap y then 29 else 28
  | 4 | 6 | 9 | 11 => 30
  | 1 | 3 | 5 | 7 | 8 | 10 | 12 => 31
  | _ => 0

/-- The days from the start of the year 0 to the start of a year. -/
def daysBeforeYear (y : Int) : Int := 365 * y + (y + 3) / 4 - (y + 99) / 100 + (y + 399) / 400

/-- The days of a year before a month. -/
def daysBeforeMonth (y : Int) : Nat → Int
  | 0 => 0
  | m + 1 => daysBeforeMonth y m + daysInMonth y m

theorem daysBeforeYear_succ (y : Int) : daysBeforeYear (y + 1) = daysBeforeYear y + yearLength y := by
  simp only [daysBeforeYear, yearLength, isLeap, decide_eq_true_eq]
  split <;> omega

theorem daysInMonth_nonneg (y : Int) (m : Nat) : 0 ≤ daysInMonth y m := by
  unfold daysInMonth
  split <;> (try split) <;> decide

theorem daysInMonth_pos (y : Int) {m : Nat} (hm : 1 ≤ m ∧ m ≤ 12) : 1 ≤ daysInMonth y m := by
  obtain ⟨h₁, h₁₂⟩ := hm
  interval_cases m <;> simp only [daysInMonth] <;> (try split) <;> decide

theorem daysInMonth_le (y : Int) (m : Nat) : daysInMonth y m ≤ 31 := by
  unfold daysInMonth
  split <;> (try split) <;> decide

/-- The months make up the year. -/
theorem daysBeforeMonth_thirteen (y : Int) : daysBeforeMonth y 13 = yearLength y := by
  simp only [daysBeforeMonth, daysInMonth, yearLength]
  split <;> rfl

theorem daysBeforeYear_strictMono : StrictMono daysBeforeYear :=
  strictMono_int_of_lt_succ fun y => by
    rw [daysBeforeYear_succ, yearLength]
    split <;> omega

theorem daysBeforeMonth_mono (y : Int) : Monotone (daysBeforeMonth y) :=
  monotone_nat_of_le_succ fun m => by
    have := daysInMonth_nonneg y m
    rw [daysBeforeMonth]
    omega

/-- A date: its day is one of its month. -/
@[ext] structure Date where
  year : Int
  month : Nat
  day : Int
  valid : 1 ≤ day ∧ day ≤ daysInMonth year month

namespace Date

/-- The days from the start of the year 0 to a date. -/
def dayNumber (d : Date) : Int := daysBeforeYear d.year + daysBeforeMonth d.year d.month + (d.day - 1)

theorem month_range (d : Date) : 1 ≤ d.month ∧ d.month ≤ 12 := by
  obtain ⟨y, m, day, hday⟩ := d
  unfold daysInMonth at hday
  split at hday <;> first | omega | simp

/-- A date lies in its month. -/
theorem lt_next_month (d : Date) :
    daysBeforeMonth d.year d.month + (d.day - 1) < daysBeforeMonth d.year (d.month + 1) := by
  have := d.valid
  rw [daysBeforeMonth]
  omega

/-- And in its year. -/
theorem dayNumber_bounds (d : Date) :
    daysBeforeYear d.year ≤ d.dayNumber ∧ d.dayNumber < daysBeforeYear (d.year + 1) := by
  have hvalid := d.valid
  have hmonth := d.lt_next_month
  have hfirst := daysBeforeMonth_mono d.year (Nat.zero_le d.month)
  have hlast := daysBeforeMonth_mono d.year (Nat.succ_le_succ d.month_range.2)
  rw [daysBeforeMonth_thirteen] at hlast
  simp only [Nat.succ_eq_add_one] at hlast
  rw [daysBeforeYear_succ, dayNumber]
  rw [show daysBeforeMonth d.year 0 = 0 from rfl] at hfirst
  omega

/-- The dates before a year are those numbered before it. -/
theorem year_lt_iff {d : Date} {y : Int} : d.year < y ↔ d.dayNumber < daysBeforeYear y := by
  obtain ⟨hfirst, hlast⟩ := d.dayNumber_bounds
  constructor
  · intro hlt
    exact hlast.trans_le (daysBeforeYear_strictMono.monotone (Int.add_one_le_of_lt hlt))
  · intro hlt
    exact daysBeforeYear_strictMono.lt_iff_lt.mp (hfirst.trans_lt hlt)

/-- The day after: the next of the month, the first of the next month, or the
first of the next year. -/
def next (d : Date) : Date :=
  if h : d.day < daysInMonth d.year d.month then
    { d with day := d.day + 1, valid := ⟨(by have := d.valid.1; omega), h⟩ }
  else if hm : d.month < 12 then
    { year := d.year, month := d.month + 1, day := 1
      valid := ⟨Int.le_refl 1, daysInMonth_pos _ ⟨Nat.le_add_left 1 _, hm⟩⟩ }
  else
    { year := d.year + 1, month := 1, day := 1, valid := ⟨Int.le_refl 1, daysInMonth_pos _ (by decide)⟩ }

theorem dayNumber_next (d : Date) : d.next.dayNumber = d.dayNumber + 1 := by
  have hvalid := d.valid
  have hmonth := d.month_range
  unfold next
  split
  · simp only [dayNumber]
    omega
  · split
    · simp only [dayNumber, daysBeforeMonth]
      omega
    · have hlast : d.month = 12 := by omega
      have hyear := daysBeforeMonth_thirteen d.year
      rw [daysBeforeMonth] at hyear
      rw [hlast] at hvalid
      simp only [dayNumber, daysBeforeYear_succ, hlast]
      rw [show daysBeforeMonth (d.year + 1) 1 = 0 from rfl]
      rename_i hday _
      rw [hlast] at hday
      omega

/-- A number is that of one date only. -/
theorem dayNumber_injective : Function.Injective dayNumber := by
  intro d e h
  have hyear : d.year = e.year := by
    have hsame : ∀ y, d.year < y ↔ e.year < y := fun y => by rw [year_lt_iff, h, year_lt_iff]
    exact le_antisymm (Int.le_of_lt_add_one ((hsame _).mpr (Int.lt_succ _)))
      (Int.le_of_lt_add_one ((hsame _).mp (Int.lt_succ _)))
  simp only [dayNumber, hyear] at h
  have hmonth : d.month = e.month := by
    have hd := d.lt_next_month
    have he := e.lt_next_month
    have hd₀ := d.valid
    have he₀ := e.valid
    rw [hyear] at hd
    rcases lt_trichotomy d.month e.month with hlt | heq | hgt
    · have := daysBeforeMonth_mono e.year (Nat.succ_le_of_lt hlt)
      simp only [Nat.succ_eq_add_one] at this
      omega
    · exact heq
    · have := daysBeforeMonth_mono e.year (Nat.succ_le_of_lt hgt)
      simp only [Nat.succ_eq_add_one] at this
      omega
  rw [hmonth] at h
  exact Date.ext hyear hmonth (by omega)

end Date

end Framework
