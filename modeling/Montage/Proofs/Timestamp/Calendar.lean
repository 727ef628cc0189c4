import Mathlib
import Montage.Timestamp

/-!
Contract: the calendar that moments are written in.

Owns:
- the days of an era of four hundred years, and the year that each of them is in;
- that every day has a date, from which the day is computed again;
- that the days between the ends of the calendar have years between its ends.

Does **not** own: the texts of dates (`Montage.Proofs.Timestamp.Text`).

The year of a day is a division by 365 after leap days have been taken away. Where one year ends and the
next one starts was checked for each of the four hundred; in between, the number that is divided grows
with the day, so that the division needs no other cases.
-/

set_option autoImplicit false

namespace Montage.Timestamp

/-- A day of an era less the leap days before it, so that all years count 365. -/
def evened (day : Int) : Int := day - day / 1460 + day / 36524 - day / 146096

/-- The first day of a year of an era, which is a first of March. -/
def yearStart (year : Int) : Int := 365 * year + year / 4 - year / 100

def yearEnd (year : Int) : Int := if year = 399 then 146096 else yearStart (year + 1) - 1

theorem evened_mono : Monotone evened := by
  refine monotone_int_of_le_succ fun day => ?_
  unfold evened
  omega

theorem evened_yearStart {year : Int} (least : 0 ≤ year) (greatest : year < 400) :
    365 * year ≤ evened (yearStart year) ∧ evened (yearEnd year) < 365 * (year + 1) := by
  have table : ∀ year : Nat, year < 400 →
      365 * (year : Int) ≤ evened (yearStart year) ∧ evened (yearEnd year) < 365 * ((year : Int) + 1) := by
    decide +kernel
  have same : ((year.toNat : Nat) : Int) = year := Int.toNat_of_nonneg least
  have entry := table year.toNat (by omega)
  rwa [same] at entry

theorem yearOfEra {day year : Int} (least : 0 ≤ day) (greatest : day < 146097)
    (isYear : year = evened day / 365) :
    0 ≤ year ∧ year < 400 ∧ yearStart year ≤ day ∧ day ≤ yearEnd year := by
  have first : evened 0 ≤ evened day := evened_mono least
  have last : evened day ≤ evened 146096 := evened_mono (by omega)
  have zero : evened 0 = 0 := rfl
  have all : evened 146096 = 145999 := rfl
  have bounds : 0 ≤ year ∧ year < 400 := by omega
  refine ⟨bounds.1, bounds.2, ?_, ?_⟩
  · by_contra early
    have positive : 0 < year := by
      by_contra notPositive
      have isZero : year = 0 := by omega
      rw [isZero] at early
      exact early least
    have previous : yearEnd (year - 1) = yearStart year - 1 := by
      unfold yearEnd
      rw [if_neg (by omega), Int.sub_add_cancel]
    have before : evened day ≤ evened (yearEnd (year - 1)) := evened_mono (by omega)
    have entry := (evened_yearStart (by omega : 0 ≤ year - 1) (by omega)).2
    omega
  · by_contra late
    by_cases isLast : year = 399
    · rw [isLast] at late
      exact late (Int.le_of_lt_add_one greatest)
    · have next : yearEnd year = yearStart (year + 1) - 1 := if_neg isLast
      have after : evened (yearStart (year + 1)) ≤ evened day := evened_mono (by omega)
      have entry := (evened_yearStart (by omega : 0 ≤ year + 1) (by omega)).1
      omega

/-- Where a day stands in its era of four hundred years that start in March. -/
structure MarchDay where
  era : Int
  year : Int
  dayOfYear : Int
  month : Int

namespace MarchDay

def number (d : MarchDay) : Int :=
  d.era * 146097 + yearStart d.year + d.dayOfYear - 719468

def dayOfMonth (d : MarchDay) : Int := d.dayOfYear - (153 * d.month + 2) / 5 + 1

/-- The month counted from January. -/
def civilMonth (d : MarchDay) : Int := if d.month < 10 then d.month + 3 else d.month - 9

/-- The year that starts in January. -/
def civilYear (d : MarchDay) : Int :=
  d.year + d.era * 400 + (if d.civilMonth ≤ 2 then 1 else 0)

def date (d : MarchDay) : Date := ⟨d.civilYear, d.civilMonth.toNat, d.dayOfMonth.toNat⟩

theorem civilMonth_cases (d : MarchDay) :
    d.month < 10 ∧ d.civilMonth = d.month + 3 ∨ 10 ≤ d.month ∧ d.civilMonth = d.month - 9 := by
  unfold civilMonth
  split <;> omega

/-- Within the era, the year and the month. -/
structure Proper (d : MarchDay) : Prop where
  year : 0 ≤ d.year ∧ d.year < 400
  dayOfYear : 0 ≤ d.dayOfYear ∧ yearStart d.year + d.dayOfYear ≤ yearEnd d.year
  month : d.month = (5 * d.dayOfYear + 2) / 153

end MarchDay

theorem exists_marchDay (number : Int) :
    ∃ d : MarchDay, d.Proper ∧ d.number = number ∧ dateOfDay number = d.date := by
  obtain ⟨dayOfEra, isDayOfEra⟩ : ∃ day, day = (number + 719468) % 146097 := ⟨_, rfl⟩
  obtain ⟨year, isYear⟩ : ∃ year, year = evened dayOfEra / 365 := ⟨_, rfl⟩
  obtain ⟨dayOfYear, isDayOfYear⟩ : ∃ day, day = dayOfEra - yearStart year := ⟨_, rfl⟩
  have least : 0 ≤ dayOfEra := by omega
  have greatest : dayOfEra < 146097 := by omega
  obtain ⟨first, last, started, ended⟩ := yearOfEra least greatest isYear
  have days : 0 ≤ dayOfYear ∧ yearStart year + dayOfYear ≤ yearEnd year := by omega
  refine ⟨⟨(number + 719468) / 146097, year, dayOfYear, (5 * dayOfYear + 2) / 153⟩,
    ⟨⟨first, last⟩, days, rfl⟩, ?_, ?_⟩
  · show (number + 719468) / 146097 * 146097 + yearStart year + dayOfYear - 719468 = number
    omega
  · rw [isDayOfYear, isYear, isDayOfEra]
    rfl

namespace MarchDay.Proper

variable {d : MarchDay} (proper : d.Proper)

include proper

/-- A year has a last day of February if the next one has it by the calendar. -/
theorem dayOfYear_le :
    d.dayOfYear ≤ 364 ∨ d.dayOfYear = 365 ∧ isLeapYear (d.year + d.era * 400 + 1) = true := by
  have last := proper.dayOfYear.2
  have year := proper.year
  have leap : isLeapYear (d.year + d.era * 400 + 1) = true ↔
      (d.year + 1) % 4 = 0 ∧ ((d.year + 1) % 100 ≠ 0 ∨ (d.year + 1) % 400 = 0) := by
    unfold isLeapYear
    simp only [Bool.and_eq_true, Bool.or_eq_true, decide_eq_true_eq]
    omega
  rw [leap]
  unfold yearEnd yearStart at last
  split at last <;> omega

theorem month_le : 0 ≤ d.month ∧ d.month ≤ 11 := by
  have last := proper.dayOfYear_le
  have first := proper.dayOfYear.1
  have month := proper.month
  omega

theorem civilYear_cases :
    d.month < 10 ∧ d.civilYear = d.year + d.era * 400 ∨
      10 ≤ d.month ∧ d.civilYear = d.year + d.era * 400 + 1 := by
  have month := proper.month_le
  have civil := d.civilMonth_cases
  unfold civilYear
  split <;> omega

theorem dayOfMonth_le : 1 ≤ d.dayOfMonth ∧ d.dayOfMonth ≤ 31 := by
  have last := proper.dayOfYear_le
  have first := proper.dayOfYear.1
  have month := proper.month
  unfold dayOfMonth
  omega

theorem dayNumber_date : dayNumber d.date = d.number := by
  have year := proper.year
  have month := proper.month_le
  have civil := d.civilMonth_cases
  have day := proper.dayOfMonth_le
  have march : (((d.civilMonth.toNat + 9) % 12 : Nat) : Int) = d.month := by omega
  have years : (if d.civilMonth.toNat ≤ 2 then d.civilYear - 1 else d.civilYear) =
      d.year + d.era * 400 := by
    have cases := proper.civilYear_cases
    split <;> omega
  have days : (d.dayOfMonth.toNat : Int) = d.dayOfMonth := Int.toNat_of_nonneg (by omega)
  unfold dayNumber date
  simp only [march, years, days]
  unfold number yearStart dayOfMonth
  omega

theorem date_isDate :
    (1 ≤ d.date.month ∧ d.date.month ≤ 12) ∧
      1 ≤ d.date.day ∧ d.date.day ≤ daysInMonth d.date.year d.date.month := by
  have month := proper.month_le
  have civil := d.civilMonth_cases
  have years := proper.civilYear_cases
  have day := proper.dayOfMonth_le
  have isMonth : d.date.month = d.civilMonth.toNat := rfl
  have isDay : d.date.day = d.dayOfMonth.toNat := rfl
  have isYear : d.date.year = d.civilYear := rfl
  refine ⟨by omega, by omega, ?_⟩
  have last := proper.dayOfYear_le
  have isMarch := proper.month
  rw [isYear, isMonth, isDay]
  unfold daysInMonth dayOfMonth
  rcases years with ⟨early, same⟩ | ⟨late, next⟩
  · rw [if_neg (by omega)]
    split <;> omega
  · rw [next]
    split
    · rcases last with plain | ⟨extra, leap⟩
      · split <;> omega
      · rw [if_pos leap]
        omega
    · rw [if_neg (by omega)]
      omega

end MarchDay.Proper

theorem dayNumber_dateOfDay (number : Int) : dayNumber (dateOfDay number) = number := by
  obtain ⟨d, proper, isNumber, isDate⟩ := exists_marchDay number
  rw [isDate, proper.dayNumber_date, isNumber]

theorem yearStart_mono : Monotone yearStart := by
  refine monotone_int_of_le_succ fun year => ?_
  unfold yearStart
  omega

/-- A year ends before the later ones of its era start. -/
theorem yearEnd_lt {year later : Int} (before : year < later) (inEra : later < 400) :
    yearEnd year < yearStart later := by
  have next : yearEnd year = yearStart (year + 1) - 1 := if_neg (by omega)
  have starts : yearStart (year + 1) ≤ yearStart later := yearStart_mono before
  omega

theorem yearEnd_le {year : Int} (inEra : year < 400) : yearEnd year ≤ 146096 := by
  by_cases last : year = 399
  · rw [last]
    rfl
  · have before := yearEnd_lt (by omega : year < 399) (by decide)
    have start : yearStart 399 = 145731 := rfl
    omega

/-- What lies on the calendar has a year of the calendar. -/
theorem MarchDay.Proper.civilYear_bounds {d : MarchDay} (proper : d.Proper)
    (onCalendar : dayNumber firstDate ≤ d.number ∧ d.number ≤ dayNumber lastDate) :
    firstDate.year ≤ d.civilYear ∧ d.civilYear ≤ lastDate.year := by
  have first : dayNumber firstDate = -96465292 := rfl
  have last : dayNumber lastDate = 95026236 := rfl
  rw [first, last] at onCalendar
  have isNumber : d.number = d.era * 146097 + yearStart d.year + d.dayOfYear - 719468 := rfl
  have civil := proper.civilYear_cases
  have year := proper.year
  have isMarch := proper.month
  have days := proper.dayOfYear
  show -262143 ≤ _ ∧ _ ≤ 262142
  constructor
  · by_contra early
    have ended := yearEnd_le year.2
    have sameEra : d.era = -656 := by omega
    have start : yearStart 256 = 93502 := rfl
    rcases (by omega : d.year < 256 ∨ d.year = 256) with before | same
    · have before := yearEnd_lt before (by decide)
      omega
    · rw [same] at isNumber
      omega
  · by_contra late
    have started : yearStart 0 ≤ yearStart d.year := yearStart_mono year.1
    have zero : yearStart 0 = 0 := rfl
    have sameEra : d.era = 655 := by omega
    have start : yearStart 142 = 51864 := rfl
    rcases (by omega : d.year = 142 ∨ 142 < d.year) with same | after
    · rw [same] at isNumber
      omega
    · have after : yearStart 143 ≤ yearStart d.year := yearStart_mono after
      have next : yearStart 143 = 52229 := rfl
      omega

end Montage.Timestamp
