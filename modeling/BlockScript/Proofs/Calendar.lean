import BlockScript.Time.Timestamp
/-!
The calendar.

Days are told apart in eras of 400 years, years that start in March, and months. Every day of the
count has a date, that date exists, and it counts back to the same day.
-/

namespace BlockScript.Time.Date

/-- The day of its era on which a year begins, where years begin in March. -/
def yearStart (y : Int) : Int :=
  365 * y + y / 4 - y / 100

/-- The year of an era in which a day lies. A year has a 366th day, the leap day at its end, only
where the calendar year that began in it is a leap year. -/
theorem yearOfEra_contains {n y : Int} (first : 0 ≤ n) (last : n < 146097)
    (year : y = (n - n / 1460 + n / 36524 - n / 146096) / 365) :
    0 ≤ y ∧ y ≤ 399 ∧ yearStart y ≤ n ∧ n ≤ yearStart y + 365 ∧
      (n = yearStart y + 365 → isLeapYear (y + 1)) := by
  -- Counted in periods of 1460 days, four years without their leap day, a year is one of the four
  -- of its period. Leap days add up to less than a year, so it may also be the last one before.
  obtain ⟨c, century⟩ : ∃ c, c = n / 36524 - n / 146096 := ⟨_, rfl⟩
  obtain ⟨p, period⟩ : ∃ p, p = n / 1460 := ⟨_, rfl⟩
  obtain ⟨t, rest⟩ : ∃ t, t = y - 4 * p := ⟨_, rfl⟩
  have year : y = (n - p + c) / 365 := by
    rw [year, century, period]
    congr 1
    omega
  have centuries : c = 0 ∨ c = 1 ∨ c = 2 ∨ c = 3 := by omega
  have after : 36524 * c ≤ n := by omega
  have before : n < 36524 * (c + 1) ∨ n = 146096 ∧ c = 3 := by omega
  clear century
  have years : t = -1 ∨ t = 0 ∨ t = 1 ∨ t = 2 ∨ t = 3 := by omega
  have hundreds : y / 100 = c := by
    rcases years with h | h | h | h | h <;> omega
  have start : yearStart y = 365 * y + y / 4 - c := by rw [yearStart, hundreds]
  have nonneg : 0 ≤ y := by omega
  have le : y ≤ 399 := by omega
  have inside : 365 * y + y / 4 - c ≤ n ∧ n ≤ 365 * y + y / 4 - c + 365 := by
    rcases years with h | h | h | h | h <;> omega
  rw [start]
  refine ⟨nonneg, le, inside.1, inside.2, ?_⟩
  intro late
  have behind : t = -1 := by
    rcases years with h | h | h | h | h <;> omega
  clear years
  have fourth : (y + 1) % 4 = 0 := by omega
  have exempt : (y + 1) % 100 ≠ 0 ∨ (y + 1) % 400 = 0 := by
    rcases centuries with h | h | h | h <;> omega
  simp only [isLeapYear, Bool.and_eq_true, Bool.or_eq_true, decide_eq_true_eq]
  exact ⟨fourth, exempt⟩

theorem isLeapYear_add_era (y era : Int) : isLeapYear (y + era * 400) = isLeapYear y := by
  have four : (y + era * 400) % 4 = y % 4 := by omega
  have hundred : (y + era * 400) % 100 = y % 100 := by omega
  have all : (y + era * 400) % 400 = y % 400 := by omega
  rw [isLeapYear, isLeapYear, four, hundred, all]

/-- The day of a year on which a month begins, where months are counted from March. -/
def monthStart (m : Int) : Int :=
  (153 * m + 2) / 5

/-- The number of a month, from the months since March. -/
def monthNumber (m : Int) : Int :=
  if m < 10 then m + 3 else m - 9

theorem daysInMonth_le (year : Int) (month : Nat) : daysInMonth year month ≤ 31 := by
  unfold daysInMonth
  split
  · split <;> decide
  all_goals decide

theorem daysInMonth_monthNumber (year : Int) {m : Int} (first : 0 ≤ m) (last : m ≤ 10) :
    (daysInMonth year (monthNumber m).toNat : Int) = monthStart (m + 1) - monthStart m := by
  have months : m = 0 ∨ m = 1 ∨ m = 2 ∨ m = 3 ∨ m = 4 ∨ m = 5 ∨ m = 6 ∨ m = 7 ∨ m = 8 ∨ m = 9 ∨
      m = 10 := by
    omega
  rcases months with rfl | rfl | rfl | rfl | rfl | rfl | rfl | rfl | rfl | rfl | rfl <;> rfl

/-- The parts of a day: its era, the year in the era, the day in the year, and the months since
March. -/
structure Splits (days era year day month : Int) : Prop where
  sum : days + 719468 = era * 146097 + yearStart year + day
  year_nonneg : 0 ≤ year
  year_le : year ≤ 399
  day_nonneg : 0 ≤ day
  day_le : day ≤ 365
  leap : day = 365 → isLeapYear (year + 1)
  month_eq : month = (5 * day + 2) / 153
  date : ofDays days =
    { year := year + era * 400 + if monthNumber month ≤ 2 then 1 else 0
      month := (monthNumber month).toNat
      day := (day - monthStart month + 1).toNat }

theorem exists_splits (days : Int) : ∃ era year day month, Splits days era year day month := by
  obtain ⟨n, dayOfEra⟩ : ∃ n, n = days + 719468 - (days + 719468) / 146097 * 146097 := ⟨_, rfl⟩
  have first : 0 ≤ n := by omega
  have last : n < 146097 := by omega
  obtain ⟨y, year⟩ : ∃ y, y = (n - n / 1460 + n / 36524 - n / 146096) / 365 := ⟨_, rfl⟩
  obtain ⟨nonneg, le, start, stop, leap⟩ := yearOfEra_contains first last year
  refine ⟨(days + 719468) / 146097, y, n - yearStart y, (5 * (n - yearStart y) + 2) / 153,
    ⟨by omega, nonneg, le, by omega, by omega, fun late => leap (by omega), rfl, ?_⟩⟩
  rw [year, dayOfEra]
  rfl

namespace Splits

variable {days era year day month : Int} (h : Splits days era year day month)
include h

theorem month_range : 0 ≤ month ∧ month ≤ 11 := by
  have := h.month_eq
  have := h.day_nonneg
  have := h.day_le
  omega

theorem monthStart_le : monthStart month ≤ day := by
  have := h.month_eq
  have := h.day_nonneg
  unfold monthStart
  omega

/-- The date counts back to the day it was made from. -/
theorem toDays_eq : (ofDays days).toDays = days := by
  obtain ⟨month_nonneg, month_le⟩ := h.month_range
  have begun := h.monthStart_le
  have day_eq : ((day - monthStart month + 1).toNat : Int) = day - monthStart month + 1 :=
    Int.toNat_of_nonneg (by omega)
  have era_eq : (year + era * 400) / 400 = era := by
    have := h.year_nonneg
    have := h.year_le
    omega
  have year_eq : year + era * 400 - era * 400 = year := by omega
  have sum := h.sum
  unfold yearStart at sum
  rw [h.date]
  by_cases spring : month < 10
  · have number : monthNumber month = month + 3 := if_pos spring
    have number_eq : ((month + 3).toNat : Int) = month + 3 := Int.toNat_of_nonneg (by omega)
    have later : ¬ (month + 3).toNat ≤ 2 := by omega
    have later' : ¬ month + 3 ≤ 2 := by omega
    have since : month + 3 - 3 = month := by omega
    simp only [toDays, number, later, later', if_false, number_eq, since, day_eq, Int.add_zero,
      era_eq, year_eq]
    unfold monthStart
    omega
  · have number : monthNumber month = month - 9 := if_neg spring
    have number_eq : ((month - 9).toNat : Int) = month - 9 := Int.toNat_of_nonneg (by omega)
    have early : (month - 9).toNat ≤ 2 := by omega
    have early' : month - 9 ≤ 2 := by omega
    have since : month - 9 + 9 = month := by omega
    have before : year + era * 400 + 1 - 1 = year + era * 400 := by omega
    simp only [toDays, number, early, early', if_true, number_eq, since, day_eq, before, era_eq,
      year_eq]
    unfold monthStart
    omega

/-- The day lies within its month. -/
theorem day_le_daysInMonth :
    (day - monthStart month + 1).toNat ≤
      daysInMonth (ofDays days).year (monthNumber month).toNat := by
  obtain ⟨month_nonneg, month_le⟩ := h.month_range
  have month_eq := h.month_eq
  by_cases last : month = 11
  · -- The last month of the year is the short one.
    subst last
    have year_eq : (ofDays days).year = year + 1 + era * 400 := by
      rw [h.date]
      simp only [monthNumber]
      omega
    rw [year_eq]
    change _ ≤ if isLeapYear (year + 1 + era * 400) then 29 else 28
    rw [isLeapYear_add_era]
    have day_le := h.day_le
    unfold monthStart
    split
    · omega
    · next common =>
      have : day ≠ 365 := fun late => common (h.leap late)
      omega
  · have length := daysInMonth_monthNumber (ofDays days).year month_nonneg (by omega)
    unfold monthStart at length ⊢
    omega

end Splits

theorem toDays_ofDays (days : Int) : (ofDays days).toDays = days := by
  obtain ⟨era, year, day, month, splits⟩ := exists_splits days
  exact splits.toDays_eq

/-- The date of a day exists, as far as years are counted. -/
theorem isValid_ofDays {days : Int} (first : firstYear ≤ (ofDays days).year)
    (last : (ofDays days).year ≤ lastYear) : (ofDays days).isValid = true := by
  obtain ⟨era, year, day, month, splits⟩ := exists_splits days
  have within := splits.day_le_daysInMonth
  have month_eq : (ofDays days).month = (monthNumber month).toNat := by rw [splits.date]
  have day_eq : (ofDays days).day = (day - monthStart month + 1).toNat := by rw [splits.date]
  have month_range : 1 ≤ (monthNumber month).toNat ∧ (monthNumber month).toNat ≤ 12 := by
    have := splits.month_range
    unfold monthNumber
    split <;> omega
  have day_pos : 1 ≤ (day - monthStart month + 1).toNat := by
    have := splits.monthStart_le
    omega
  simp only [isValid, month_eq, day_eq, first, last, month_range, day_pos, within, decide_true,
    Bool.and_self]

end BlockScript.Time.Date
