import AsetPlatform.Library.IsoDates

/-!
# Days of the month

`dayOfMonth` is the day of the month of a date. No two months in a row have less than 31 days, so that
every day of the month occurs among any 61 days in a row (`exists_dayOfMonth`).
-/

set_option autoImplicit false

namespace AsetPlatform.Library

/-- The year of a date: the last one that begins before its end. -/
def yearOfDate (n : Nat) : Nat := Nat.findGreatest (fun year => daysBeforeYear year < n) 9999

def monthOfDate (n : Nat) : Nat :=
  Nat.findGreatest (fun month => daysBeforeMonth (yearOfDate n) month < n - daysBeforeYear (yearOfDate n))
    12

/-- `date.day` -/
def dayOfMonth (n : Nat) : Nat :=
  n - daysBeforeYear (yearOfDate n) - daysBeforeMonth (yearOfDate n) (monthOfDate n)

/-! ## The length of a month -/

theorem daysInMonth_le (year month : Nat) : daysInMonth year month ≤ 31 := by
  rw [daysInMonth.eq_def]
  split
  · split <;> omega
  all_goals omega

theorem daysInMonth_succ {year month : Nat} (h : daysInMonth year month < 31) :
    month < 12 ∧ daysInMonth year (month + 1) = 31 := by
  rw [daysInMonth.eq_def] at h
  split at h
  · exact ⟨by decide, rfl⟩
  · exact ⟨by decide, rfl⟩
  · exact ⟨by decide, rfl⟩
  · exact ⟨by decide, rfl⟩
  · exact ⟨by decide, rfl⟩
  · exact absurd h (lt_irrefl _)

/-! ## The day of a calendar date -/

theorem daysBeforeMonth_succ (year : Nat) {month : Nat} (h : 1 ≤ month) :
    daysBeforeMonth year (month + 1) = daysBeforeMonth year month + daysInMonth year month := by
  cases month with
  | zero => exact absurd h (by decide)
  | succ month => rfl

theorem daysBeforeMonth_mono (year : Nat) : Monotone (daysBeforeMonth year) := by
  apply monotone_nat_of_le_succ
  intro month
  cases month with
  | zero => exact le_rfl
  | succ month => exact Nat.le_add_right _ _

theorem daysBeforeYear_mono : Monotone daysBeforeYear := by
  apply monotone_nat_of_le_succ
  intro year
  cases year with
  | zero => exact le_rfl
  | succ year =>
      rw [daysBeforeYear_succ year.succ_pos]
      exact Nat.le_add_right _ _

theorem findGreatest_step {f : Nat → Nat} (hf : Monotone f) {k b n : Nat} (hk : k ≤ b) (hLow : f k < n)
    (hHigh : n ≤ f (k + 1)) : Nat.findGreatest (fun m => f m < n) b = k := by
  rw [Nat.findGreatest_eq_iff]
  refine ⟨hk, fun _ => hLow, fun m hm _ hLess => ?_⟩
  exact absurd (hHigh.trans (hf hm)) (not_le.mpr hLess)

theorem dayOfMonth_calendarDate {year month day n : Nat} (h : calendarDate year month day = some n) :
    dayOfMonth n = day := by
  rw [calendarDate] at h
  split at h
  · rename_i hValid
    obtain ⟨⟨hYear, hLast⟩, ⟨hMonth, hTwelve⟩, hDay, hInMonth⟩ := hValid
    have hn : daysBeforeYear year + daysBeforeMonth year month + day = n := Option.some.inj h
    have hSucc := daysBeforeMonth_succ year hMonth
    have hInYear : daysBeforeMonth year (month + 1) ≤ daysBeforeMonth year 13 :=
      daysBeforeMonth_mono year (Nat.succ_le_succ hTwelve)
    have hFound : yearOfDate n = year := by
      apply findGreatest_step daysBeforeYear_mono hLast
      · omega
      · rw [daysBeforeYear_succ hYear]
        omega
    have hFoundMonth : monthOfDate n = month := by
      rw [monthOfDate, hFound]
      apply findGreatest_step (daysBeforeMonth_mono year) hTwelve
      · omega
      · omega
    rw [dayOfMonth, hFoundMonth, hFound]
    omega
  · cases h

theorem dayOfMonth_bounds {n : Nat} (h : 1 ≤ n) (hMax : n ≤ maxOrdinal) :
    1 ≤ dayOfMonth n ∧ dayOfMonth n ≤ 31 := by
  obtain ⟨year, month, day, hDate⟩ := exists_calendarDate h hMax
  rw [dayOfMonth_calendarDate hDate]
  rw [calendarDate] at hDate
  split at hDate
  · rename_i hValid
    exact ⟨hValid.2.2.1, hValid.2.2.2.trans (daysInMonth_le year month)⟩
  · cases hDate

/-! ## Every day of the month occurs -/

def nextMonth (date : Nat × Nat) : Nat × Nat :=
  if date.2 = 12 then (date.1 + 1, 1) else (date.1, date.2 + 1)

/-- The last day before a month. -/
def beforeMonth (date : Nat × Nat) : Nat := ymdToOrdinal date.1 date.2 0

section NextMonth

variable (date : Nat × Nat)

theorem nextMonth_valid (hYear : 1 ≤ date.1) (hMonth : 1 ≤ date.2) (hTwelve : date.2 ≤ 12) :
    1 ≤ (nextMonth date).1 ∧ 1 ≤ (nextMonth date).2 ∧ (nextMonth date).2 ≤ 12 := by
  rw [nextMonth]
  split
  · exact ⟨Nat.le_succ_of_le hYear, le_rfl, Nat.le_add_left 1 11⟩
  · exact ⟨hYear, Nat.le_add_left 1 _, by show date.2 + 1 ≤ 12; omega⟩

theorem beforeMonth_nextMonth (hYear : 1 ≤ date.1) (hMonth : 1 ≤ date.2) :
    beforeMonth (nextMonth date) = beforeMonth date + daysInMonth date.1 date.2 := by
  have hSucc := daysBeforeMonth_succ date.1 hMonth
  by_cases hLast : date.2 = 12
  · rw [hLast] at hSucc
    rw [nextMonth, if_pos hLast, beforeMonth, beforeMonth, ymdToOrdinal, ymdToOrdinal,
      daysBeforeYear_succ hYear, hSucc, hLast]
    simp only [daysBeforeMonth]
    omega
  · rw [nextMonth, if_neg hLast, beforeMonth, beforeMonth, ymdToOrdinal, ymdToOrdinal]
    simp only
    omega

theorem daysInMonth_nextMonth (h : daysInMonth date.1 date.2 < 31) :
    daysInMonth (nextMonth date).1 (nextMonth date).2 = 31 := by
  obtain ⟨hMonth, hNext⟩ := daysInMonth_succ h
  rw [nextMonth, if_neg hMonth.ne]
  exact hNext

end NextMonth

theorem dayOfMonth_beforeMonth {date : Nat × Nat} {day : Nat} (hYear : 1 ≤ date.1) (hMonth : 1 ≤ date.2)
    (hTwelve : date.2 ≤ 12) (hDay : 1 ≤ day) (hInMonth : day ≤ daysInMonth date.1 date.2)
    (hRange : beforeMonth date + day ≤ maxOrdinal) : dayOfMonth (beforeMonth date + day) = day := by
  have hLast : date.1 ≤ 9999 := by
    by_contra hBeyond
    have hStart : daysBeforeYear 10000 ≤ daysBeforeYear date.1 := daysBeforeYear_mono (by omega)
    have hEnd : daysBeforeYear 10000 = maxOrdinal := by
      norm_num [daysBeforeYear, maxOrdinal]
    rw [beforeMonth, ymdToOrdinal] at hRange
    omega
  refine @dayOfMonth_calendarDate date.1 date.2 day _ ?_
  rw [calendarDate, if_pos ⟨⟨hYear, hLast⟩, ⟨hMonth, hTwelve⟩, hDay, hInMonth⟩]
  rfl

theorem exists_dayOfMonth {a day : Nat} (hStart : 1 ≤ a) (hEnd : a + 60 ≤ maxOrdinal) (hDay : 1 ≤ day)
    (hLast : day ≤ 31) : ∃ n, a ≤ n ∧ n ≤ a + 60 ∧ dayOfMonth n = day := by
  obtain ⟨year, month, first, hDate⟩ := exists_calendarDate hStart (by omega : a ≤ maxOrdinal)
  rw [calendarDate] at hDate
  split at hDate
  · rename_i hValid
    obtain ⟨⟨hYear, -⟩, ⟨hMonth, hTwelve⟩, hFirst, hInMonth⟩ := hValid
    have ha : beforeMonth (year, month) + first = a := Option.some.inj hDate
    obtain ⟨hYear', hMonth', hTwelve'⟩ := nextMonth_valid (year, month) hYear hMonth hTwelve
    have hNext := beforeMonth_nextMonth (year, month) hYear hMonth
    have hLength := daysInMonth_le year month
    have hLength' := daysInMonth_le (nextMonth (year, month)).1 (nextMonth (year, month)).2
    by_cases hBehind : first ≤ day
    · by_cases hThis : day ≤ daysInMonth year month
      · -- later in the month
        refine ⟨beforeMonth (year, month) + day, by omega, by omega, ?_⟩
        exact dayOfMonth_beforeMonth hYear hMonth hTwelve hDay hThis (by omega)
      · -- the month is too short, the next one is not
        have hLong := daysInMonth_nextMonth (year, month) (by simp only; omega)
        simp only at hNext
        refine ⟨beforeMonth (nextMonth (year, month)) + day, by omega, by omega, ?_⟩
        exact dayOfMonth_beforeMonth hYear' hMonth' hTwelve' hDay (by omega) (by omega)
    · simp only at hNext
      by_cases hThat : day ≤ daysInMonth (nextMonth (year, month)).1 (nextMonth (year, month)).2
      · refine ⟨beforeMonth (nextMonth (year, month)) + day, by omega, by omega, ?_⟩
        exact dayOfMonth_beforeMonth hYear' hMonth' hTwelve' hDay hThat (by omega)
      · -- the next month is too short, the one after it is not
        have hLong := daysInMonth_nextMonth (nextMonth (year, month)) (by omega)
        obtain ⟨hYear'', hMonth'', hTwelve''⟩ := nextMonth_valid _ hYear' hMonth' hTwelve'
        have hNext' := beforeMonth_nextMonth _ hYear' hMonth'
        refine ⟨beforeMonth (nextMonth (nextMonth (year, month))) + day, by omega, by omega, ?_⟩
        exact dayOfMonth_beforeMonth hYear'' hMonth'' hTwelve'' hDay (by omega) (by omega)
  · cases hDate

end AsetPlatform.Library
