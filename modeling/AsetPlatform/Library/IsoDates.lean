import Mathlib.Data.List.Basic
import Mathlib.Tactic.IntervalCases

/-!
# Dates and their ISO texts

A date is the number of its day, counted from the first of January of the year 1, up to the end of the
year 9999. `fromIsoformat` reads calendar dates and week dates, with dashes and without. Every date
that it reads has a text of the form `YYYY-MM-DD` (`exists_calendarText`).
-/

set_option autoImplicit false

namespace AsetPlatform.Library

/-! ## Calendar -/

def isLeap (year : Nat) : Bool := year % 4 = 0 ∧ (year % 100 ≠ 0 ∨ year % 400 = 0)

def daysInMonth (year month : Nat) : Nat :=
  match month with
  | 2 => if isLeap year then 29 else 28
  | 4 | 6 | 9 | 11 => 30
  | _ => 31

def daysBeforeYear (year : Nat) : Nat :=
  (year - 1) * 365 + (year - 1) / 4 - (year - 1) / 100 + (year - 1) / 400

def daysBeforeMonth (year : Nat) : Nat → Nat
  | 0 => 0
  | 1 => 0
  | month + 1 => daysBeforeMonth year month + daysInMonth year month

/-- The number of a calendar date. -/
def ymdToOrdinal (year month day : Nat) : Nat :=
  daysBeforeYear year + daysBeforeMonth year month + day

/-- The last of December 9999. -/
def maxOrdinal : Nat := 3652059

/-- `date(year, month, day)` -/
def calendarDate (year month day : Nat) : Option Nat :=
  if (1 ≤ year ∧ year ≤ 9999) ∧ (1 ≤ month ∧ month ≤ 12) ∧ 1 ≤ day ∧ day ≤ daysInMonth year month then
    some (ymdToOrdinal year month day)
  else none

def firstMonday (year : Nat) : Nat :=
  let firstDay := ymdToOrdinal year 1 1
  let weekday := (firstDay + 6) % 7
  if 3 < weekday then firstDay - weekday + 7 else firstDay - weekday

/-- Years that begin on a Thursday, and leap years that begin on a Wednesday. -/
def hasWeek53 (year : Nat) : Bool :=
  let firstWeekday := ymdToOrdinal year 1 1 % 7
  firstWeekday = 4 ∨ firstWeekday = 3 ∧ isLeap year

/-- `date.fromisocalendar(year, week, day)` -/
def weekDate (year week day : Nat) : Option Nat :=
  let ordinal := firstMonday year + (week - 1) * 7 + (day - 1)
  if (1 ≤ year ∧ year ≤ 9999) ∧ (1 ≤ week ∧ week ≤ 53) ∧ (week = 53 → hasWeek53 year) ∧
      (1 ≤ day ∧ day ≤ 7) ∧ 1 ≤ ordinal ∧ ordinal ≤ maxOrdinal then
    some ordinal
  else none

/-! ## Texts -/

def readDigit (c : Char) : Option Nat := if '0' ≤ c ∧ c ≤ '9' then some (c.toNat - 48) else none

def readNumber (cs : List Char) : Option Nat :=
  cs.foldlM (fun n c => (readDigit c).map fun k => 10 * n + k) 0

def readCalendar (year month day : List Char) : Option Nat :=
  (readNumber year).bind fun y =>
    (readNumber month).bind fun m => (readNumber day).bind fun d => calendarDate y m d

def readWeek (year week day : List Char) : Option Nat :=
  (readNumber year).bind fun y =>
    (readNumber week).bind fun w => (readNumber day).bind fun d => weekDate y w d

/-- `date.fromisoformat`, of 10, 8 or 7 characters. -/
def fromIsoformat : List Char → Option Nat
  | [y₁, y₂, y₃, y₄, a, b, c, d, e, f] =>
      if a = '-' then
        if b = 'W' then if e = '-' then readWeek [y₁, y₂, y₃, y₄] [c, d] [f] else none
        else if d = '-' then readCalendar [y₁, y₂, y₃, y₄] [b, c] [e, f]
        else none
      else none
  | [y₁, y₂, y₃, y₄, a, b, c, d] =>
      if a = '-' then if b = 'W' then readWeek [y₁, y₂, y₃, y₄] [c, d] ['1'] else none
      else if a = 'W' then readWeek [y₁, y₂, y₃, y₄] [b, c] [d]
      else readCalendar [y₁, y₂, y₃, y₄] [a, b] [c, d]
  | [y₁, y₂, y₃, y₄, a, b, c] => if a = 'W' then readWeek [y₁, y₂, y₃, y₄] [b, c] ['1'] else none
  | _ => none

/-- `^\d{4}-\d{2}-\d{2}$` -/
def isCalendarText : List Char → Bool
  | [y₁, y₂, y₃, y₄, a, m₁, m₂, b, d₁, d₂] =>
      [y₁, y₂, y₃, y₄, m₁, m₂, d₁, d₂].all Char.isDigit && a = '-' && b = '-'
  | _ => false

/-! ## Every date has a calendar text -/

theorem exists_step {f : Nat → Nat} {k r : Nat} (h : f 0 < r) (hk : r ≤ f k) :
    ∃ m < k, f m < r ∧ r ≤ f (m + 1) := by
  induction k with
  | zero => exact absurd (h.trans_le hk) (lt_irrefl _)
  | succ k ih =>
      by_cases hBefore : r ≤ f k
      · obtain ⟨m, hm, hStep⟩ := ih hBefore
        exact ⟨m, hm.trans k.lt_succ_self, hStep⟩
      · exact ⟨k, k.lt_succ_self, not_le.mp hBefore, hk⟩

theorem succ_div_eq (k b : Nat) : (k + 1) / b = k / b + if (k + 1) % b = 0 then 1 else 0 := by
  simp only [Nat.succ_div, Nat.dvd_iff_mod_eq_zero]

theorem daysBeforeYear_succ {year : Nat} (h : 1 ≤ year) :
    daysBeforeYear (year + 1) = daysBeforeYear year + daysBeforeMonth year 13 := by
  have hMonths : daysBeforeMonth year 13 = if isLeap year then 366 else 365 := by
    cases hLeap : isLeap year <;> simp [daysBeforeMonth, daysInMonth, hLeap]
  obtain ⟨k, rfl⟩ : ∃ k, year = k + 1 := ⟨year - 1, (Nat.sub_add_cancel h).symm⟩
  have hCenturies : k / 100 ≤ k / 4 := Nat.div_le_div_left (by decide) (by decide)
  have hHundred : (k + 1) % 400 = 0 → (k + 1) % 100 = 0 := by omega
  have hFour : (k + 1) % 100 = 0 → (k + 1) % 4 = 0 := by omega
  rw [hMonths, daysBeforeYear, daysBeforeYear, isLeap]
  simp only [Nat.add_sub_cancel, decide_eq_true_eq, succ_div_eq k]
  -- the quotients stay what they are; the remainders decide
  generalize k / 4 = a at *
  generalize k / 100 = b at *
  generalize k / 400 = c at *
  generalize (k + 1) % 4 = r at *
  generalize (k + 1) % 100 = s at *
  generalize (k + 1) % 400 = t at *
  split_ifs <;> omega

theorem exists_calendarDate {n : Nat} (h : 1 ≤ n) (hMax : n ≤ maxOrdinal) :
    ∃ year month day, calendarDate year month day = some n := by
  have hFirst : daysBeforeYear (0 + 1) < n := h
  have hLast : n ≤ daysBeforeYear (9999 + 1) := by
    have hEnd : daysBeforeYear (9999 + 1) = maxOrdinal := by
      norm_num [daysBeforeYear, maxOrdinal]
    rw [hEnd]
    exact hMax
  obtain ⟨y, hy, hAfterYear, hInYear⟩ := exists_step (f := fun y => daysBeforeYear (y + 1)) hFirst hLast
  rw [daysBeforeYear_succ y.succ_pos] at hInYear
  have hFirstMonth : daysBeforeMonth (y + 1) (0 + 1) < n - daysBeforeYear (y + 1) :=
    Nat.sub_pos_of_lt hAfterYear
  have hLastMonth : n - daysBeforeYear (y + 1) ≤ daysBeforeMonth (y + 1) (12 + 1) :=
    Nat.sub_le_iff_le_add'.mpr hInYear
  obtain ⟨m, hm, hAfterMonth, hInMonth⟩ :=
    exists_step (f := fun m => daysBeforeMonth (y + 1) (m + 1)) hFirstMonth hLastMonth
  rw [daysBeforeMonth] at hInMonth
  · refine ⟨y + 1, m + 1, n - daysBeforeYear (y + 1) - daysBeforeMonth (y + 1) (m + 1), ?_⟩
    rw [calendarDate, if_pos ⟨by omega, by omega, by omega, by omega⟩, ymdToOrdinal]
    congr 1
    omega
  · intro hFirst
    omega

def digitChar (n : Nat) : Char := Char.ofNat (48 + n)

theorem readDigit_digitChar {n : Nat} (h : n < 10) :
    readDigit (digitChar n) = some n ∧ (digitChar n).isDigit := by
  interval_cases n <;> decide

def digits2 (n : Nat) : List Char := [digitChar (n / 10 % 10), digitChar (n % 10)]

def digits4 (n : Nat) : List Char := digits2 (n / 100) ++ digits2 (n % 100)

theorem readNumber_digits2 {n : Nat} (h : n < 100) : readNumber (digits2 n) = some n := by
  have hTens := (readDigit_digitChar (Nat.mod_lt (n / 10) (by decide : 0 < 10))).1
  have hOnes := (readDigit_digitChar (Nat.mod_lt n (by decide : 0 < 10))).1
  simp only [readNumber, digits2, List.foldlM_cons, List.foldlM_nil, hTens, hOnes, Option.map_some,
    Option.bind_eq_bind, Option.bind_some, Option.pure_def, Option.some.injEq]
  omega

theorem readNumber_digits4 {n : Nat} (h : n < 10000) : readNumber (digits4 n) = some n := by
  have hDigit : ∀ k, readDigit (digitChar (k % 10)) = some (k % 10) := fun k =>
    (readDigit_digitChar (Nat.mod_lt k (by decide : 0 < 10))).1
  simp only [readNumber, digits4, digits2, List.cons_append, List.nil_append, List.foldlM_cons,
    List.foldlM_nil, hDigit, Option.map_some, Option.bind_eq_bind, Option.bind_some, Option.pure_def,
    Option.some.injEq]
  omega

def calendarText (year month day : Nat) : List Char :=
  digits4 year ++ '-' :: (digits2 month ++ '-' :: digits2 day)

theorem isCalendarText_calendarText (year month day : Nat) :
    isCalendarText (calendarText year month day) := by
  have hDigit : ∀ k, (digitChar (k % 10)).isDigit := fun k =>
    (readDigit_digitChar (Nat.mod_lt k (by decide : 0 < 10))).2
  simp only [calendarText, digits4, digits2, List.cons_append, List.nil_append, isCalendarText,
    List.all_cons, List.all_nil, hDigit, Bool.and_true, decide_true]

theorem fromIsoformat_calendarText {year month day n : Nat} (h : calendarDate year month day = some n) :
    fromIsoformat (calendarText year month day) = some n := by
  have hValid := h
  rw [calendarDate] at hValid
  split at hValid
  · rename_i hDate
    obtain ⟨⟨-, hYear⟩, ⟨-, hMonth⟩, -, hDay⟩ := hDate
    have hDays : daysInMonth year month ≤ 31 := by
      rw [daysInMonth.eq_def]
      split
      · split <;> omega
      all_goals omega
    have hNoWeek : digitChar (month / 10 % 10) ≠ 'W' := by
      intro hSame
      have hRead := (readDigit_digitChar (Nat.mod_lt (month / 10) (by decide : 0 < 10))).1
      have hNone : readDigit 'W' = none := by decide
      rw [hSame, hNone] at hRead
      cases hRead
    have hText : fromIsoformat (calendarText year month day) =
        readCalendar (digits4 year) (digits2 month) (digits2 day) := by
      simp only [calendarText, digits4, digits2, List.cons_append, List.nil_append, fromIsoformat,
        if_true, if_neg hNoWeek]
    rw [hText, readCalendar, readNumber_digits4 (by omega), readNumber_digits2 (by omega),
      readNumber_digits2 (by omega)]
    exact h
  · cases hValid

theorem exists_of_readCalendar {ys ms ds : List Char} {n : Nat} (h : readCalendar ys ms ds = some n) :
    ∃ year month day, calendarDate year month day = some n := by
  obtain ⟨y, -, h⟩ := Option.bind_eq_some_iff.mp h
  obtain ⟨m, -, h⟩ := Option.bind_eq_some_iff.mp h
  obtain ⟨d, -, h⟩ := Option.bind_eq_some_iff.mp h
  exact ⟨y, m, d, h⟩

theorem exists_of_readWeek {ys ws ds : List Char} {n : Nat} (h : readWeek ys ws ds = some n) :
    ∃ year month day, calendarDate year month day = some n := by
  obtain ⟨y, -, h⟩ := Option.bind_eq_some_iff.mp h
  obtain ⟨w, -, h⟩ := Option.bind_eq_some_iff.mp h
  obtain ⟨d, -, h⟩ := Option.bind_eq_some_iff.mp h
  rw [weekDate] at h
  split at h
  · rename_i hDate
    cases h
    exact exists_calendarDate hDate.2.2.2.2.1 hDate.2.2.2.2.2
  · cases h

theorem exists_of_fromIsoformat {cs : List Char} {n : Nat} (h : fromIsoformat cs = some n) :
    ∃ year month day, calendarDate year month day = some n := by
  rw [fromIsoformat.eq_def] at h
  split at h
  · split at h
    · split at h
      · split at h
        · exact exists_of_readWeek h
        · cases h
      · split at h
        · exact exists_of_readCalendar h
        · cases h
    · cases h
  · split at h
    · split at h
      · exact exists_of_readWeek h
      · cases h
    · split at h
      · exact exists_of_readWeek h
      · exact exists_of_readCalendar h
  · split at h
    · exact exists_of_readWeek h
    · cases h
  · cases h

theorem exists_calendarText {cs : List Char} {n : Nat} (h : fromIsoformat cs = some n) :
    ∃ text, isCalendarText text ∧ fromIsoformat text = some n := by
  obtain ⟨year, month, day, hDate⟩ := exists_of_fromIsoformat h
  exact ⟨calendarText year month day, isCalendarText_calendarText year month day,
    fromIsoformat_calendarText hDate⟩

example : fromIsoformat "2024-02-29".toList = fromIsoformat "2024W094".toList := by decide

end AsetPlatform.Library
