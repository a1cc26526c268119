import AsetPlatform.Library.MonthDays
import Mathlib.Data.Prod.Lex

/-!
# Scheduled windows

`backend/jobs/scheduler_service.py`: the next and the last window of a schedule, by weekdays
(`_next_run_ist`, `_last_scheduled_window`) and by days of the month (`_next_run_ist_dates`,
`_last_window_dates`). Each tries the days from today on, forwards or backwards, up to a horizon, and
takes the first one that is configured and on the right side of the clock. A weekday occurs among any 7
days, a day of the month among any 61 (`Recurs`), so that the horizon does not cut off a window
(`exists_next`, `exists_last`).

Instants are wall-clock readings in IST, as the source compares them: the number of the day and the
microseconds of the day. A schedule is given by its parsed days and its parsed time.
-/

set_option autoImplicit false

namespace AsetPlatform.Jobs.ScheduleWindows

open AsetPlatform.Library

/-! ## The functions -/

/-- A wall-clock reading: a day and a time of the day. -/
abbrev Instant := ℕ ×ₗ ℕ

def Instant.day (i : Instant) : Nat := (ofLex i).1

def Instant.time (i : Instant) : Nat := (ofLex i).2

/-- `datetime.combine` -/
def combine (day time : Nat) : Instant := toLex (day, time)

/-- `strptime(cron_time, "%H:%M").time()`, in microseconds. -/
def timeOfDay (hour minute : Nat) : Nat := (hour * 60 + minute) * 60000000

def outOfRange : String := "date value out of range"

/-- `now + timedelta(days=offset)` -/
def later (now : Instant) (offset : Nat) : Except String Nat :=
  if now.day + offset ≤ maxOrdinal then .ok (now.day + offset) else .error outOfRange

/-- `now - timedelta(days=offset)` -/
def earlier (now : Instant) (offset : Nat) : Except String Nat :=
  if offset < now.day then .ok (now.day - offset) else .error outOfRange

/-- The loop over the offsets: the first candidate that passes. -/
def firstCandidate (move : Nat → Except String Nat) (passes : Nat → Bool) :
    List Nat → Except String (Option Nat)
  | [] => .ok none
  | offset :: offsets =>
      match move offset with
      | .error e => .error e
      | .ok day => if passes day then .ok (some day) else firstCandidate move passes offsets

/-- The first window after the clock on a day that fits. -/
def nextWindow (fits : Nat → Bool) (horizon time : Nat) (now : Instant) :
    Except String (Option Instant) :=
  (firstCandidate (later now) (fun day => fits day && decide (now < combine day time))
    (List.range horizon)).map fun found => found.map fun day => combine day time

/-- The last window that is not after the clock on a day that fits. -/
def lastWindow (fits : Nat → Bool) (horizon time : Nat) (now : Instant) :
    Except String (Option Instant) :=
  (firstCandidate (earlier now) (fun day => fits day && decide (combine day time ≤ now))
    (List.range horizon)).map fun found => found.map fun day => combine day time

def dayNames : List String := ["mon", "tue", "wed", "thu", "fri", "sat", "sun"]

/-- `day_names[candidate.weekday()] in cron_days` -/
def onWeekday (cronDays : List String) (day : Nat) : Bool :=
  dayNames[(day + 6) % 7]?.any fun name => decide (name ∈ cronDays)

/-- `candidate.day in allowed` -/
def onDayOfMonth (allowed : List Nat) (day : Nat) : Bool := decide (dayOfMonth day ∈ allowed)

/-- `_next_run_ist` -/
def nextRunIst (cronDays : List String) (time : Nat) (now : Instant) :=
  nextWindow (onWeekday cronDays) 8 time now

/-- `_last_scheduled_window` -/
def lastScheduledWindow (cronDays : List String) (time : Nat) (now : Instant) :=
  lastWindow (onWeekday cronDays) 8 time now

/-- `_next_run_ist_dates` -/
def nextRunIstDates (allowed : List Nat) (time : Nat) (now : Instant) :
    Except String (Option Instant) :=
  if allowed = [] then .ok none else nextWindow (onDayOfMonth allowed) 63 time now

/-- `_last_window_dates` -/
def lastWindowDates (allowed : List Nat) (time : Nat) (now : Instant) :
    Except String (Option Instant) :=
  if allowed = [] then .ok none else lastWindow (onDayOfMonth allowed) 63 time now

/-! ## Schedules -/

/-- An instant of a schedule, in the range of dates. -/
structure Configured (fits : Nat → Bool) (time : Nat) (i : Instant) : Prop where
  first : 1 ≤ i.day
  last : i.day ≤ maxOrdinal
  fits : fits i.day = true
  time : i.time = time

/-- Two instants of a schedule around the clock, with none between them. -/
structure Brackets (fits : Nat → Bool) (time : Nat) (now last next : Instant) : Prop where
  last_le : last ≤ now
  lt_next : now < next
  last_configured : Configured fits time last
  next_configured : Configured fits time next
  adjacent : ∀ i, Configured fits time i → ¬ (last < i ∧ i < next)

/-- Among any days in a row of that number, one fits. -/
def Recurs (fits : Nat → Bool) (days : Nat) : Prop :=
  ∀ a, 1 ≤ a → a + days ≤ maxOrdinal + 1 → ∃ day, a ≤ day ∧ day < a + days ∧ fits day = true

/-! ## The loop -/

section Loop

variable {move : Nat → Except String Nat} {passes : Nat → Bool}

/-- The loop returns the candidate of the first offset that passes, if the ones before it are in
range. -/
theorem firstCandidate_eq {k day : Nat} (hMove : move k = .ok day) (hPasses : passes day = true)
    {start count : Nat} (hFrom : start ≤ k) (hTo : k < start + count)
    (hBefore : ∀ offset, start ≤ offset → offset < k → ∃ d, move offset = .ok d ∧ passes d = false) :
    firstCandidate move passes (List.range' start count) = .ok (some day) := by
  induction count generalizing start with
  | zero => exact absurd (hFrom.trans_lt hTo) (lt_irrefl _)
  | succ count ih =>
      rw [List.range'_succ, firstCandidate]
      rcases Nat.eq_or_lt_of_le hFrom with rfl | hLater
      · simp only [hMove, hPasses, if_true]
      · obtain ⟨d, hd, hFails⟩ := hBefore start le_rfl hLater
        simp only [hd, hFails, Bool.false_eq_true, if_false]
        apply ih hLater (by omega)
        exact fun offset hOffset => hBefore offset (Nat.le_of_succ_le hOffset)

end Loop

section Windows

variable {fits : Nat → Bool} {time : Nat} {now : Instant}

theorem lt_combine_iff {day : Nat} :
    now < combine day time ↔ now.day < day ∨ now.day = day ∧ now.time < time :=
  Prod.Lex.lt_iff

theorem combine_le_iff {day : Nat} :
    combine day time ≤ now ↔ day < now.day ∨ day = now.day ∧ time ≤ now.time :=
  Prod.Lex.le_iff

theorem combine_mono {day day' : Nat} (h : day ≤ day') : combine day time ≤ combine day' time :=
  combine_le_iff.mpr (h.lt_or_eq.imp_right fun hSame => ⟨hSame, le_rfl⟩)

theorem Configured.eq_combine {i : Instant} (h : Configured fits time i) :
    i = combine i.day time := by
  rw [← h.time]
  rfl

theorem exists_next {days : Nat} (hRecurs : Recurs fits days) (hNow : 1 ≤ now.day)
    (h : ∃ i, now < i ∧ Configured fits time i) :
    ∃ next, nextWindow fits (days + 1) time now = .ok (some next) ∧ now < next ∧
      Configured fits time next ∧ ∀ i, Configured fits time i → now < i → next ≤ i := by
  let Passes (k : Nat) : Prop :=
    now.day + k ≤ maxOrdinal ∧ fits (now.day + k) = true ∧ now < combine (now.day + k) time
  have hPasses : ∀ i, Configured fits time i → now < i → ∃ k, i.day = now.day + k ∧ Passes k := by
    intro i hi hAfter
    rw [hi.eq_combine, lt_combine_iff] at hAfter
    obtain ⟨k, hk⟩ : ∃ k, i.day = now.day + k := ⟨i.day - now.day, by omega⟩
    refine ⟨k, hk, ?_, ?_, ?_⟩
    · rw [← hk]
      exact hi.last
    · rw [← hk]
      exact hi.fits
    · rw [← hk]
      exact lt_combine_iff.mpr hAfter
  obtain ⟨i, hAfter, hi⟩ := h
  have hExists : ∃ k, Passes k := (hPasses i hi hAfter).imp fun _ => And.right
  classical
  let k := Nat.find hExists
  obtain ⟨hRange, hFits, hLater⟩ : Passes k := Nat.find_spec hExists
  have hLeast : ∀ m, Passes m → k ≤ m := fun m hm => Nat.find_min' hExists hm
  -- a window beyond the horizon would not be the first one
  have hHorizon : k ≤ days := by
    by_contra hBeyond
    obtain ⟨day, hFrom, hTo, hDay⟩ := hRecurs (now.day + 1) (Nat.le_add_left 1 _) (by omega)
    have hSooner : Passes (day - now.day) := by
      have hSum : now.day + (day - now.day) = day := by omega
      refine ⟨by omega, by rw [hSum]; exact hDay, ?_⟩
      rw [hSum]
      exact lt_combine_iff.mpr (Or.inl hFrom)
    have hTooSoon := hLeast _ hSooner
    omega
  refine ⟨combine (now.day + k) time, ?_, hLater, ⟨Nat.le_add_right_of_le hNow, hRange, hFits, rfl⟩, ?_⟩
  · have hFound : firstCandidate (later now)
        (fun day => fits day && decide (now < combine day time)) (List.range' 0 (days + 1)) =
          .ok (some (now.day + k)) := by
      apply firstCandidate_eq (if_pos hRange) _ (Nat.zero_le k) (by omega)
      · intro offset _ hOffset
        refine ⟨now.day + offset, if_pos (by omega), ?_⟩
        rw [Bool.eq_false_iff]
        intro hBoth
        obtain ⟨hDay, hClock⟩ := Bool.and_eq_true_iff.mp hBoth
        exact absurd (hLeast offset ⟨by omega, hDay, of_decide_eq_true hClock⟩) (not_le.mpr hOffset)
      · exact Bool.and_eq_true_iff.mpr ⟨hFits, decide_eq_true hLater⟩
    rw [nextWindow, List.range_eq_range', hFound]
    rfl
  · intro j hj hAfterJ
    obtain ⟨m, hm, hPassesM⟩ := hPasses j hj hAfterJ
    rw [hj.eq_combine, hm]
    exact combine_mono (Nat.add_le_add_left (hLeast m hPassesM) _)

theorem exists_last {days : Nat} (hRecurs : Recurs fits days) (hNow : now.day ≤ maxOrdinal)
    (h : ∃ i, i ≤ now ∧ Configured fits time i) :
    ∃ last, lastWindow fits (days + 1) time now = .ok (some last) ∧ last ≤ now ∧
      Configured fits time last ∧ ∀ i, Configured fits time i → i ≤ now → i ≤ last := by
  let Passes (k : Nat) : Prop :=
    k < now.day ∧ fits (now.day - k) = true ∧ combine (now.day - k) time ≤ now
  have hPasses : ∀ i, Configured fits time i → i ≤ now → ∃ k, i.day = now.day - k ∧ Passes k := by
    intro i hi hUpTo
    have hFirst := hi.first
    rw [hi.eq_combine, combine_le_iff] at hUpTo
    obtain ⟨k, hk⟩ : ∃ k, now.day = i.day + k := ⟨now.day - i.day, by omega⟩
    have hDay : i.day = now.day - k := by omega
    refine ⟨k, hDay, by omega, ?_, ?_⟩
    · rw [← hDay]
      exact hi.fits
    · rw [← hDay]
      exact combine_le_iff.mpr hUpTo
  obtain ⟨i, hUpTo, hi⟩ := h
  have hExists : ∃ k, Passes k := (hPasses i hi hUpTo).imp fun _ => And.right
  classical
  let k := Nat.find hExists
  obtain ⟨hRange, hFits, hEarlier⟩ : Passes k := Nat.find_spec hExists
  have hLeast : ∀ m, Passes m → k ≤ m := fun m hm => Nat.find_min' hExists hm
  -- a window beyond the horizon would not be the last one
  have hHorizon : k ≤ days := by
    by_contra hBeyond
    obtain ⟨day, hFrom, hTo, hDay⟩ := hRecurs (now.day - days) (by omega) (by omega)
    have hBack : now.day - (now.day - day) = day := by omega
    have hSooner : Passes (now.day - day) := by
      refine ⟨by omega, by rw [hBack]; exact hDay, ?_⟩
      rw [hBack]
      exact combine_le_iff.mpr (Or.inl (by omega))
    have hTooSoon := hLeast _ hSooner
    omega
  refine ⟨combine (now.day - k) time, ?_, hEarlier,
    ⟨Nat.sub_pos_of_lt hRange, (Nat.sub_le _ _).trans hNow, hFits, rfl⟩, ?_⟩
  · have hFound : firstCandidate (earlier now)
        (fun day => fits day && decide (combine day time ≤ now)) (List.range' 0 (days + 1)) =
          .ok (some (now.day - k)) := by
      apply firstCandidate_eq (if_pos hRange) _ (Nat.zero_le k) (by omega)
      · intro offset _ hOffset
        refine ⟨now.day - offset, if_pos (by omega), ?_⟩
        rw [Bool.eq_false_iff]
        intro hBoth
        obtain ⟨hDay, hClock⟩ := Bool.and_eq_true_iff.mp hBoth
        exact absurd (hLeast offset ⟨by omega, hDay, of_decide_eq_true hClock⟩) (not_le.mpr hOffset)
      · exact Bool.and_eq_true_iff.mpr ⟨hFits, decide_eq_true hEarlier⟩
    rw [lastWindow, List.range_eq_range', hFound]
    rfl
  · intro j hj hUpToJ
    obtain ⟨m, hm, hPassesM⟩ := hPasses j hj hUpToJ
    rw [hj.eq_combine, hm]
    exact combine_mono (Nat.sub_le_sub_left (hLeast m hPassesM) _)

theorem exists_brackets {days : Nat} (hRecurs : Recurs fits days)
    (hLast : ∃ i, i ≤ now ∧ Configured fits time i) (hNext : ∃ i, now < i ∧ Configured fits time i) :
    ∃ last next, lastWindow fits (days + 1) time now = .ok (some last) ∧
      nextWindow fits (days + 1) time now = .ok (some next) ∧ Brackets fits time now last next := by
  have hFirst : 1 ≤ now.day := by
    obtain ⟨i, hUpTo, hi⟩ := hLast
    have hDay := hi.first
    rw [hi.eq_combine, combine_le_iff] at hUpTo
    omega
  have hEnd : now.day ≤ maxOrdinal := by
    obtain ⟨i, hAfter, hi⟩ := hNext
    have hDay := hi.last
    rw [hi.eq_combine, lt_combine_iff] at hAfter
    omega
  obtain ⟨last, hLastWindow, hLe, hLastConfigured, hGreatest⟩ := exists_last hRecurs hEnd hLast
  obtain ⟨next, hNextWindow, hLt, hNextConfigured, hLeast⟩ := exists_next hRecurs hFirst hNext
  refine ⟨last, next, hLastWindow, hNextWindow, hLe, hLt, hLastConfigured, hNextConfigured, ?_⟩
  rintro i hi ⟨hAbove, hBelow⟩
  rcases le_or_gt i now with hUpTo | hAfter
  · exact absurd (hGreatest i hi hUpTo) (not_le.mpr hAbove)
  · exact absurd (hLeast i hi hAfter) (not_le.mpr hBelow)

theorem exists_around {days : Nat} (hRecurs : Recurs fits days) (time : Nat) (hFirst : days < now.day)
    (hEnd : now.day + days ≤ maxOrdinal) :
    (∃ i, i ≤ now ∧ Configured fits time i) ∧ ∃ i, now < i ∧ Configured fits time i := by
  obtain ⟨before, hFrom, hTo, hBefore⟩ := hRecurs (now.day - days) (by omega) (by omega)
  obtain ⟨after, hFrom', hTo', hAfter⟩ := hRecurs (now.day + 1) (by omega) (by omega)
  constructor
  · refine ⟨combine before time, combine_le_iff.mpr (Or.inl (by omega)), ?_⟩
    exact ⟨by show 1 ≤ before; omega, by show before ≤ maxOrdinal; omega, hBefore, rfl⟩
  · refine ⟨combine after time, lt_combine_iff.mpr (Or.inl hFrom'), ?_⟩
    exact ⟨by show 1 ≤ after; omega, by show after ≤ maxOrdinal; omega, hAfter, rfl⟩

end Windows

/-! ## The days of a schedule -/

theorem recurs_onWeekday {cronDays : List String} (h : ∃ name ∈ dayNames, name ∈ cronDays) :
    Recurs (onWeekday cronDays) 7 := by
  obtain ⟨name, hName, hConfigured⟩ := h
  obtain ⟨j, hj⟩ := List.mem_iff_getElem?.mp hName
  have hLt : j < 7 := (List.getElem?_eq_some_iff.mp hj).1
  intro a _ _
  have hWeekday : (a + (j + 7 - (a + 6) % 7) % 7 + 6) % 7 = j := by omega
  refine ⟨a + (j + 7 - (a + 6) % 7) % 7, by omega, by omega, ?_⟩
  rw [onWeekday, hWeekday, hj, Option.any_some]
  exact decide_eq_true hConfigured

theorem exists_of_onWeekday {cronDays : List String} {day : Nat} (h : onWeekday cronDays day = true) :
    ∃ name ∈ dayNames, name ∈ cronDays := by
  rw [onWeekday, Option.any_eq_true] at h
  obtain ⟨name, hName, hConfigured⟩ := h
  exact ⟨name, List.mem_of_getElem? hName, of_decide_eq_true hConfigured⟩

theorem recurs_onDayOfMonth {allowed : List Nat} (h : ∃ day ∈ allowed, 1 ≤ day ∧ day ≤ 31) :
    Recurs (onDayOfMonth allowed) 62 := by
  obtain ⟨day, hDay, hFirst, hLast⟩ := h
  intro a hStart hEnd
  obtain ⟨n, hFrom, hTo, hn⟩ := exists_dayOfMonth hStart (by omega) hFirst hLast
  refine ⟨n, hFrom, by omega, ?_⟩
  rw [onDayOfMonth, hn]
  exact decide_eq_true hDay

theorem exists_of_onDayOfMonth {allowed : List Nat} {time : Nat} {i : Instant}
    (h : Configured (onDayOfMonth allowed) time i) : ∃ day ∈ allowed, 1 ≤ day ∧ day ≤ 31 :=
  ⟨_, of_decide_eq_true h.fits, dayOfMonth_bounds h.first h.last⟩

/-- The two windows of a schedule stand around the clock, with no instant of it between them, whenever
one that is not after the clock and one after it are in the range of dates. -/
theorem windows_bracket (time : Nat) (now : Instant) :
    (∀ cronDays, (∃ i, i ≤ now ∧ Configured (onWeekday cronDays) time i) →
        (∃ i, now < i ∧ Configured (onWeekday cronDays) time i) →
        ∃ last next, lastScheduledWindow cronDays time now = .ok (some last) ∧
          nextRunIst cronDays time now = .ok (some next) ∧
          Brackets (onWeekday cronDays) time now last next) ∧
      ∀ allowed, (∃ i, i ≤ now ∧ Configured (onDayOfMonth allowed) time i) →
        (∃ i, now < i ∧ Configured (onDayOfMonth allowed) time i) →
        ∃ last next, lastWindowDates allowed time now = .ok (some last) ∧
          nextRunIstDates allowed time now = .ok (some next) ∧
          Brackets (onDayOfMonth allowed) time now last next := by
  constructor
  · intro cronDays hLast hNext
    obtain ⟨i, hUpTo, hi⟩ := hLast
    exact exists_brackets (recurs_onWeekday (exists_of_onWeekday hi.fits)) ⟨i, hUpTo, hi⟩ hNext
  · intro allowed hLast hNext
    obtain ⟨i, hUpTo, hi⟩ := hLast
    have hDays := exists_of_onDayOfMonth hi
    have hne : allowed ≠ [] := by
      obtain ⟨day, hDay, -⟩ := hDays
      exact List.ne_nil_of_mem hDay
    rw [lastWindowDates, nextRunIstDates, if_neg hne, if_neg hne]
    exact exists_brackets (recurs_onDayOfMonth hDays) ⟨i, hUpTo, hi⟩ hNext

/-- Mondays, and the last days of the months that have 31. -/
theorem windows_bracket_monday :
    (∃ last next, lastScheduledWindow ["mon"] (timeOfDay 9 0) (combine 739000 0) = .ok (some last) ∧
        nextRunIst ["mon"] (timeOfDay 9 0) (combine 739000 0) = .ok (some next) ∧
        Brackets (onWeekday ["mon"]) (timeOfDay 9 0) (combine 739000 0) last next) ∧
      ∃ last next, lastWindowDates [31] (timeOfDay 9 0) (combine 739000 0) = .ok (some last) ∧
        nextRunIstDates [31] (timeOfDay 9 0) (combine 739000 0) = .ok (some next) ∧
        Brackets (onDayOfMonth [31]) (timeOfDay 9 0) (combine 739000 0) last next := by
  have hMondays : (∃ i, i ≤ combine 739000 0 ∧ Configured (onWeekday ["mon"]) (timeOfDay 9 0) i) ∧
      ∃ i, combine 739000 0 < i ∧ Configured (onWeekday ["mon"]) (timeOfDay 9 0) i :=
    exists_around (recurs_onWeekday (by decide)) _ (by decide) (by decide)
  have hLastDays : (∃ i, i ≤ combine 739000 0 ∧ Configured (onDayOfMonth [31]) (timeOfDay 9 0) i) ∧
      ∃ i, combine 739000 0 < i ∧ Configured (onDayOfMonth [31]) (timeOfDay 9 0) i :=
    exists_around (recurs_onDayOfMonth (by decide)) _ (by decide) (by decide)
  exact ⟨(windows_bracket (timeOfDay 9 0) (combine 739000 0)).1 ["mon"] hMondays.1 hMondays.2,
    (windows_bracket (timeOfDay 9 0) (combine 739000 0)).2 [31] hLastDays.1 hLastDays.2⟩

/-- After the last Friday of the range, in its last hours, the search runs out of it. -/
theorem nextRunIst_outOfRange :
    nextRunIst ["fri"] (timeOfDay 9 0) (combine maxOrdinal (timeOfDay 10 0)) = .error outOfRange ∧
      lastScheduledWindow ["fri"] (timeOfDay 9 0) (combine maxOrdinal (timeOfDay 10 0)) =
        .ok (some (combine maxOrdinal (timeOfDay 9 0))) := by
  decide +kernel

end AsetPlatform.Jobs.ScheduleWindows
