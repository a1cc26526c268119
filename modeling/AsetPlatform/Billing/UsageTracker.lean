import AsetPlatform.Library.Dict
import AsetPlatform.Library.Months

/-!
# The usage tracker

`backend/usage_tracker.py` counts the chat turns of a user in the current month. The counter and its
month are columns of the user; the first increment or quota check of another month archives the old
count to `auth.usage_history` and resets the counter, and the two admin endpoints archive and reset
at any time. `_current_month` is the UTC month.

`_archive_usage` swallows what the append raises; an update of the user that raises ends the call.
`ResetIO` says how the two go.
-/

set_option autoImplicit false

namespace AsetPlatform.Billing.UsageTracker

open AsetPlatform.Library

/-- The columns of a user that the tracker reads. -/
structure UsageRow where
  subscriptionTier : Option String
  monthlyUsageCount : Option Nat
  usageMonth : Option String
  deriving DecidableEq

namespace UsageRow

/-- `user.get("monthly_usage_count") or 0`. -/
def count (row : UsageRow) : Nat := row.monthlyUsageCount.getD 0

/-- `user.get("usage_month") or ""`. -/
def month (row : UsageRow) : String := row.usageMonth.getD ""

/-- `user.get("subscription_tier") or "free"`. -/
def tier (row : UsageRow) : String :=
  if row.subscriptionTier.getD "" = "" then "free" else row.subscriptionTier.getD ""

def counting (row : UsageRow) (count : Nat) (month : String) : UsageRow :=
  { row with monthlyUsageCount := some count, usageMonth := some month }

@[simp]
theorem counting_count (row : UsageRow) (count : Nat) (month : String) :
    (row.counting count month).count = count := rfl

@[simp]
theorem counting_month (row : UsageRow) (count : Nat) (month : String) :
    (row.counting count month).month = month := rfl

end UsageRow

/-- A row of `auth.usage_history`. -/
structure HistoryRow where
  userId : String
  month : String
  usageCount : Nat
  tier : String
  archivedAt : Nat
  deriving DecidableEq

/-- The users and the archive. -/
structure Store where
  users : Dict String UsageRow
  history : List HistoryRow

/-- `_current_month`: the UTC month. -/
def currentMonth (now : Nat) : String := monthText (monthAt 0 now)

/-- How an archive and the update after it go, and when. -/
structure ResetIO where
  archived : Bool
  updated : Bool
  now : Nat

/-- The rows `_archive_usage` appends. -/
def archiveRows (userId month : String) (count : Nat) (tier : String) (io : ResetIO) :
    List HistoryRow :=
  if count = 0 ∨ io.archived = false then [] else [⟨userId, month, count, tier, io.now⟩]

namespace Store

variable (s : Store)

/-- `_archive_usage`. -/
def archiveUsage (userId month : String) (count : Nat) (tier : String) (io : ResetIO) : Store :=
  { s with history := s.history ++ archiveRows userId month count tier io }

/-- `repo.update` of the counter and its month. -/
def update (userId : String) (count : Nat) (month : String) : Store :=
  match s.users.get? userId with
  | none => s
  | some row => { s with users := s.users.set userId (row.counting count month) }

/-- `_maybe_reset`: the store, and the row unless the update raised. -/
def maybeReset (userId : String) (row : UsageRow) (month : String) (io : ResetIO) :
    Store × Option UsageRow :=
  if row.month = month then (s, some row)
  else
    let archived :=
      if row.month ≠ "" ∧ 0 < row.count then s.archiveUsage userId row.month row.count row.tier io
      else s
    if io.updated then (archived.update userId 0 month, some (row.counting 0 month))
    else (archived, none)

/-- `increment_usage`, with the times at which it reads the month, and whether its update takes
effect. It counts when the result says so. -/
def incrementUsage (userId : String) (checked written : Nat) (io : ResetIO) (stored : Bool) :
    Store × Bool :=
  match s.users.get? userId with
  | none => (s, false)
  | some row =>
      match s.maybeReset userId row (currentMonth checked) io with
      | (s, none) => (s, false)
      | (s, some row) =>
          -- the month is read again for the update
          if stored then (s.update userId (row.count + 1) (currentMonth written), true)
          else (s, false)

/-- `USAGE_QUOTAS.get(tier, 3)`. -/
def usageQuota (tier : String) : Nat :=
  if tier = "pro" then 30 else if tier = "premium" then 0 else 3

/-- `is_quota_exceeded`, which fails open. -/
def isQuotaExceeded (userId : String) (checked : Nat) (io : ResetIO) : Store × Bool :=
  if userId = "" then (s, false)
  else
    match s.users.get? userId with
    | none => (s, false)
    | some row =>
        match s.maybeReset userId row (currentMonth checked) io with
        | (s, none) => (s, false)
        | (s, some row) =>
            let quota := usageQuota row.tier
            (s, quota ≠ 0 && decide (quota ≤ row.count))

/-- The store after a user in the loop of a reset, and whether the user was reset; `none` when the
update raised. -/
def resetRow (userId : String) (row : UsageRow) (month : String) (io : ResetIO) :
    Store × Option Bool :=
  if 0 < row.count then
    let archived := s.archiveUsage userId (if row.month = "" then month else row.month) row.count
      row.tier io
    if io.updated then (archived.update userId 0 month, some true) else (archived, none)
  else (s, some false)

/-- `reset_user_usage`: the number of users reset, unless an update raised. -/
def resetUserUsage (s : Store) (month : String) : List (String × ResetIO) → Store × Option Nat
  | [] => (s, some 0)
  | (userId, io) :: rest =>
      match s.users.get? userId with
      | none => s.resetUserUsage month rest
      | some row =>
          match s.resetRow userId row month io with
          | (s, none) => (s, none)
          | (s, some reset) =>
              let (s, count) := s.resetUserUsage month rest
              (s, count.map (· + reset.toNat))

/-- The loop of `reset_monthly_usage` over the users it has listed. -/
def resetListed (s : Store) (month : String) (io : String → ResetIO) :
    List (String × UsageRow) → Store × Option Nat
  | [] => (s, some 0)
  | (userId, row) :: rest =>
      match s.resetRow userId row month (io userId) with
      | (s, none) => (s, none)
      | (s, some reset) =>
          let (s, count) := s.resetListed month io rest
          (s, count.map (· + reset.toNat))

/-- `reset_monthly_usage`. -/
def resetMonthlyUsage (month : String) (io : String → ResetIO) : Store × Option Nat :=
  s.resetListed month io s.users.entries

/-! ### What is left -/

variable {s}

@[simp]
theorem archiveUsage_users (userId month : String) (count : Nat) (tier : String) (io : ResetIO) :
    (s.archiveUsage userId month count tier io).users = s.users := rfl

theorem archiveUsage_zero (userId month tier : String) (io : ResetIO) :
    s.archiveUsage userId month 0 tier io = s := by
  simp only [archiveUsage, archiveRows, true_or, if_true, List.append_nil]

theorem update_history (userId : String) (count : Nat) (month : String) :
    (s.update userId count month).history = s.history := by
  simp only [update]
  split <;> rfl

theorem get?_update {userId : String} {row : UsageRow} (h : s.users.get? userId = some row)
    (count : Nat) (month key : String) :
    (s.update userId count month).users.get? key =
      if key = userId then some (row.counting count month) else s.users.get? key := by
  simp only [update, h, Dict.get?_set]

theorem get?_update_of_ne {userId key : String} (hKey : key ≠ userId) (count : Nat)
    (month : String) : (s.update userId count month).users.get? key = s.users.get? key := by
  simp only [update]
  split
  · rfl
  · rw [Dict.get?_set, if_neg hKey]

theorem get?_resetRow_of_ne {userId key : String} (hKey : key ≠ userId) (row : UsageRow)
    (month : String) (io : ResetIO) :
    (s.resetRow userId row month io).1.users.get? key = s.users.get? key := by
  simp only [resetRow]
  split
  · split
    · exact get?_update_of_ne hKey 0 month
    · rfl
  · rfl

/-- When no one else writes, the reset of all users is the reset of their ids. -/
theorem resetMonthlyUsage_eq (month : String) (io : String → ResetIO) :
    s.resetMonthlyUsage month io =
      s.resetUserUsage month (s.users.entries.map fun e => (e.1, io e.1)) := by
  have hLoop : ∀ (listed : List (String × UsageRow)) (s : Store),
      (listed.map Prod.fst).Nodup → (∀ e ∈ listed, s.users.get? e.1 = some e.2) →
      s.resetListed month io listed =
        s.resetUserUsage month (listed.map fun e => (e.1, io e.1)) := by
    intro listed
    -- the users still to come are as they were listed
    induction listed with
    | nil => intro s _ _; rfl
    | cons e rest ih =>
        intro s hNodup hCurrent
        obtain ⟨userId, row⟩ := e
        rw [List.map_cons, List.nodup_cons] at hNodup
        have hRow : s.users.get? userId = some row := hCurrent _ (List.mem_cons_self ..)
        have hRest : ∀ e ∈ rest,
            (s.resetRow userId row month (io userId)).1.users.get? e.1 = some e.2 := by
          intro e he
          have hNe : e.1 ≠ userId := by
            rintro rfl
            exact hNodup.1 (List.mem_map.mpr ⟨e, he, rfl⟩)
          rw [get?_resetRow_of_ne hNe]
          exact hCurrent e (List.mem_cons_of_mem _ he)
        simp only [List.map_cons, resetListed, resetUserUsage, hRow]
        cases hReset : s.resetRow userId row month (io userId) with
        | mk s' reset =>
            rw [hReset] at hRest
            cases reset with
            | none => rfl
            | some reset => simp only [ih s' hNodup.2 hRest]
  exact hLoop s.users.entries s s.users.nodup fun e he => Dict.get?_eq_some_iff.mpr he

end Store

end AsetPlatform.Billing.UsageTracker
