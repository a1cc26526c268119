import AsetPlatform.Library.Falls
import AsetPlatform.Portfolio.Performance

/-!
# Daily profit and drawdown

The daily profits of a sequence of days add up, over any interval, to the change of what the value is
above the invested amount, whatever capital is added; the drawdown is the largest fall of the gain in
percent (`pnl_and_drawdown`).
-/

set_option autoImplicit false

namespace AsetPlatform.Portfolio.Performance

open AsetPlatform.Library

/-! ## Profits -/

/-- What the value of a day is above the invested amount. -/
def Day.net (day : Day) : ℚ := day.value - day.invested

/-- The sum of the daily profits after `i`, up to `j`. -/
def pnlBetween (points : List DailyPoint) (i j : ℕ) : ℚ :=
  (((points.take (j + 1)).drop (i + 1)).map DailyPoint.dailyPnl).sum

theorem sum_pointsAfter (prev : Day) (days : List Day) (j : Fin (prev :: days).length) :
    (((pointsAfter .exact prev days).take j).map DailyPoint.dailyPnl).sum =
      ((prev :: days).get j).net - prev.net := by
  induction days generalizing prev with
  | nil =>
      have hFirst : j = ⟨0, Nat.zero_lt_one⟩ := Subsingleton.elim (α := Fin 1) j _
      subst hFirst
      exact (sub_self prev.net).symm
  | cons day rest ih =>
      cases j using Fin.cases with
      | zero => exact (sub_self prev.net).symm
      | succ j =>
          rw [pointsAfter, Fin.val_succ, List.take_succ_cons, List.map_cons, List.sum_cons, ih day j,
            List.get_cons_succ']
          simp only [Rounding.exact, id, Day.net]
          abel

theorem sum_take_dailyPoints (days : List Day) (j : Fin days.length) :
    (((dailyPoints .exact days).take (j + 1)).map DailyPoint.dailyPnl).sum =
      (days.get j).net - (days.get ⟨0, j.pos⟩).net := by
  cases days with
  | nil => exact j.elim0
  | cons day rest =>
      rw [dailyPoints, List.take_succ_cons, List.map_cons, List.sum_cons, zero_add, sum_pointsAfter]
      rfl

theorem pnlBetween_eq (days : List Day) {i j : Fin days.length} (h : i ≤ j) :
    pnlBetween (dailyPoints .exact days) i j = (days.get j).net - (days.get i).net := by
  have hSplit :=
    List.sum_take_add_sum_drop
      (((dailyPoints .exact days).take (j + 1)).map DailyPoint.dailyPnl) (i + 1)
  have hMin : min (i + 1 : ℕ) (j + 1) = i + 1 := min_eq_left (Nat.succ_le_succ h)
  rw [← List.map_take, ← List.map_drop, List.take_take, hMin, sum_take_dailyPoints,
    sum_take_dailyPoints] at hSplit
  rw [pnlBetween, ← add_right_inj, hSplit]
  abel

/-! ## Drawdown -/

theorem isLeast_drawdownLoop (days : List Day) (peak least : ℚ) :
    IsLeast (fallsFrom peak least (days.map gainPct)) (drawdownLoop days (some peak) least) := by
  induction days generalizing peak least with
  | nil => exact isLeast_fallsFrom_nil peak least
  | cons day rest ih =>
      rw [List.map_cons, drawdownLoop]
      apply isLeast_fallsFrom_cons
      rw [min_comm, min_def_lt, max_def_lt]
      exact ih _ _

theorem isLeast_drawdown {days : List Day} (h : days ≠ []) :
    IsLeast (falls (days.map gainPct)) (drawdownLoop days none 0) := by
  cases days with
  | nil => exact absurd rfl h
  | cons day rest =>
      rw [List.map_cons, ← fallsFrom_self, drawdownLoop]
      simp only [sub_self, lt_irrefl, if_false]
      exact isLeast_drawdownLoop rest (gainPct day) 0

/-- The daily profits of an interval add up to the change of value above what is invested, and the
reported drawdown is the least difference of the gain in percent to a day that is not later. -/
theorem pnl_and_drawdown {days : List Day} (h : days ≠ []) :
    (∀ i j : Fin days.length, i ≤ j →
        pnlBetween (dailyPoints .exact days) i j =
          ((days.get j).value - (days.get j).invested) -
            ((days.get i).value - (days.get i).invested)) ∧
      IsLeast
        {x | ∃ i j : Fin days.length, i ≤ j ∧ x = gainPct (days.get j) - gainPct (days.get i)}
        (metricsOf .exact days (dailyPoints .exact days)).maxDrawdownPct := by
  refine ⟨fun i j hLe => pnlBetween_eq days hLe, ?_⟩
  have hFalls : {x | ∃ i j : Fin days.length, i ≤ j ∧ x = gainPct (days.get j) - gainPct (days.get i)} =
      falls (days.map gainPct) := by
    ext x
    rw [mem_falls_map_iff]
    rfl
  rw [hFalls]
  exact isLeast_drawdown h

/-- With 50 added on the second day, 20 above what is invested become 30, a profit of 10. -/
theorem pnl_of_addition :
    pnlBetween (dailyPoints .exact [⟨1, 120, 100⟩, ⟨2, 180, 150⟩]) 0 1 = (180 - 150) - (120 - 100) :=
  (pnl_and_drawdown (List.cons_ne_nil ⟨1, 120, 100⟩ [⟨2, 180, 150⟩])).1 0 1 (Fin.zero_le 1)

end AsetPlatform.Portfolio.Performance
