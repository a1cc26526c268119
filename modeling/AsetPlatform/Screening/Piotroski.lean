import Mathlib.Tactic.FieldSimp
import Mathlib.Tactic.Linarith

/-!
# The Piotroski score

`compute_piotroski` of `backend/pipeline/screener/piotroski.py`: nine criteria on the figures of two
years. A missing figure counts as 0, and a ratio over 0 is `None`. Figures are exact rationals.

The score has no unit (`computePiotroski_scale`): all amounts of money of both years may be given in
another currency, and all share counts in another lot.
-/

set_option autoImplicit false

namespace AsetPlatform.Screening

/-! ## Figures -/

/-- What `.get` returns from the dict of a year: `None` for an absent key too. -/
inductive Figure where
  | none
  | nan
  | number (x : ℚ)
  deriving DecidableEq

/-- `_safe` -/
def safe : Figure → ℚ
  | .number x => x
  | _ => 0

/-- `_ratio` -/
def ratio (num den : ℚ) : Option ℚ := if den = 0 then none else some (num / den)

/-- The dict of a year. -/
structure Year where
  netIncome : Figure
  totalAssets : Figure
  operatingCashflow : Figure
  totalDebt : Figure
  currentAssets : Figure
  currentLiabilities : Figure
  sharesOutstanding : Figure
  grossProfit : Figure
  revenue : Figure
  deriving DecidableEq

/-! ## The score -/

structure PiotroskiResult where
  totalScore : Nat
  roaPositive : Bool
  operatingCfPositive : Bool
  roaIncreasing : Bool
  cfGtNetIncome : Bool
  leverageDecreasing : Bool
  currentRatioIncreasing : Bool
  noDilution : Bool
  grossMarginIncreasing : Bool
  assetTurnoverIncreasing : Bool
  deriving DecidableEq

def PiotroskiResult.label (r : PiotroskiResult) : String :=
  if 8 ≤ r.totalScore then "Strong" else if 5 ≤ r.totalScore then "Moderate" else "Weak"

/-- The nine criteria, with their sum. -/
def PiotroskiResult.ofCriteria (roaPositive operatingCfPositive roaIncreasing cfGtNetIncome
    leverageDecreasing currentRatioIncreasing noDilution grossMarginIncreasing
    assetTurnoverIncreasing : Bool) : PiotroskiResult :=
  let criteria := [roaPositive, operatingCfPositive, roaIncreasing, cfGtNetIncome, leverageDecreasing,
    currentRatioIncreasing, noDilution, grossMarginIncreasing, assetTurnoverIncreasing]
  { totalScore := (criteria.map Bool.toNat).sum
    roaPositive, operatingCfPositive, roaIncreasing, cfGtNetIncome, leverageDecreasing,
    currentRatioIncreasing, noDilution, grossMarginIncreasing, assetTurnoverIncreasing }

/-- Neither ratio is `None`, and the first is greater. -/
def rises (x y : Option ℚ) : Bool :=
  match x, y with
  | some x, some y => decide (y < x)
  | _, _ => false

/-- `compute_piotroski` -/
def computePiotroski (current previous : Year) : PiotroskiResult :=
  let ni := safe current.netIncome
  let ta := safe current.totalAssets
  let ocf := safe current.operatingCashflow
  let td := safe current.totalDebt
  let ca := safe current.currentAssets
  let cl := safe current.currentLiabilities
  let so := safe current.sharesOutstanding
  let gp := safe current.grossProfit
  let rev := safe current.revenue
  let niP := safe previous.netIncome
  let taP := safe previous.totalAssets
  let tdP := safe previous.totalDebt
  let caP := safe previous.currentAssets
  let clP := safe previous.currentLiabilities
  let soP := safe previous.sharesOutstanding
  let gpP := safe previous.grossProfit
  let revP := safe previous.revenue
  .ofCriteria
    -- profitability
    (decide (0 < (ratio ni ta).getD 0))
    (decide (0 < ocf))
    (rises (ratio ni ta) (ratio niP taP))
    (decide (ni < ocf))
    -- leverage and liquidity
    (rises (ratio tdP taP) (ratio td ta))
    (rises (ratio ca cl) (ratio caP clP))
    (decide (so ≤ soP) && (decide (0 < so) || decide (0 < soP)))
    -- operating efficiency
    (rises (ratio gp rev) (ratio gpP revP))
    (rises (ratio rev ta) (ratio revP taP))

theorem rises_ratio_iff {num den num' den' : ℚ} :
    rises (ratio num den) (ratio num' den') = true ↔
      den ≠ 0 ∧ den' ≠ 0 ∧ num' / den' < num / den := by
  rw [ratio, ratio]
  by_cases hDen : den = 0
  · simp [hDen, rises]
  · by_cases hDen' : den' = 0
    · simp [hDen, hDen', rises]
    · simp [hDen, hDen', rises]

theorem getD_ratio_pos_iff {num den : ℚ} : 0 < (ratio num den).getD 0 ↔ 0 < num / den := by
  rw [ratio]
  by_cases hDen : den = 0
  · simp [hDen]
  · simp [hDen]

/-! ## Units -/

/-- A figure in another unit; a missing one stays missing. -/
def Figure.scale (c : ℚ) : Figure → Figure
  | .number x => .number (c * x)
  | x => x

/-- All amounts of money of a year in another unit. -/
def Year.scaleMoney (c : ℚ) (y : Year) : Year where
  netIncome := y.netIncome.scale c
  totalAssets := y.totalAssets.scale c
  operatingCashflow := y.operatingCashflow.scale c
  totalDebt := y.totalDebt.scale c
  currentAssets := y.currentAssets.scale c
  currentLiabilities := y.currentLiabilities.scale c
  sharesOutstanding := y.sharesOutstanding
  grossProfit := y.grossProfit.scale c
  revenue := y.revenue.scale c

/-- The share count of a year in another unit. -/
def Year.scaleShares (c : ℚ) (y : Year) : Year :=
  { y with sharesOutstanding := y.sharesOutstanding.scale c }

section Scale

variable {c : ℚ}

theorem safe_scale (c : ℚ) (x : Figure) : safe (x.scale c) = c * safe x := by
  cases x with
  | none => exact (mul_zero c).symm
  | nan => exact (mul_zero c).symm
  | number x => rfl

theorem ratio_scale (hc : 0 < c) (num den : ℚ) : ratio (c * num) (c * den) = ratio num den := by
  rw [ratio, ratio, mul_div_mul_left _ _ hc.ne']
  refine if_congr ?_ rfl rfl
  rw [mul_eq_zero]
  exact or_iff_right hc.ne'

theorem decide_lt_scale (hc : 0 < c) (x y : ℚ) : decide (c * x < c * y) = decide (x < y) :=
  decide_eq_decide.mpr (mul_lt_mul_iff_right₀ hc)

theorem decide_le_scale (hc : 0 < c) (x y : ℚ) : decide (c * x ≤ c * y) = decide (x ≤ y) :=
  decide_eq_decide.mpr (mul_le_mul_iff_right₀ hc)

theorem decide_pos_scale (hc : 0 < c) (x : ℚ) : decide (0 < c * x) = decide (0 < x) :=
  decide_eq_decide.mpr (mul_pos_iff_of_pos_left hc)

theorem computePiotroski_scaleMoney (hc : 0 < c) (current previous : Year) :
    computePiotroski (current.scaleMoney c) (previous.scaleMoney c) =
      computePiotroski current previous := by
  simp only [computePiotroski, Year.scaleMoney, safe_scale, ratio_scale hc]
  congr 1
  · exact decide_pos_scale hc _
  · exact decide_lt_scale hc _ _

theorem computePiotroski_scaleShares (hc : 0 < c) (current previous : Year) :
    computePiotroski (current.scaleShares c) (previous.scaleShares c) =
      computePiotroski current previous := by
  simp only [computePiotroski, Year.scaleShares, safe_scale]
  congr 1
  rw [decide_le_scale hc, decide_pos_scale hc, decide_pos_scale hc]

end Scale

/-- Neither the unit of money nor that of shares matters, to any criterion or to the score. -/
theorem computePiotroski_scale {c : ℚ} (hc : 0 < c) (current previous : Year) :
    computePiotroski (current.scaleMoney c) (previous.scaleMoney c) =
        computePiotroski current previous ∧
      computePiotroski (current.scaleShares c) (previous.scaleShares c) =
        computePiotroski current previous :=
  ⟨computePiotroski_scaleMoney hc current previous, computePiotroski_scaleShares hc current previous⟩

/-- A year whose debt is unknown. -/
def sampleYear : Year :=
  ⟨.number 10, .number 100, .number 15, .nan, .number 40, .number 20, .number 7, .number 30, .number 60⟩

theorem sampleYear_in_thousands :
    computePiotroski (sampleYear.scaleMoney (1 / 1000)) (sampleYear.scaleMoney (1 / 1000)) =
      computePiotroski sampleYear sampleYear :=
  (computePiotroski_scale (by norm_num) sampleYear sampleYear).1

end AsetPlatform.Screening
