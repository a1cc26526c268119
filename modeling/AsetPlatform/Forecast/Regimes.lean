import Mathlib.Algebra.Order.Field.Basic

/-!
# Volatility regimes

`classify_regime` of `backend/tools/_forecast_regime.py`, and the transform that `get_regime_config`
gives a regime.
-/

set_option autoImplicit false

namespace AsetPlatform.Forecast

universe u

/-! The numerals of the thresholds in a field. -/

namespace Numerals

scoped instance two : Nat.AtLeastTwo 2 := ⟨by decide⟩

scoped instance three : Nat.AtLeastTwo 3 := ⟨by decide⟩

scoped instance five : Nat.AtLeastTwo 5 := ⟨by decide⟩

scoped instance eight : Nat.AtLeastTwo 8 := ⟨by decide⟩

scoped instance ten : Nat.AtLeastTwo 10 := ⟨by decide⟩

scoped instance fifteen : Nat.AtLeastTwo 15 := ⟨by decide⟩

scoped instance twentyFive : Nat.AtLeastTwo 25 := ⟨by decide⟩

scoped instance thirty : Nat.AtLeastTwo 30 := ⟨by decide⟩

scoped instance fortyFive : Nat.AtLeastTwo 45 := ⟨by decide⟩

scoped instance sixty : Nat.AtLeastTwo 60 := ⟨by decide⟩

scoped instance seventyFive : Nat.AtLeastTwo 75 := ⟨by decide⟩

scoped instance hundred : Nat.AtLeastTwo 100 := ⟨by decide⟩

end Numerals

open scoped Numerals

variable {K : Type u} [Field K] [LinearOrder K]

inductive Regime where
  | stable
  | moderate
  | volatile
  deriving DecidableEq

inductive Transform where
  | none
  | log
  deriving DecidableEq

/-- A float of a row of another table: absent, NaN, or a number. -/
inductive Reading (K : Type u) where
  | absent
  | nan
  | number (x : K)

/-- `x < y`, false when one is NaN. -/
def Reading.less : Reading K → Reading K → Bool
  | .number x, .number y => decide (x < y)
  | _, _ => false

/-- `classify_regime`. -/
def classifyRegime (annualizedVol : Reading K) : Regime :=
  match annualizedVol with
  | .absent => .moderate
  | vol =>
      if vol.less (.number 30) then .stable
      else if vol.less (.number 60) then .moderate
      else .volatile

/-- The transform of `get_regime_config`. -/
def Regime.transform : Regime → Transform
  | stable => .none
  | _ => .log

end AsetPlatform.Forecast
