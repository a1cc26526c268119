import AsetPlatform.Forecast.Regimes
import Mathlib.Analysis.SpecialFunctions.Log.Basic

/-!
# The frames of training and prediction

`_train_prophet_model` and the future frame of `_generate_forecast`, both of
`backend/tools/_forecast_model.py`, as far as the columns `y`, `cap` and `floor` go, with
`get_regime_config` and `compute_logistic_bounds` of `_forecast_regime.py`. Both functions are given
the frame of raw prices. `exp` and `log` are those of NumPy.

`bounds_agree_iff`: the bounds of the future frame are those the model was fitted with exactly when
growth is linear, or no price of the last two years is above `log (1 / 150)`, which is below zero. The
prediction raises the prices to powers of e, as if they had been logarithms.
-/

set_option autoImplicit false

namespace AsetPlatform.Forecast

open scoped Numerals

universe u

/-! ## Regimes -/

inductive Growth where
  | linear
  | logistic
  deriving DecidableEq

/-- The growth that `_REGIME_CONFIG` gives a regime. -/
def Regime.growth : Regime → Growth
  | volatile => .logistic
  | _ => .linear

structure RegimeConfig where
  regime : Regime
  growth : Growth
  transform : Transform
  deriving DecidableEq

section Frames

variable {K : Type u} [Field K] [LinearOrder K]

/-- `get_regime_config` -/
def getRegimeConfig (annualizedVol : Reading K) : RegimeConfig where
  regime := classifyRegime annualizedVol
  growth := (classifyRegime annualizedVol).growth
  transform := (classifyRegime annualizedVol).transform

/-- The volatility that stands for a regime. -/
def Regime.midpoint : Regime → Reading K
  | stable => .number 15
  | moderate => .number 45
  | volatile => .number 75

/-! ## Bounds -/

/-- `cap` and `floor`, `none` for NaN. -/
@[ext]
structure Bounds (K : Type u) where
  cap : Option K
  floor : Option K

def twoYearDays : Nat := 504

def oneYearDays : Nat := 252

/-- `iloc[-n:]` -/
def lastRows (n : Nat) (xs : List K) : List K := xs.drop (xs.length - n)

/-- `compute_logistic_bounds` -/
def computeLogisticBounds (high low : List K) : Bounds K where
  cap := (lastRows twoYearDays high).max?.map (· * (3 / 2))
  floor := (lastRows oneYearDays low).min?.map (· * (3 / 10))

/-- A column of prices in the space of the model. -/
def Bounds.inSpace (log : K → K) (b : Bounds K) : Transform → Bounds K
  | .log => ⟨b.cap.map fun x => log (max x (1 / 100)), b.floor.map fun x => log (max x (1 / 100))⟩
  | .none => b

/-! ## Frames -/

/-- The training frame: the column `y`, and the columns `cap` and `floor` where it has them. -/
structure TrainFrame (K : Type u) where
  y : List K
  bounds : Option (Bounds K)

/-- What `_train_prophet_model` leaves on the model. -/
structure RegimeTags where
  transform : Transform
  growth : Growth

/-- `y` of the training frame, of a price. -/
def trainY (log : K → K) (transform : Transform) (price : K) : K :=
  match transform with
  | .log => log (max price (1 / 100))
  | .none => price

/-- `_train_prophet_model`, of the prices in the order of their days. -/
def trainProphetModel (log : K → K) (prices : List K) (regime : Regime) : RegimeTags × TrainFrame K :=
  let rcfg := getRegimeConfig (regime.midpoint : Reading K)
  let bounds :=
    match rcfg.growth with
    | .logistic => some ((computeLogisticBounds prices prices).inSpace log rcfg.transform)
    | .linear => none
  (⟨rcfg.transform, rcfg.growth⟩, ⟨prices.map (trainY log rcfg.transform), bounds⟩)

/-- The bounds of the future frame of `_generate_forecast`. -/
def futureBounds (exp log : K → K) (model : RegimeTags) (prices : List K) : Option (Bounds K) :=
  match model.growth with
  | .logistic =>
      let rawY := match model.transform with
        -- The prices are taken for logarithms here.
        | .log => prices.map exp
        | .none => prices
      some ((computeLogisticBounds rawY rawY).inSpace log model.transform)
  | .linear => none

end Frames

/-! ## Agreement -/

theorem getRegimeConfig_midpoint (regime : Regime) :
    getRegimeConfig (regime.midpoint : Reading ℝ) = ⟨regime, regime.growth, regime.transform⟩ := by
  have hClass : classifyRegime (regime.midpoint : Reading ℝ) = regime := by
    cases regime with
    | stable =>
        have hBelow : (15 : ℝ) < 30 := by norm_num
        simp [classifyRegime, Regime.midpoint, Reading.less, hBelow]
    | moderate =>
        have hAbove : ¬(45 : ℝ) < 30 := by norm_num
        have hBelow : (45 : ℝ) < 60 := by norm_num
        simp [classifyRegime, Regime.midpoint, Reading.less, hAbove, hBelow]
    | volatile =>
        have hAbove : ¬(75 : ℝ) < 30 := by norm_num
        have hAbove' : ¬(75 : ℝ) < 60 := by norm_num
        simp [classifyRegime, Regime.midpoint, Reading.less, hAbove, hAbove']
  rw [getRegimeConfig, hClass]

/-- Two bounds that are clipped to a cent agree only below it. -/
theorem log_max_exp_iff (x : ℝ) {c : ℝ} (hc : 0 < c) :
    Real.log (max (Real.exp x * c) (1 / 100)) = Real.log (max (x * c) (1 / 100)) ↔
      Real.exp x * c ≤ 1 / 100 := by
  have hCent : (0 : ℝ) < 1 / 100 := by norm_num
  have hLess : x * c < Real.exp x * c :=
    mul_lt_mul_of_pos_right (by linarith [Real.add_one_le_exp x]) hc
  rw [Real.log_injOn_pos.eq_iff (hCent.trans_le (le_max_right _ _))
    (hCent.trans_le (le_max_right _ _))]
  constructor
  · intro hSame
    by_contra hAbove
    rw [max_eq_left (not_le.mp hAbove).le] at hSame
    rcases max_choice (x * c) (1 / 100) with hLeft | hRight
    · exact hLess.ne' (hSame.trans hLeft)
    · exact hAbove (hSame.trans hRight).le
  · intro hBelow
    rw [max_eq_right hBelow, max_eq_right (hLess.le.trans hBelow)]

theorem lastRows_map {K : Type u} (f : K → K) (n : Nat) (xs : List K) :
    lastRows n (xs.map f) = (lastRows n xs).map f := by
  rw [lastRows, lastRows, List.length_map, List.map_drop]

theorem max?_map {f : ℝ → ℝ} (hf : Monotone f) (xs : List ℝ) : (xs.map f).max? = xs.max?.map f := by
  cases hMax : xs.max? with
  | none => rw [List.max?_eq_none_iff.mp hMax, List.map_nil, List.max?_nil, Option.map_none]
  | some m =>
      obtain ⟨hMem, hLe⟩ := List.max?_eq_some_iff.mp hMax
      refine List.max?_eq_some_iff.mpr ⟨List.mem_map_of_mem hMem, fun y hy => ?_⟩
      obtain ⟨x, hx, rfl⟩ := List.mem_map.mp hy
      exact hf (hLe x hx)

theorem min?_map {f : ℝ → ℝ} (hf : Monotone f) (xs : List ℝ) : (xs.map f).min? = xs.min?.map f := by
  cases hMin : xs.min? with
  | none => rw [List.min?_eq_none_iff.mp hMin, List.map_nil, List.min?_nil, Option.map_none]
  | some m =>
      obtain ⟨hMem, hLe⟩ := List.min?_eq_some_iff.mp hMin
      refine List.min?_eq_some_iff.mpr ⟨List.mem_map_of_mem hMem, fun y hy => ?_⟩
      obtain ⟨x, hx, rfl⟩ := List.mem_map.mp hy
      exact hf (hLe x hx)

theorem mem_lastRows_twoYearDays {xs : List ℝ} {x : ℝ} (h : x ∈ lastRows oneYearDays xs) :
    x ∈ lastRows twoYearDays xs := by
  have hLe : xs.length - twoYearDays ≤ xs.length - oneYearDays :=
    Nat.sub_le_sub_left (by decide) xs.length
  exact (List.drop_sublist_drop_left xs hLe).subset h

theorem exp_le_iff {x : ℝ} : Real.exp x * (3 / 2) ≤ 1 / 100 ↔ x ≤ Real.log (1 / 150) := by
  rw [← le_div_iff₀ (by norm_num), Real.le_log_iff_exp_le (by norm_num)]
  norm_num

/-- The caps agree when no price of the last two years counts as a logarithm of a cent. -/
theorem cap_agree_iff (prices : List ℝ) :
    ((computeLogisticBounds (prices.map Real.exp) (prices.map Real.exp)).inSpace Real.log .log).cap =
        ((computeLogisticBounds prices prices).inSpace Real.log .log).cap ↔
      ∀ y ∈ lastRows twoYearDays prices, y ≤ Real.log (1 / 150) := by
  simp only [computeLogisticBounds, Bounds.inSpace, lastRows_map, max?_map Real.exp_monotone]
  cases hMax : (lastRows twoYearDays prices).max? with
  | none =>
      rw [List.max?_eq_none_iff.mp hMax]
      simp
  | some m =>
      obtain ⟨hMem, hLe⟩ := List.max?_eq_some_iff.mp hMax
      simp only [Option.map_some, Option.some.injEq]
      rw [log_max_exp_iff m (by norm_num), exp_le_iff]
      exact ⟨fun hTop y hy => (hLe y hy).trans hTop, fun hAll => hAll m hMem⟩

theorem floor_agree {prices : List ℝ}
    (h : ∀ y ∈ lastRows twoYearDays prices, y ≤ Real.log (1 / 150)) :
    ((computeLogisticBounds (prices.map Real.exp) (prices.map Real.exp)).inSpace Real.log .log).floor =
      ((computeLogisticBounds prices prices).inSpace Real.log .log).floor := by
  simp only [computeLogisticBounds, Bounds.inSpace, lastRows_map, min?_map Real.exp_monotone]
  cases hMin : (lastRows oneYearDays prices).min? with
  | none => rfl
  | some m =>
      have hLow := exp_le_iff.mpr (h m (mem_lastRows_twoYearDays (List.min?_mem hMin)))
      have hPos := Real.exp_pos m
      simp only [Option.map_some, Option.some.injEq]
      rw [log_max_exp_iff m (by norm_num)]
      linarith

/-- The bounds of the two frames are the same exactly when growth is linear, or no price of the last
two years is above the logarithm of 1 / 150. -/
theorem bounds_agree_iff (regime : Regime) (prices : List ℝ) :
    futureBounds Real.exp Real.log (trainProphetModel Real.log prices regime).1 prices =
        (trainProphetModel Real.log prices regime).2.bounds ↔
      (regime.growth = .logistic → ∀ y ∈ lastRows twoYearDays prices, y ≤ Real.log (1 / 150)) := by
  simp only [futureBounds, trainProphetModel, getRegimeConfig_midpoint]
  cases regime with
  | stable => exact iff_of_true rfl fun hGrowth => by cases hGrowth
  | moderate => exact iff_of_true rfl fun hGrowth => by cases hGrowth
  | volatile =>
      rw [← cap_agree_iff]
      constructor
      · intro hSame _
        exact congrArg Bounds.cap (Option.some.inj hSame)
      · intro hCap
        have hFloor := floor_agree ((cap_agree_iff prices).mp (hCap rfl))
        exact congrArg some (Bounds.ext (hCap rfl) hFloor)

/-- A volatile stock at 100: the caps are the logarithms of 150 and of 1.5 times a power of e. -/
theorem volatile_caps_differ :
    futureBounds Real.exp Real.log (trainProphetModel Real.log [90, 100] .volatile).1 [90, 100] ≠
      (trainProphetModel Real.log [90, 100] .volatile).2.bounds := by
  simp only [futureBounds, trainProphetModel, getRegimeConfig_midpoint]
  intro hSame
  have hCap := (cap_agree_iff [90, 100]).mp (congrArg Bounds.cap (Option.some.inj hSame)) 100 (by
    simp [lastRows, twoYearDays])
  have hNeg : Real.log (1 / 150) < 0 := Real.log_neg (by norm_num) (by norm_num)
  linarith

end AsetPlatform.Forecast
