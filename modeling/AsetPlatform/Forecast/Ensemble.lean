import AsetPlatform.Forecast.Bands
import AsetPlatform.Forecast.Training

/-!
# The space of the residual correction

`ensemble_forecast` of `backend/tools/_forecast_ensemble.py` between `_train_prophet_model` and
`_generate_forecast`. At training the residual is the column `y` of the training frame less Prophet's
prediction for it; the correction is added to the forecast that `_generate_forecast` returns. What the
residual model predicts is an argument.

`exact_corrections_iff`: exact predictions of the residual give the observed prices, whatever these
turn out to be, exactly when the prices are not transformed and no forecast was clipped. In a log
regime the residual is a logarithm, and the forecast it is added to is a price.
-/

set_option autoImplicit false

namespace AsetPlatform.Forecast

universe u

section Residual

variable {K : Type u} [Field K] [LinearOrder K]

/-- The column `residual` of the training frame. -/
def trainResiduals (train : TrainFrame K) (inSample : List K) : List K :=
  List.zipWith (fun y yhat => y - yhat) train.y inSample

/-- The residual of a price, as it is defined at training. -/
def residual (log : K → K) (transform : Transform) (price yhat : K) : K :=
  trainY log transform price - yhat

/-- The correction of each future row is the residual of the price observed there. -/
def ExactCorrection (log : K → K) (transform : Transform) (prophet : List (Band K))
    (observed correction : Nat → K) : Prop :=
  ∀ (i : Nat) (b : Band K), prophet[i]? = some b →
    correction i = residual log transform (observed i) b.yhat

/-- The corrected forecast is the observed price in each row. -/
def Hits (exp log : K → K) (transform : Transform) (lastY : K) (prophet : List (Band K))
    (observed correction : Nat → K) : Prop :=
  ∀ (i : Nat) (b : Band K),
    (ensembleForecast correction (generateForecast exp log transform lastY prophet))[i]? = some b →
      b.yhat = observed i

theorem trainResiduals_eq (log : ℝ → ℝ) (prices inSample : List ℝ) (regime : Regime) :
    trainResiduals (trainProphetModel log prices regime).2 inSample =
      List.zipWith (residual log regime.transform) prices inSample := by
  simp only [trainResiduals, trainProphetModel, getRegimeConfig_midpoint, List.zipWith_map_left]
  rfl

/-- The rows of a corrected forecast. -/
theorem getElem?_ensembleForecast (exp log : K → K) (transform : Transform) (lastY : K)
    (correction : Nat → K) (prophet : List (Band K)) (i : Nat) :
    (ensembleForecast correction (generateForecast exp log transform lastY prophet))[i]? =
      prophet[i]?.map fun b =>
        (b.map (priceOf exp log transform lastY)).map (· + correction i) := by
  rw [ensembleForecast, generateForecast, List.getElem?_mapIdx, List.getElem?_map, Option.map_map]
  rfl

/-- A correction hits where each generated forecast and its residual add up to the price. -/
theorem hits_iff (exp log : K → K) (transform : Transform) (lastY : K) (prophet : List (Band K))
    (observed correction : Nat → K) (h : ExactCorrection log transform prophet observed correction) :
    Hits exp log transform lastY prophet observed correction ↔
      ∀ (i : Nat) (b : Band K), prophet[i]? = some b →
        priceOf exp log transform lastY b.yhat + residual log transform (observed i) b.yhat =
          observed i := by
  constructor
  · intro hHits i b hb
    rw [← h i b hb]
    exact hHits i _ (by rw [getElem?_ensembleForecast, hb]; rfl)
  · intro hSums i b hb
    rw [getElem?_ensembleForecast, Option.map_eq_some_iff] at hb
    obtain ⟨row, hRow, rfl⟩ := hb
    have hSum := hSums i row hRow
    rw [← h i row hRow] at hSum
    exact hSum

end Residual

/-- A forecast as generated, and its exact residual, add up to every price exactly when nothing is
transformed or clipped. -/
theorem priceOf_add_residual_iff (transform : Transform) (lastY x : ℝ) :
    (∀ p : ℝ, 0 < p →
        priceOf Real.exp Real.log transform lastY x + residual Real.log transform p x = p) ↔
      transform = .none ∧ 1 / 100 ≤ x := by
  cases transform with
  | none =>
      constructor
      · intro hSums
        have hOne := hSums 1 one_pos
        simp only [priceOf, residual, trainY] at hOne
        have hMax : max x (1 / 100) = x := by linarith
        exact ⟨rfl, max_eq_left_iff.mp hMax⟩
      · rintro ⟨-, hCent⟩ p -
        simp only [priceOf, residual, trainY, max_eq_left hCent]
        ring
  | log =>
      refine iff_of_false (fun hSums => ?_) fun hNone => by cases hNone.1
      -- Between 1 and e the logarithm grows by 1, and the price by more.
      have hOne := hSums 1 one_pos
      have hE := hSums (Real.exp 1) (Real.exp_pos 1)
      have hCent : (1 : ℝ) / 100 ≤ 1 := by norm_num
      have hGrows : (2 : ℝ) < Real.exp 1 := by
        linarith [Real.add_one_lt_exp one_ne_zero]
      simp only [residual, trainY, max_eq_left hCent, Real.log_one] at hOne
      simp only [residual, trainY, max_eq_left (show (1 : ℝ) / 100 ≤ Real.exp 1 by linarith),
        Real.log_exp] at hE
      linarith

/-- Exact residuals give the observed prices, whatever these are, exactly when nothing is transformed
and no forecast is clipped. -/
theorem exact_corrections_iff (regime : Regime) (lastY : ℝ) (prophet : List (Band ℝ)) :
    (∀ observed correction : Nat → ℝ, (∀ i, 0 < observed i) →
        ExactCorrection Real.log regime.transform prophet observed correction →
          Hits Real.exp Real.log regime.transform lastY prophet observed correction) ↔
      ∀ b ∈ prophet, regime.transform = .none ∧ 1 / 100 ≤ b.yhat := by
  constructor
  · intro h b hb
    refine (priceOf_add_residual_iff regime.transform lastY b.yhat).mp fun p hp => ?_
    have hExact : ExactCorrection Real.log regime.transform prophet (fun _ => p)
        (fun j => prophet[j]?.elim 0 fun row => residual Real.log regime.transform p row.yhat) := by
      intro j row hRow
      dsimp only
      rw [hRow, Option.elim_some]
    obtain ⟨i, hi, rfl⟩ := List.mem_iff_getElem.mp hb
    exact (hits_iff _ _ _ lastY prophet _ _ hExact).mp (h _ _ (fun _ => hp) hExact) i _
      (List.getElem?_eq_getElem hi)
  · intro h observed correction hPos hExact
    refine (hits_iff _ _ _ lastY prophet _ _ hExact).mpr fun i b hb => ?_
    exact (priceOf_add_residual_iff regime.transform lastY b.yhat).mpr
      (h b (List.mem_of_getElem? hb)) (observed i) (hPos i)

/-- A stock forecast at 100 and observed at 110: the residual is log 1.1, and the corrected forecast
is less than 100.1. -/
theorem log_residual_misses :
    ¬Hits Real.exp Real.log Regime.moderate.transform 100
      [⟨Real.log 100, Real.log 90, Real.log 120⟩] (fun _ => 110)
      (fun _ => residual Real.log Regime.moderate.transform 110 (Real.log 100)) := by
  intro hHits
  have hExact : ExactCorrection Real.log Regime.moderate.transform
      [⟨Real.log 100, Real.log 90, Real.log 120⟩] (fun _ => 110)
      (fun _ => residual Real.log Regime.moderate.transform 110 (Real.log 100)) := by
    intro i b hb
    obtain rfl := List.mem_singleton.mp (List.mem_of_getElem? hb)
    rfl
  have hSum := (hits_iff _ _ _ _ _ _ _ hExact).mp hHits 0 _ rfl
  have hLog : Real.log 110 - Real.log 100 = Real.log (11 / 10) := by
    rw [← Real.log_div (by norm_num) (by norm_num)]
    norm_num
  have hSmall : Real.log (11 / 10) ≤ 11 / 10 - 1 := Real.log_le_sub_one_of_pos (by norm_num)
  have hPrice : priceOf Real.exp Real.log Regime.moderate.transform 100 (Real.log 100) = 100 := by
    have hMax : max (100 : ℝ) (1 / 100) = 100 := max_eq_left (by norm_num)
    have hClip : clip (Real.log 100 - 3 / 2) (Real.log 100 + 3 / 2) (Real.log 100) = Real.log 100 := by
      rw [clip, max_eq_left (by linarith), min_eq_left (by linarith)]
    simp only [Regime.transform, priceOf, hMax, hClip]
    rw [Real.exp_log (by norm_num), hMax]
  have hMax : max (110 : ℝ) (1 / 100) = 110 := max_eq_left (by norm_num)
  rw [hPrice] at hSum
  simp only [residual, Regime.transform, trainY, hMax, hLog] at hSum
  linarith

end AsetPlatform.Forecast
