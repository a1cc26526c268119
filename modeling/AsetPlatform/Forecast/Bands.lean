import AsetPlatform.Forecast.Regimes
import Mathlib.Analysis.SpecialFunctions.Log.Basic
import Mathlib.Tactic.Positivity

/-!
# Forecast bands

The three columns of a forecast on their way through `backend/tools`: Prophet's output, the inverse
transform and the clipping of `_generate_forecast`, the residual correction of `ensemble_forecast`,
and the bias of `apply_technical_bias`; `forecast_stock` persists what comes out of the last.

Prices are elements of an ordered field, and `exp` and `log` are those of NumPy. Prophet's columns and
the predictions of the residual model are arguments.

`ordered_iff`: the bands that are persisted are positive and in order exactly when no correction takes
a lower bound down to zero. The generated bands are positive and in order, the bias keeps both, and
the correction moves the three columns alike.
-/

set_option autoImplicit false

namespace AsetPlatform.Forecast

open scoped Numerals

universe u

variable {K : Type u} [Field K] [LinearOrder K]

/-! ## Rows -/

/-- The three columns of a row. -/
structure Band (K : Type u) where
  yhat : K
  lower : K
  upper : K

namespace Band

/-- One function on each column. -/
def map (f : K → K) (b : Band K) : Band K := ⟨f b.yhat, f b.lower, f b.upper⟩

/-- The columns are in order. -/
def Sorted (b : Band K) : Prop := b.lower ≤ b.yhat ∧ b.yhat ≤ b.upper

/-- The columns are positive and in order. -/
def Ordered (b : Band K) : Prop := 0 < b.lower ∧ b.Sorted

omit [Field K] in
theorem Sorted.map {b : Band K} (h : b.Sorted) {f : K → K} (hf : Monotone f) : (b.map f).Sorted :=
  ⟨hf h.1, hf h.2⟩

end Band

/-- `Series.clip(lower, upper)`. -/
def clip (lower upper x : K) : K := min (max x lower) upper

/-- The inverse transform of a column and its clipping. -/
def priceOf (exp log : K → K) (transform : Transform) (lastY x : K) : K :=
  match transform with
  | .none => max x (1 / 100)
  | .log =>
      let lastLogY := log (max lastY (1 / 100))
      max (exp (clip (lastLogY - 3 / 2) (lastLogY + 3 / 2) x)) (1 / 100)

/-- `_generate_forecast`, of the future rows of Prophet's output. -/
def generateForecast (exp log : K → K) (transform : Transform) (lastY : K) (rows : List (Band K)) :
    List (Band K) :=
  rows.map fun b => b.map (priceOf exp log transform lastY)

/-- `ensemble_forecast`, of what the residual model predicts for each row. -/
def ensembleForecast (correction : Nat → K) (rows : List (Band K)) : List (Band K) :=
  rows.mapIdx fun i b => b.map (· + correction i)

/-! ## Technical bias -/

/-- The signals of `analysis_summary`. -/
structure AnalysisRow (K : Type u) where
  rsi14 : Reading K
  macd : Reading K
  macdSignalLine : Reading K
  volumeSpike : Bool := false
  priceDirection : String := "flat"

/-- `MAX_BIAS`. -/
def maxBias : K := 15 / 100

/-- The bias of each signal, and its name. -/
def signalBiases (row : AnalysisRow K) : List (K × String) :=
  (if (Reading.number 75).less row.rsi14 then [(-(15 / 100), "rsi_overbought")]
    else if row.rsi14.less (.number 25) then [(15 / 100, "rsi_oversold")] else []) ++
  (if row.macd.less row.macdSignalLine then [(-(8 / 100), "macd_bearish")]
    else if row.macdSignalLine.less row.macd then [(8 / 100, "macd_bullish")] else []) ++
  (if row.volumeSpike then
    if row.priceDirection = "down" then [(-(5 / 100), "vol_spike_down")]
    else if row.priceDirection = "up" then [(5 / 100, "vol_spike_up")] else []
  else [])

/-- The sum of the biases, within `MAX_BIAS`. -/
def totalBias (row : AnalysisRow K) : K :=
  max (-maxBias) (min maxBias ((signalBiases row).map Prod.fst).sum)

/-- The taper of the row at an index: full at 0, nothing from `_TAPER_DAYS` on. -/
def taper (i : Nat) : K := max (1 - i / 30) 0

/-- `apply_technical_bias`. -/
def applyTechnicalBias (rows : List (Band K)) (analysisRow : Option (AnalysisRow K)) :
    List (Band K) × K × List String :=
  match analysisRow with
  | none => (rows, 0, [])
  | some row =>
      let signals := (signalBiases row).map Prod.snd
      if totalBias row = 0 then (rows, 0, signals)
      else
        (rows.mapIdx fun i b => b.map (· * (1 + totalBias row * taper i)), totalBias row, signals)

/-- The rows `forecast_stock` persists. `correction` is absent when the ensemble is off or gives up. -/
def forecastSeries (exp log : K → K) (annualizedVol : Reading K) (lastY : K)
    (prophet : List (Band K)) (correction : Option (Nat → K))
    (analysisRow : Option (AnalysisRow K)) : List (Band K) :=
  let generated := generateForecast exp log (classifyRegime annualizedVol).transform lastY prophet
  let corrected := correction.elim generated fun c => ensembleForecast c generated
  (applyTechnicalBias corrected analysisRow).1

/-! ## Order and sign -/

section Order

variable [IsStrictOrderedRing K]

omit [Field K] [IsStrictOrderedRing K] in
theorem monotone_clip (lower upper : K) : Monotone (clip lower upper) := fun _ _ h =>
  min_le_min_right upper (max_le_max_right lower h)

omit [IsStrictOrderedRing K] in
theorem monotone_priceOf {exp : K → K} (hExp : Monotone exp) (log : K → K) (transform : Transform)
    (lastY : K) : Monotone (priceOf exp log transform lastY) := by
  intro x y h
  cases transform with
  | none => exact max_le_max_right _ h
  | log => exact max_le_max_right _ (hExp (monotone_clip _ _ h))

theorem priceOf_pos (exp log : K → K) (transform : Transform) (lastY x : K) :
    0 < priceOf exp log transform lastY x := by
  have hCent : (0 : K) < 1 / 100 := by positivity
  cases transform with
  | none => exact hCent.trans_le (le_max_right _ _)
  | log => exact hCent.trans_le (le_max_right _ _)

theorem ordered_generateForecast {exp : K → K} (hExp : Monotone exp) (log : K → K)
    (transform : Transform) (lastY : K) {rows : List (Band K)} (hRows : ∀ b ∈ rows, b.Sorted) :
    ∀ b ∈ generateForecast exp log transform lastY rows, b.Ordered := by
  intro b hb
  obtain ⟨row, hRow, rfl⟩ := List.mem_map.mp hb
  exact ⟨priceOf_pos exp log transform lastY row.lower,
    (hRows row hRow).map (monotone_priceOf hExp log transform lastY)⟩

theorem ordered_add_iff {b : Band K} (h : b.Sorted) (c : K) :
    (b.map (· + c)).Ordered ↔ 0 < b.lower + c :=
  and_iff_left (h.map fun _ _ hxy => by linarith)

theorem ordered_mul_iff {b : Band K} {m : K} (hm : 0 < m) : (b.map (· * m)).Ordered ↔ b.Ordered := by
  unfold Band.Ordered Band.Sorted Band.map
  simp only [mul_pos_iff_of_pos_right hm, mul_le_mul_iff_left₀ hm]

theorem abs_totalBias_le (row : AnalysisRow K) : |totalBias row| ≤ maxBias := by
  have hMax : (0 : K) ≤ maxBias := by
    unfold maxBias
    positivity
  rw [abs_le]
  exact ⟨le_max_left _ _, max_le (by linarith) (min_le_left _ _)⟩

theorem taper_mem (i : Nat) : (0 : K) ≤ taper i ∧ taper i ≤ (1 : K) := by
  have hDay : (0 : K) ≤ i / 30 := by positivity
  exact ⟨le_max_right _ _, max_le (by linarith) zero_le_one⟩

theorem multiplier_pos (row : AnalysisRow K) (i : Nat) : 0 < 1 + totalBias row * taper i := by
  obtain ⟨hTaper, hTaper'⟩ := taper_mem (K := K) i
  have hProduct : |totalBias row * taper i| ≤ maxBias := by
    rw [abs_mul, abs_of_nonneg hTaper]
    exact (mul_le_of_le_one_right (abs_nonneg _) hTaper').trans (abs_totalBias_le row)
  have hBelow := neg_le_of_abs_le hProduct
  have hMax : (maxBias : K) < 1 := by
    unfold maxBias
    norm_num
  linarith

theorem ordered_applyTechnicalBias_iff (rows : List (Band K)) (analysisRow : Option (AnalysisRow K)) :
    (∀ b ∈ (applyTechnicalBias rows analysisRow).1, b.Ordered) ↔ ∀ b ∈ rows, b.Ordered := by
  cases analysisRow with
  | none => exact Iff.rfl
  | some row =>
      by_cases hZero : totalBias row = 0
      · have hSame : (applyTechnicalBias rows (some row)).1 = rows := by
          simp only [applyTechnicalBias, if_pos hZero]
        rw [hSame]
      · have hMoved : (applyTechnicalBias rows (some row)).1 =
            rows.mapIdx fun i b => b.map (· * (1 + totalBias row * taper i)) := by
          simp only [applyTechnicalBias, if_neg hZero]
        rw [hMoved]
        constructor
        · intro h b hb
          obtain ⟨i, hi, rfl⟩ := List.mem_iff_getElem.mp hb
          exact (ordered_mul_iff (multiplier_pos row i)).mp
            (h _ (List.mem_mapIdx.mpr ⟨i, hi, rfl⟩))
        · intro h b hb
          obtain ⟨i, hi, rfl⟩ := List.mem_mapIdx.mp hb
          exact (ordered_mul_iff (multiplier_pos row i)).mpr (h _ (List.getElem_mem hi))

end Order

/-- No correction takes the lower bound of its row, as generated, down to zero. -/
def KeepsPositive (exp log : K → K) (annualizedVol : Reading K) (lastY : K)
    (prophet : List (Band K)) (correction : Option (Nat → K)) : Prop :=
  ∀ c ∈ correction, ∀ (i : Nat) (b : Band K), prophet[i]? = some b →
    0 < priceOf exp log (classifyRegime annualizedVol).transform lastY b.lower + c i

/-- The persisted bands are positive and in order exactly when the corrections keep the generated
lower bounds positive. -/
theorem ordered_iff [IsStrictOrderedRing K] {exp : K → K} (hExp : Monotone exp) (log : K → K)
    (annualizedVol : Reading K) (lastY : K) {prophet : List (Band K)}
    (hProphet : ∀ b ∈ prophet, b.Sorted) (correction : Option (Nat → K))
    (analysisRow : Option (AnalysisRow K)) :
    (∀ b ∈ forecastSeries exp log annualizedVol lastY prophet correction analysisRow, b.Ordered) ↔
      KeepsPositive exp log annualizedVol lastY prophet correction := by
  have hGenerated := ordered_generateForecast hExp log (classifyRegime annualizedVol).transform lastY
    hProphet
  unfold forecastSeries
  rw [ordered_applyTechnicalBias_iff]
  cases correction with
  | none => exact iff_of_true hGenerated fun c hc => by cases hc
  | some c =>
      have hAt : ∀ {i : Nat} {b : Band K}, prophet[i]? = some b →
          (generateForecast exp log (classifyRegime annualizedVol).transform lastY prophet)[i]? =
            some (b.map (priceOf exp log (classifyRegime annualizedVol).transform lastY)) := by
        intro i b hb
        rw [generateForecast, List.getElem?_map, hb]
        rfl
      constructor
      · intro h c' hc i b hb
        cases hc
        obtain ⟨hi, hRow⟩ := List.getElem?_eq_some_iff.mp (hAt hb)
        have hOrdered := hGenerated _ (List.getElem_mem hi)
        have hCorrected := h _ (List.mem_mapIdx.mpr ⟨i, hi, rfl⟩)
        rw [ordered_add_iff hOrdered.2, hRow] at hCorrected
        exact hCorrected
      · intro h b hb
        obtain ⟨i, hi, rfl⟩ := List.mem_mapIdx.mp hb
        have hOrdered := hGenerated _ (List.getElem_mem hi)
        rw [ordered_add_iff hOrdered.2]
        have hi' : i < prophet.length := by simpa [generateForecast] using hi
        have hRow := (List.getElem?_eq_some_iff.mp (hAt (List.getElem?_eq_getElem hi'))).2
        rw [hRow]
        exact h c rfl i _ (List.getElem?_eq_getElem hi')

/-- Under a log transform no band is near zero, and an upward correction is harmless. -/
theorem ordered_logRegime :
    (forecastSeries Real.exp Real.log (.number 45) 100 [⟨23 / 5, 9 / 2, 47 / 10⟩]
        (some fun _ => 1 / 2)
        (some { rsi14 := .number 80, macd := .number 1, macdSignalLine := .number 2 })).Forall
      Band.Ordered := by
  rw [List.forall_iff_forall_mem]
  refine (ordered_iff Real.exp_monotone Real.log (.number 45) 100 ?_ _ _).mpr ?_
  · intro b hb
    obtain rfl := List.mem_singleton.mp hb
    constructor <;> norm_num
  · intro c hc i b _
    cases hc
    have hPrice := priceOf_pos Real.exp Real.log (classifyRegime (.number (45 : ℝ))).transform 100
      b.lower
    exact add_pos hPrice (by norm_num)

/-- A stock at 3 with a lower bound clipped to 0.01: a residual of -0.5 takes it to -0.49. -/
theorem correction_breaks :
    ¬ ∀ b ∈ forecastSeries Real.exp Real.log (.number 20) 3 [⟨2, -1, 5⟩] (some fun _ => -(1 / 2))
        none, b.Ordered := by
  intro h
  have hStable : (classifyRegime (Reading.number (20 : ℝ))).transform = .none := by
    have hBelow : (20 : ℝ) < 30 := by norm_num
    simp [classifyRegime, Reading.less, hBelow, Regime.transform]
  have hLower := (h ⟨max 2 (1 / 100) + -(1 / 2), max (-1) (1 / 100) + -(1 / 2),
    max 5 (1 / 100) + -(1 / 2)⟩ (by
      simp only [forecastSeries, hStable]
      exact List.mem_singleton_self _)).1
  norm_num at hLower

end AsetPlatform.Forecast
