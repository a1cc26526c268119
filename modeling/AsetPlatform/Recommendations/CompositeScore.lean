import Mathlib.Tactic.Positivity
import AsetPlatform.Recommendations.TechnicalSignals

/-!
# Composite scores

`_clamp`, `_norm`, `_compute_accuracy_factor` and `_compute_composite_score` of
`backend/jobs/recommendation_engine.py`. A number of a row is missing (`None`), NaN, or present; `or 0`
replaces what is missing and zero, and NaN, which is truthy, goes through. `min` and `max` return their
first argument when the second is NaN, so that a NaN that is clamped from both sides is the upper bound.
-/

set_option autoImplicit false

namespace AsetPlatform.Recommendations.CompositeScore

open AsetPlatform.Library

/-! ## Factors -/

/-- `value or 0` -/
def orZero (value : Option (Option ℚ)) : Option ℚ := value.getD (some 0)

/-- `_clamp` -/
def clamp (value : Option ℚ) (lo hi : ℚ) : Option ℚ := maxOf (some lo) (minOf (some hi) value)

/-- `_norm` -/
def norm (value : Option ℚ) (lo hi : ℚ) : Option ℚ :=
  let clamped := clamp value lo hi
  if hi = lo then some 0 else clamped.map fun c => (c - lo) / (hi - lo) * 100

/-- `max(0.0, 1.0 - error / scale)` -/
def errorFactor (error : Option ℚ) (scale : ℚ) : Option ℚ :=
  maxOf (some 0) (error.map fun e => 1 - e / scale)

/-- `current_price and current_price > 0` -/
def positivePrice (currentPrice : Option (Option ℚ)) : Option ℚ := currentPrice.join.filter (0 < ·)

def computeAccuracyFactor (mape mae rmse currentPrice : Option (Option ℚ)) : Option ℚ :=
  let mapeF := errorFactor (orZero mape) 100
  let maeF :=
    match positivePrice currentPrice with
    | some price => errorFactor (orZero mae) price
    | none => mapeF
  let rmseF :=
    match positivePrice currentPrice with
    | some price => errorFactor (orZero rmse) price
    | none => mapeF
  plus (plus (scaled (1 / 2) mapeF) (scaled (3 / 10) maeF)) (scaled (1 / 5) rmseF)

/-! ## Rows -/

inductive Column where
  | piotroski
  | sharpeRatio
  | annualizedReturnPct
  | target3mPctChange
  | mape
  | mae
  | rmse
  | currentPrice
  | sentiment
  deriving DecidableEq

inductive SignalColumn where
  | sma50Signal
  | sma200Signal
  | rsiSignal
  | macdSignalText
  deriving DecidableEq

/-- A cell of a text column. -/
inductive SignalCell where
  | text (s : String)
  | nan
  deriving DecidableEq

/-- `row.get(column)`. -/
structure ScoreRow where
  number : Column → Option (Option ℚ)
  signal : SignalColumn → Option SignalCell

/-- `(cell or "").lower()`, which raises for NaN. -/
def lowered : Option SignalCell → Option String
  | none => some ""
  | some (.text s) => some (asciiLower s)
  | some .nan => none

def bullishTexts : SignalColumn → List String
  | .macdSignalText => ["bullish", "buy"]
  | _ => ["buy"]

namespace ScoreRow

variable (r : ScoreRow)

def point (c : SignalColumn) : Option Nat :=
  (lowered (r.signal c)).map fun s => if s ∈ bullishTexts c then 1 else 0

/-- `bullish`, or `none` when a cell has no `lower`. -/
def bullish : Option Nat :=
  (r.point .sma50Signal).bind fun a =>
    (r.point .sma200Signal).bind fun b =>
      (r.point .rsiSignal).bind fun c => (r.point .macdSignalText).map fun d => a + b + c + d

def accuracy : Option ℚ :=
  computeAccuracyFactor (r.number .mape) (r.number .mae) (r.number .rmse) (r.number .currentPrice)

/-- `_compute_composite_score`: `none` when it raises, and a float otherwise. -/
def compositeScore : Option (Option ℚ) :=
  r.bullish.map fun bullish : Nat =>
    let fundamental := (orZero (r.number .piotroski)).map fun p => p / 9 * 100
    let riskAdj := norm (orZero (r.number .sharpeRatio)) (-2) 4
    let momentum := norm (orZero (r.number .annualizedReturnPct)) (-50) 100
    let forecast := norm (times (orZero (r.number .target3mPctChange)) r.accuracy) (-30) 50
    let sentScore := (orZero (r.number .sentiment)).map fun s => (s + 1) / 2 * 100
    let techScore := some ((bullish : ℚ) / 4 * 100)
    let composite := nanSum [scaled (1 / 4) fundamental, scaled (1 / 5) riskAdj,
      scaled (3 / 20) momentum, scaled (1 / 5) forecast, scaled (1 / 10) sentScore,
      scaled (1 / 10) techScore]
    composite.map round2

def withNumber (c : Column) (v : Option (Option ℚ)) : ScoreRow :=
  { r with number := fun d => if d = c then v else r.number d }

/-- The row with another text in a signal column. -/
def withSignal (c : SignalColumn) (s : String) : ScoreRow :=
  { r with signal := fun d => if d = c then some (.text s) else r.signal d }

end ScoreRow

/-! ## Levels of the factors -/

/-- What `_norm` makes of a value; NaN counts as the upper bound. -/
def level (value : Option ℚ) (lo hi : ℚ) : ℚ :=
  match value with
  | none => 100
  | some q => (max lo (min hi q) - lo) / (hi - lo) * 100

/-- What is left of a forecast's accuracy; NaN leaves nothing. -/
def remaining (error : Option ℚ) (scale : ℚ) : ℚ :=
  match error with
  | none => 0
  | some e => max 0 (1 - e / scale)

section Levels

variable {x y lo hi scale : ℚ} {v : Option ℚ}

theorem norm_eq (h : lo < hi) (v : Option ℚ) : norm v lo hi = some (level v lo hi) := by
  rw [norm, if_neg (ne_of_gt h), clamp]
  cases v with
  | none =>
      rw [minOf_none_right, maxOf_some, max_eq_right h.le, Option.map_some, level,
        div_self (sub_ne_zero.mpr (ne_of_gt h)), one_mul]
  | some q => rw [minOf_some, maxOf_some, Option.map_some, level]

theorem level_mono (h : lo < hi) (hxy : x ≤ y) : level (some x) lo hi ≤ level (some y) lo hi := by
  have hWidth : 0 < hi - lo := sub_pos.mpr h
  rw [level, level]
  have hClamped : max lo (min hi x) ≤ max lo (min hi y) :=
    max_le_max (le_refl lo) (min_le_min (le_refl hi) hxy)
  gcongr

theorem level_le (h : lo < hi) (v : Option ℚ) : level v lo hi ≤ 100 := by
  cases v with
  | none => exact le_refl _
  | some q =>
      have hWidth : 0 < hi - lo := sub_pos.mpr h
      have hClamped : max lo (min hi q) ≤ hi := max_le h.le (min_le_left _ _)
      have hPart : (max lo (min hi q) - lo) / (hi - lo) ≤ 1 := by
        rw [div_le_one hWidth]
        linarith
      rw [level]
      linarith

theorem level_nonneg (h : lo < hi) (v : Option ℚ) : 0 ≤ level v lo hi := by
  cases v with
  | none => exact (by norm_num : (0 : ℚ) ≤ 100)
  | some q =>
      have hPart : 0 ≤ (max lo (min hi q) - lo) / (hi - lo) :=
        div_nonneg (sub_nonneg.mpr (le_max_left _ _)) (sub_pos.mpr h).le
      rw [level]
      linarith

theorem level_upper (h : lo < hi) : level (some hi) lo hi = 100 := by
  rw [level, min_self, max_eq_right h.le, div_self (sub_ne_zero.mpr (ne_of_gt h)), one_mul]

theorem errorFactor_eq (v : Option ℚ) (scale : ℚ) : errorFactor v scale = some (remaining v scale) := by
  rw [errorFactor]
  cases v with
  | none => rfl
  | some e => rw [Option.map_some, maxOf_some, remaining]

theorem remaining_nonneg (v : Option ℚ) (scale : ℚ) : 0 ≤ remaining v scale := by
  cases v with
  | none => exact le_refl _
  | some e => exact le_max_left _ _

theorem remaining_antitone (h : 0 < scale) (hxy : x ≤ y) :
    remaining (some y) scale ≤ remaining (some x) scale := by
  rw [remaining, remaining]
  have hQuot : x / scale ≤ y / scale := div_le_div_of_nonneg_right hxy h.le
  exact max_le_max (le_refl 0) (by linarith)

theorem remaining_scale (h : 0 < scale) : remaining (some scale) scale = 0 := by
  rw [remaining, div_self (ne_of_gt h), sub_self, max_self]

end Levels

namespace ScoreRow

/-! ## The score of a readable row -/

/-- The cells whose NaN the score does not survive have none. -/
structure Readable (r : ScoreRow) : Prop where
  piotroski : r.number .piotroski ≠ some none
  sentiment : r.number .sentiment ≠ some none
  signal : ∀ c, r.signal c ≠ some .nan

/-- The factor that `_compute_accuracy_factor` returns. -/
def accuracyLevel (r : ScoreRow) : ℚ :=
  let m := remaining (orZero (r.number .mape)) 100
  match positivePrice (r.number .currentPrice) with
  | some price =>
      1 / 2 * m + 3 / 10 * remaining (orZero (r.number .mae)) price +
        1 / 5 * remaining (orZero (r.number .rmse)) price
  | none => 1 / 2 * m + 3 / 10 * m + 1 / 5 * m

def points (r : ScoreRow) : Nat :=
  (r.point .sma50Signal).getD 0 + (r.point .sma200Signal).getD 0 + (r.point .rsiSignal).getD 0 +
    (r.point .macdSignalText).getD 0

/-- The weighted sum before it is rounded. -/
def raw (r : ScoreRow) : ℚ :=
  1 / 4 * ((orZero (r.number .piotroski)).getD 0 / 9 * 100) +
    1 / 5 * level (orZero (r.number .sharpeRatio)) (-2) 4 +
    3 / 20 * level (orZero (r.number .annualizedReturnPct)) (-50) 100 +
    1 / 5 * level ((orZero (r.number .target3mPctChange)).map fun t => t * r.accuracyLevel) (-30) 50 +
    1 / 10 * (((orZero (r.number .sentiment)).getD 0 + 1) / 2 * 100) +
    1 / 10 * ((r.points : ℚ) / 4 * 100)

section Score

variable {r r' : ScoreRow} {c : Column} {x y : ℚ}

theorem accuracy_eq (r : ScoreRow) : r.accuracy = some r.accuracyLevel := by
  rw [accuracy, computeAccuracyFactor, accuracyLevel]
  simp only [errorFactor_eq]
  cases positivePrice (r.number .currentPrice) with
  | none => rfl
  | some price => rfl

theorem positivePrice_pos {v : Option (Option ℚ)} {price : ℚ} (h : positivePrice v = some price) :
    0 < price :=
  of_decide_eq_true (Option.filter_eq_some_iff.mp h).2

theorem accuracyLevel_nonneg (r : ScoreRow) : 0 ≤ r.accuracyLevel := by
  have hNonneg := remaining_nonneg
  rw [accuracyLevel]
  cases positivePrice (r.number .currentPrice) with
  | none =>
      have hMape := hNonneg (orZero (r.number .mape)) 100
      simp only
      linarith
  | some price =>
      have hMape := hNonneg (orZero (r.number .mape)) 100
      have hMae := hNonneg (orZero (r.number .mae)) price
      have hRmse := hNonneg (orZero (r.number .rmse)) price
      simp only
      linarith

theorem exists_orZero {v : Option (Option ℚ)} (h : v ≠ some none) : ∃ q, orZero v = some q := by
  rcases v with _ | _ | q
  · exact ⟨0, rfl⟩
  · exact absurd rfl h
  · exact ⟨q, rfl⟩

theorem exists_point (h : r.Readable) (c : SignalColumn) : ∃ n, r.point c = some n ∧ n ≤ 1 := by
  have hBound : ∀ s : String, (if s ∈ bullishTexts c then 1 else 0) ≤ 1 := by
    intro s
    split <;> decide
  rw [point]
  rcases hCell : r.signal c with _ | ⟨s⟩ | _
  · exact ⟨_, rfl, hBound _⟩
  · exact ⟨_, rfl, hBound _⟩
  · exact absurd hCell (h.signal c)

theorem bullish_eq (h : r.Readable) : r.bullish = some r.points := by
  obtain ⟨a, hA, -⟩ := exists_point h .sma50Signal
  obtain ⟨b, hB, -⟩ := exists_point h .sma200Signal
  obtain ⟨d, hC, -⟩ := exists_point h .rsiSignal
  obtain ⟨e, hD, -⟩ := exists_point h .macdSignalText
  rw [bullish, points, hA, hB, hC, hD]
  rfl

theorem points_le (h : r.Readable) : r.points ≤ 4 := by
  obtain ⟨a, hA, hA'⟩ := exists_point h .sma50Signal
  obtain ⟨b, hB, hB'⟩ := exists_point h .sma200Signal
  obtain ⟨d, hC, hC'⟩ := exists_point h .rsiSignal
  obtain ⟨e, hD, hD'⟩ := exists_point h .macdSignalText
  rw [points, hA, hB, hC, hD]
  simp only [Option.getD_some]
  omega

theorem compositeScore_eq (h : r.Readable) : r.compositeScore = some (some (round2 r.raw)) := by
  obtain ⟨p, hP⟩ := exists_orZero h.piotroski
  obtain ⟨s, hS⟩ := exists_orZero h.sentiment
  have hTarget : times (orZero (r.number .target3mPctChange)) (some r.accuracyLevel) =
      (orZero (r.number .target3mPctChange)).map fun t => t * r.accuracyLevel := by
    cases orZero (r.number .target3mPctChange) with
    | none => rfl
    | some t => rfl
  have hRaw : r.raw = [1 / 4 * (p / 9 * 100), 1 / 5 * level (orZero (r.number .sharpeRatio)) (-2) 4,
      3 / 20 * level (orZero (r.number .annualizedReturnPct)) (-50) 100,
      1 / 5 * level ((orZero (r.number .target3mPctChange)).map fun t => t * r.accuracyLevel) (-30) 50,
      1 / 10 * ((s + 1) / 2 * 100), 1 / 10 * ((r.points : ℚ) / 4 * 100)].sum := by
    rw [raw, hP, hS]
    simp only [Option.getD_some, List.sum_cons, List.sum_nil]
    ring
  have hRound : ∀ q : ℚ, some (round2 q) = (some q).map round2 := fun _ => rfl
  rw [hRaw, hRound, ← nanSum_map_some, compositeScore, bullish_eq h,
    accuracy_eq, hTarget, hP, hS, norm_eq (by norm_num), norm_eq (by norm_num), norm_eq (by norm_num)]
  rfl

theorem readable_of_score {s : ℚ} (h : r.compositeScore = some (some s)) : r.Readable := by
  obtain ⟨k, hBullish, hScore⟩ := Option.map_eq_some_iff.mp h
  have hNone : ∀ x : Option ℚ, plus x none = none := fun x => by cases x <;> rfl
  have hKept : ∀ x : Option ℚ, plus none x = none := fun _ => rfl
  refine ⟨?_, ?_, ?_⟩
  · intro hNan
    rw [hNan] at hScore
    simp [orZero, scaled, nanSum, hNone, hKept] at hScore
  · intro hNan
    rw [hNan] at hScore
    simp [orZero, scaled, nanSum, hNone, hKept] at hScore
  · intro c hNan
    have hPoint : r.point c = none := by
      rw [point, hNan]
      rfl
    rw [bullish] at hBullish
    cases c <;> simp [hPoint] at hBullish

end Score

end ScoreRow

/-! ## Rows without NaN -/

open TechnicalSignals (Factors bullishSignals computeCompositeScore weightedScore word)

/-- The row of the other factors and the words of a stored analysis. -/
def ofFactors (x : Factors) (row : TechnicalSignals.Row) : ScoreRow where
  number
    | .piotroski => x.piotroski.map some
    | .sharpeRatio => x.sharpeRatio.map some
    | .annualizedReturnPct => x.annualizedReturnPct.map some
    | .target3mPctChange => x.target3mPctChange.map some
    | .mape => x.mape.map some
    | .mae => x.mae.map some
    | .rmse => x.rmse.map some
    | .currentPrice => x.currentPrice.map some
    | .sentiment => x.sentiment.map some
  signal
    | .sma50Signal => some (.text (row.get "sma_50_signal").str)
    | .sma200Signal => some (.text (row.get "sma_200_signal").str)
    | .rsiSignal => some (.text (row.get "rsi_signal").str)
    | .macdSignalText => some (.text (row.get "macd_signal_text").str)

section Factors

variable (x : Factors) (row : TechnicalSignals.Row)

theorem orZero_map_some (v : Option ℚ) : orZero (v.map some) = some (v.getD 0) := by
  cases v <;> rfl

theorem map_some_ne (v : Option ℚ) : v.map some ≠ some none := by
  cases v <;> simp

theorem ofFactors_readable : (ofFactors x row).Readable where
  piotroski := map_some_ne _
  sentiment := map_some_ne _
  signal := fun c => by cases c <;> exact fun h => SignalCell.noConfusion (Option.some.inj h)

theorem level_eq_norm {lo hi : ℚ} (h : lo < hi) (q : ℚ) :
    level (some q) lo hi = TechnicalSignals.norm q lo hi := by
  rw [level, TechnicalSignals.norm, if_neg (ne_of_gt h)]

theorem ofFactors_points : (ofFactors x row).points = bullishSignals row := by
  simp only [ScoreRow.points, ScoreRow.point, ofFactors, lowered, Option.map_some, Option.getD_some,
    bullishTexts, List.mem_singleton, bullishSignals, word]
  rfl

theorem ofFactors_accuracyLevel : (ofFactors x row).accuracyLevel =
    TechnicalSignals.computeAccuracyFactor x.mape x.mae x.rmse x.currentPrice := by
  simp only [ScoreRow.accuracyLevel, ofFactors, orZero_map_some, remaining,
    TechnicalSignals.computeAccuracyFactor]
  rcases x.currentPrice with _ | price
  · rfl
  · have hPrice : positivePrice ((some price).map some) = if 0 < price then some price else none := by
      simp [positivePrice, Option.filter_some]
    rw [hPrice]
    by_cases hPositive : 0 < price
    · simp only [if_pos hPositive]
    · simp only [if_neg hPositive]

theorem compositeScore_ofFactors :
    (ofFactors x row).compositeScore = some (some (computeCompositeScore x row)) := by
  have hRaw : (ofFactors x row).raw = weightedScore x (bullishSignals row) := by
    rw [ScoreRow.raw, ofFactors_points, ofFactors_accuracyLevel, weightedScore,
      ← level_eq_norm (by norm_num : (-2 : ℚ) < 4), ← level_eq_norm (by norm_num : (-50 : ℚ) < 100),
      ← level_eq_norm (by norm_num : (-30 : ℚ) < 50)]
    simp only [ofFactors, orZero_map_some, Option.getD_some, Option.map_some]
  rw [ScoreRow.compositeScore_eq (ofFactors_readable x row), hRaw]
  rfl

end Factors

end AsetPlatform.Recommendations.CompositeScore
