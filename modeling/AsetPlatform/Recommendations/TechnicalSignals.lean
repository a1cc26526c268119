import AsetPlatform.Library.Dict
import AsetPlatform.Library.Floats
import AsetPlatform.Library.Text

/-!
# Technical signals from the analysis to their readers

`backend/tools/_analysis_summary.py` puts the signals of a price history into words,
`insert_analysis_summary` in `stocks/repository.py` stores them, `_compute_composite_score` in
`backend/jobs/recommendation_engine.py` counts the bullish ones, and `apply_technical_bias` in
`backend/tools/_forecast_regime.py` looks for the indicators themselves.

The indicators come from the package `ta`, which is a parameter, as are the format of numbers and the
conversion of the columns that no reader here looks at. A float is a rational or NaN.
-/

set_option autoImplicit false

namespace AsetPlatform.Recommendations.TechnicalSignals

open AsetPlatform.Library

universe u

variable {H : Type u}

/-- The last values of the columns that `ta` computes from a history, and of the close. -/
structure Ta (H : Type u) where
  close : H → Option ℚ
  sma : Nat → H → Option ℚ
  rsi : Nat → H → Option ℚ
  macd : H → Option ℚ
  macdSignal : H → Option ℚ

/-- The last row of the frame; a column may be absent. -/
structure Frame where
  close : Option ℚ
  sma50 : Option (Option ℚ)
  sma200 : Option (Option ℚ)
  rsi14 : Option (Option ℚ)
  macd : Option (Option ℚ)
  macdSignal : Option (Option ℚ)

/-- `_calculate_technical_indicators`. -/
def calculateTechnicalIndicators (ta : Ta H) (h : H) : Frame where
  close := ta.close h
  sma50 := some (ta.sma 50 h)
  sma200 := some (ta.sma 200 h)
  rsi14 := some (ta.rsi 14 h)
  macd := some (ta.macd h)
  macdSignal := some (ta.macdSignal h)

/-! ## The words of the analysis -/

inductive Value where
  | null
  | num (x : Option ℚ)
  | text (s : String)

/-- `f"{x:.1f}"` and `round`. -/
structure Format where
  format1 : Option ℚ → String
  round : Nat → Option ℚ → Value

/-- `"Above"`, `"Below"`, or `"N/A"` for no average. A zero is falsy, NaN is not. -/
def smaSignal (price : Option ℚ) (sma : Option (Option ℚ)) : String :=
  match sma with
  | none => "N/A"
  | some average =>
      if average = some 0 then "N/A"
      else if greater price average then "Above" else "Below"

def rsiLabel (rsi : Option ℚ) : String :=
  if rsi.any (fun x => 70 ≤ x) then "Overbought"
  else if rsi.any (fun x => x ≤ 30) then "Oversold"
  else "Neutral"

def rsiSignal (fmt : Format) (rsi : Option (Option ℚ)) : String :=
  match rsi with
  | none => "N/A"
  | some x => rsiLabel x ++ (" (RSI: " ++ (fmt.format1 x ++ ")"))

def macdSignalStr (macd signal : Option (Option ℚ)) : String :=
  match macd, signal with
  | some m, some s => if greater m s then "Bullish" else "Bearish"
  | _, _ => "N/A"

def rounded (fmt : Format) (digits : Nat) : Option (Option ℚ) → Value
  | some x => fmt.round digits x
  | none => .text "N/A"

/-- What `_generate_summary_stats` says about the indicators, over what it says about the prices. -/
def generateSummaryStats (fmt : Format) (prices : Dict String Value) (f : Frame) :
    Dict String Value :=
  ((((((prices.set "sma_50" (rounded fmt 2 f.sma50)).set
    "sma_50_signal" (.text (smaSignal f.close f.sma50))).set
    "sma_200" (rounded fmt 2 f.sma200)).set
    "sma_200_signal" (.text (smaSignal f.close f.sma200))).set
    "rsi_14" (rounded fmt 1 f.rsi14)).set
    "rsi_signal" (.text (rsiSignal fmt f.rsi14))).set
    "macd_signal" (.text (macdSignalStr f.macd f.macdSignal))

/-- The summary that the callers build of it. -/
def analysisSummary (fmt : Format) (prices : Dict String Value) (f : Frame) : Dict String Value :=
  let stats := generateSummaryStats fmt prices f
  stats.set "macd_signal_text" ((stats.get? "macd_signal").getD .null)

/-! ## The table -/

/-- How a column is filled. -/
inductive Kind where
  | given
  | double
  | long
  | date
  | text
  deriving DecidableEq

/-- The columns of `stocks.analysis_summary`. -/
def columns : List (String × Kind) :=
  [("summary_id", .given), ("ticker", .given), ("analysis_date", .date), ("bull_phase_pct", .double),
    ("bear_phase_pct", .double), ("max_drawdown_pct", .double),
    ("max_drawdown_duration_days", .long), ("annualized_volatility_pct", .double),
    ("annualized_return_pct", .double), ("sharpe_ratio", .double), ("all_time_high", .double),
    ("all_time_high_date", .date), ("all_time_low", .double), ("all_time_low_date", .date),
    ("support_levels", .text), ("resistance_levels", .text), ("sma_50_signal", .text),
    ("sma_200_signal", .text), ("rsi_signal", .text), ("macd_signal_text", .text),
    ("best_month", .text), ("worst_month", .text), ("best_year", .text), ("worst_year", .text),
    ("computed_at", .given)]

abbrev Row := List (String × Value)

/-- `insert_analysis_summary`: the new row of the ticker. Texts are stored as they are. -/
def insertAnalysisSummary (convert : String → Value → Value) (summary : Dict String Value) : Row :=
  columns.map fun c =>
    let value := (summary.get? c.1).getD .null
    match c.2 with
    | .text => (c.1, value)
    | _ => (c.1, convert c.1 value)

/-- `row.get(key)`. -/
def Row.get (row : Row) (key : String) : Value :=
  ((row.find? fun e => e.1 = key).map Prod.snd).getD .null

/-! ## The composite score -/

/-- The other factors of a row of stage 1. -/
structure Factors where
  piotroski : Option ℚ
  sharpeRatio : Option ℚ
  annualizedReturnPct : Option ℚ
  target3mPctChange : Option ℚ
  mape : Option ℚ
  mae : Option ℚ
  rmse : Option ℚ
  currentPrice : Option ℚ
  sentiment : Option ℚ

/-- `_norm`. -/
def norm (value lo hi : ℚ) : ℚ :=
  if hi = lo then 0 else (max lo (min hi value) - lo) / (hi - lo) * 100

/-- `_compute_accuracy_factor`. -/
def computeAccuracyFactor (mape mae rmse currentPrice : Option ℚ) : ℚ :=
  let mapeF := max 0 (1 - mape.getD 0 / 100)
  let factor := fun error : Option ℚ =>
    match currentPrice with
    | some price => if 0 < price then max 0 (1 - error.getD 0 / price) else mapeF
    | none => mapeF
  1 / 2 * mapeF + 3 / 10 * factor mae + 1 / 5 * factor rmse

/-- A text that the row has. -/
def Value.str : Value → String
  | text s => s
  | _ => ""

/-- The word of a signal, in lower case. -/
def word (v : Value) : String := asciiLower v.str

/-- `bullish`. -/
def bullishSignals (row : Row) : Nat :=
  (if word (row.get "sma_50_signal") = "buy" then 1 else 0) +
    (if word (row.get "sma_200_signal") = "buy" then 1 else 0) +
      (if word (row.get "rsi_signal") = "buy" then 1 else 0) +
        if word (row.get "macd_signal_text") ∈ ["bullish", "buy"] then 1 else 0

/-- The weighted sum of `_compute_composite_score`, for a count of bullish signals. -/
def weightedScore (x : Factors) (bullish : Nat) : ℚ :=
  1 / 4 * (x.piotroski.getD 0 / 9 * 100) + 1 / 5 * norm (x.sharpeRatio.getD 0) (-2) 4 +
    3 / 20 * norm (x.annualizedReturnPct.getD 0) (-50) 100 +
    1 / 5 * norm (x.target3mPctChange.getD 0 *
      computeAccuracyFactor x.mape x.mae x.rmse x.currentPrice) (-30) 50 +
    1 / 10 * ((x.sentiment.getD 0 + 1) / 2 * 100) + 1 / 10 * (bullish / 4 * 100)

/-- `_compute_composite_score`. -/
def computeCompositeScore (x : Factors) (row : Row) : ℚ := round2 (weightedScore x (bullishSignals row))

/-! ## The technical bias -/

/-- A number that the row has. -/
def Value.number : Value → Option ℚ
  | num x => x
  | _ => none

/-- `if vol_spike`. -/
def Value.truthy : Value → Bool
  | null => false
  | num x => x ≠ some 0
  | text s => s ≠ ""

/-- `MAX_BIAS`. -/
def maxBias : ℚ := 3 / 20

/-- The bias and the signals of `apply_technical_bias`. -/
def technicalBias (row : Row) : ℚ × List String :=
  let rsi := (row.get "rsi_14").number
  let macd := (row.get "macd").number
  let signal := (row.get "macd_signal_line").number
  let ofRsi : List (ℚ × String) :=
    if above rsi 75 then [(-3 / 20, "rsi_overbought")]
    else if below rsi 25 then [(3 / 20, "rsi_oversold")]
    else []
  let ofMacd : List (ℚ × String) :=
    if greater signal macd then [(-2 / 25, "macd_bearish")]
    else if greater macd signal then [(2 / 25, "macd_bullish")]
    else []
  let direction := (row.get "price_direction").str
  let ofVolume : List (ℚ × String) :=
    if (row.get "volume_spike").truthy then
      if direction = "down" then [(-1 / 20, "vol_spike_down")]
      else if direction = "up" then [(1 / 20, "vol_spike_up")]
      else []
    else []
  let all := ofRsi ++ ofMacd ++ ofVolume
  (max (-maxBias) (min maxBias (all.map Prod.fst).sum), all.map Prod.snd)

structure ForecastRow where
  yhat : ℚ
  yhatLower : ℚ
  yhatUpper : ℚ

/-- `apply_technical_bias`: the forecast with the bias, tapered over 30 days, and the bias. -/
def applyTechnicalBias (forecast : List ForecastRow) (row : Option Row) :
    List ForecastRow × ℚ × List String :=
  match row with
  | none => (forecast, 0, [])
  | some row =>
      let bias := technicalBias row
      if bias.1 = 0 then (forecast, 0, bias.2)
      else
        (forecast.mapIdx fun day x =>
          let multiplier := 1 + bias.1 * max 0 (1 - day / 30)
          ⟨x.yhat * multiplier, x.yhatLower * multiplier, x.yhatUpper * multiplier⟩, bias)

/-! ## What survives -/

def bullishConditions (f : Frame) : Nat :=
  (if greater f.close f.sma50.join then 1 else 0) + (if greater f.close f.sma200.join then 1 else 0) +
    (if f.rsi14.join.any (fun x => x ≤ 30) then 1 else 0) +
      if greater f.macd.join f.macdSignal.join then 1 else 0

/-- The readers of a row see the indicators of its history. -/
structure Survives (f : Frame) (row : Row) : Prop where
  counted : bullishSignals row = bullishConditions f
  rsi : (row.get "rsi_14").number = f.rsi14.join
  macd : (row.get "macd").number = f.macd.join
  macdSignal : (row.get "macd_signal_line").number = f.macdSignal.join
  biased : above f.rsi14.join 75 ∨ below f.rsi14.join 25 → (technicalBias row).1 ≠ 0

section Reading

variable (convert : String → Value → Value) (summary : Dict String Value)

/-- The stored cell of a column is looked up under the column's name. -/
theorem get_insertAnalysisSummary (key : String) :
    (insertAnalysisSummary convert summary).get key =
      match columns.find? fun c => c.1 = key with
      | none => .null
      | some (name, .text) => (summary.get? name).getD .null
      | some (name, _) => convert name ((summary.get? name).getD .null) := by
  rw [Row.get, insertAnalysisSummary, List.find?_map]
  have hname : (fun e : String × Value => decide (e.1 = key)) ∘ (fun c : String × Kind =>
      let value := (summary.get? c.1).getD .null
      match c.2 with
      | .text => (c.1, value)
      | _ => (c.1, convert c.1 value)) = fun c => decide (c.1 = key) := by
    funext ⟨name, kind⟩
    cases kind <;> rfl
  rw [hname]
  cases hfind : columns.find? fun c => decide (c.1 = key) with
  | none => rfl
  | some c =>
      obtain ⟨name, kind⟩ := c
      cases kind <;> rfl

theorem get_of_text {key : String}
    (h : columns.find? (fun c => c.1 = key) = some (key, .text)) :
    (insertAnalysisSummary convert summary).get key = (summary.get? key).getD .null := by
  rw [get_insertAnalysisSummary, h]

theorem get_of_no_column {key : String} (h : columns.find? (fun c => c.1 = key) = none) :
    (insertAnalysisSummary convert summary).get key = .null := by
  rw [get_insertAnalysisSummary, h]

end Reading

theorem no_column : ∀ key ∈ ["rsi_14", "macd", "macd_signal_line", "volume_spike",
    "price_direction"], columns.find? (fun c => c.1 = key) = none := by
  decide

theorem technicalBias_insertAnalysisSummary (convert : String → Value → Value)
    (summary : Dict String Value) :
    technicalBias (insertAnalysisSummary convert summary) = (0, []) := by
  have hnull : ∀ key ∈ ["rsi_14", "macd", "macd_signal_line", "volume_spike", "price_direction"],
      (insertAnalysisSummary convert summary).get key = .null :=
    fun key hkey => get_of_no_column convert summary (no_column key hkey)
  rw [technicalBias, hnull "rsi_14" (by decide), hnull "macd" (by decide),
    hnull "macd_signal_line" (by decide), hnull "volume_spike" (by decide)]
  norm_num [Value.number, Value.truthy, maxBias]

/-! ### The words -/

theorem asciiLower_ne_of_length {s t : String} (h : s.length ≠ t.length) : asciiLower s ≠ t := by
  intro heq
  apply h
  rw [← heq, asciiLower, String.length_ofList, List.length_map, String.length_toList]

theorem smaSignal_not_counted (price : Option ℚ) (sma : Option (Option ℚ)) :
    word (.text (smaSignal price sma)) ≠ "buy" := by
  have hwords : ∀ s ∈ ["N/A", "Above", "Below"], word (.text s) ≠ "buy" := by decide
  apply hwords
  cases sma with
  | none =>
      rw [smaSignal]
      decide
  | some average =>
      rw [smaSignal]
      split
      · decide
      · split <;> decide

theorem rsiLabel_mem (rsi : Option ℚ) : rsiLabel rsi ∈ ["Overbought", "Oversold", "Neutral"] := by
  rw [rsiLabel]
  split
  · decide
  · split <;> decide

theorem rsiSignal_not_counted (fmt : Format) (rsi : Option (Option ℚ)) :
    word (.text (rsiSignal fmt rsi)) ≠ "buy" := by
  cases rsi with
  | none =>
      rw [rsiSignal]
      decide
  | some x =>
      have hlabels : ∀ s ∈ ["Overbought", "Oversold", "Neutral"], 7 ≤ s.length := by decide
      have hlength := hlabels _ (rsiLabel_mem x)
      apply asciiLower_ne_of_length
      have hbuy : "buy".length = 3 := by decide
      rw [hbuy, Value.str, rsiSignal, String.length_append]
      omega

theorem macdSignalStr_counted_iff (macd signal : Option ℚ) :
    word (.text (macdSignalStr (some macd) (some signal))) ∈ ["bullish", "buy"] ↔
      greater macd signal := by
  rw [macdSignalStr]
  by_cases hgreater : greater macd signal
  · rw [if_pos hgreater]
    exact iff_of_true (by decide) hgreater
  · rw [if_neg hgreater]
    exact iff_of_false (by decide) hgreater

section Stored

variable (ta : Ta H) (fmt : Format) (convert : String → Value → Value) (prices : Dict String Value)
  (h : H)

/-- The row that the analysis of a history leaves. -/
def storedRow : Row :=
  insertAnalysisSummary convert (analysisSummary fmt prices (calculateTechnicalIndicators ta h))

/-- The words of the stored row are the words of the analysis. -/
theorem get_storedRow {key : String}
    (hkey : key ∈ ["sma_50_signal", "sma_200_signal", "rsi_signal", "macd_signal_text"]) :
    (storedRow ta fmt convert prices h).get key =
      ((analysisSummary fmt prices (calculateTechnicalIndicators ta h)).get? key).getD .null := by
  have htext : ∀ key ∈ ["sma_50_signal", "sma_200_signal", "rsi_signal", "macd_signal_text"],
      columns.find? (fun c => c.1 = key) = some (key, .text) := by
    decide
  exact get_of_text convert _ (htext key hkey)

theorem bullishSignals_storedRow :
    bullishSignals (storedRow ta fmt convert prices h) =
      if greater (ta.macd h) (ta.macdSignal h) then 1 else 0 := by
  have hsma50 : (storedRow ta fmt convert prices h).get "sma_50_signal" =
      .text (smaSignal (ta.close h) (some (ta.sma 50 h))) := by
    rw [get_storedRow ta fmt convert prices h (by decide)]
    simp [analysisSummary, generateSummaryStats, calculateTechnicalIndicators]
  have hsma200 : (storedRow ta fmt convert prices h).get "sma_200_signal" =
      .text (smaSignal (ta.close h) (some (ta.sma 200 h))) := by
    rw [get_storedRow ta fmt convert prices h (by decide)]
    simp [analysisSummary, generateSummaryStats, calculateTechnicalIndicators]
  have hrsi : (storedRow ta fmt convert prices h).get "rsi_signal" =
      .text (rsiSignal fmt (some (ta.rsi 14 h))) := by
    rw [get_storedRow ta fmt convert prices h (by decide)]
    simp [analysisSummary, generateSummaryStats, calculateTechnicalIndicators]
  have hmacd : (storedRow ta fmt convert prices h).get "macd_signal_text" =
      .text (macdSignalStr (some (ta.macd h)) (some (ta.macdSignal h))) := by
    rw [get_storedRow ta fmt convert prices h (by decide)]
    simp [analysisSummary, generateSummaryStats, calculateTechnicalIndicators]
  rw [bullishSignals, hsma50, hsma200, hrsi, hmacd, if_neg (smaSignal_not_counted _ _),
    if_neg (smaSignal_not_counted _ _), if_neg (rsiSignal_not_counted fmt _), Nat.zero_add]
  exact if_congr (macdSignalStr_counted_iff _ _) rfl rfl

/-- The conditions that hold and are not counted. -/
def missedConditions : Nat :=
  (if greater (ta.close h) (ta.sma 50 h) then 1 else 0) +
    (if greater (ta.close h) (ta.sma 200 h) then 1 else 0) +
      if (ta.rsi 14 h).any (fun x => x ≤ 30) then 1 else 0

theorem bullishConditions_eq :
    bullishConditions (calculateTechnicalIndicators ta h) =
      bullishSignals (storedRow ta fmt convert prices h) + missedConditions ta h := by
  rw [bullishSignals_storedRow, missedConditions, Nat.add_comm]
  rfl

/-- The count is right when no condition is missed. -/
theorem counted_iff :
    bullishSignals (storedRow ta fmt convert prices h) =
        bullishConditions (calculateTechnicalIndicators ta h) ↔
      greater (ta.close h) (ta.sma 50 h) = false ∧ greater (ta.close h) (ta.sma 200 h) = false ∧
        (ta.rsi 14 h).any (fun x => x ≤ 30) = false := by
  rw [bullishConditions_eq ta fmt convert prices h, Nat.left_eq_add, missedConditions]
  simp only [Nat.add_eq_zero_iff, ite_eq_right_iff, Nat.one_ne_zero, imp_false,
    Bool.not_eq_true, and_assoc]

/-- The signals of a history survive storage if and only if it has none of the indicators that the
bias is computed from, and its price is above neither average. -/
theorem signals_survive_iff :
    Survives (calculateTechnicalIndicators ta h) (storedRow ta fmt convert prices h) ↔
      ta.rsi 14 h = none ∧ ta.macd h = none ∧ ta.macdSignal h = none ∧
        greater (ta.close h) (ta.sma 50 h) = false ∧
          greater (ta.close h) (ta.sma 200 h) = false := by
  have hnull : ∀ key ∈ ["rsi_14", "macd", "macd_signal_line", "volume_spike", "price_direction"],
      (storedRow ta fmt convert prices h).get key = .null :=
    fun key hkey => get_of_no_column convert _ (no_column key hkey)
  constructor
  · intro hsurvives
    have hrsi := hsurvives.rsi
    have hmacd := hsurvives.macd
    have hsignal := hsurvives.macdSignal
    rw [hnull _ (by decide)] at hrsi hmacd hsignal
    obtain ⟨h50, h200, -⟩ := (counted_iff ta fmt convert prices h).mp hsurvives.counted
    exact ⟨hrsi.symm, hmacd.symm, hsignal.symm, h50, h200⟩
  · rintro ⟨hrsi, hmacd, hsignal, h50, h200⟩
    refine ⟨(counted_iff ta fmt convert prices h).mpr ⟨h50, h200, ?_⟩, ?_, ?_, ?_, ?_⟩
    · rw [hrsi]
      rfl
    · rw [hnull _ (by decide)]
      exact hrsi.symm
    · rw [hnull _ (by decide)]
      exact hmacd.symm
    · rw [hnull _ (by decide)]
      exact hsignal.symm
    · intro hextreme
      have hjoin : (calculateTechnicalIndicators ta h).rsi14.join = none := hrsi
      rw [hjoin, above_none, below_none] at hextreme
      exact absurd hextreme (by decide)

end Stored

/-! ## An overbought history -/

/-- A history in a strong upward trend. -/
def overboughtTa : Ta Unit where
  close := fun _ => some 120
  sma := fun days _ => if days = 50 then some 100 else some 90
  rsi := fun _ _ => some 80
  macd := fun _ => some 2
  macdSignal := fun _ => some 1

/-- A format for the sample. -/
def plainFormat : Format := ⟨fun _ => "80.0", fun _ x => .num x⟩

/-- The price is above both averages and the MACD above its signal line, but one of the three is
counted; the RSI is over 75, but it is not found, and there is no bias. -/
theorem overbought_signals_lost :
    let f := calculateTechnicalIndicators overboughtTa ()
    let row := storedRow overboughtTa plainFormat (fun _ v => v) Dict.empty ()
    bullishConditions f = 3 ∧ bullishSignals row = 1 ∧ f.rsi14 = some (some 80) ∧
      (row.get "rsi_14").number = none ∧ technicalBias row = (0, []) ∧ ¬ Survives f row := by
  have hcount : bullishSignals (storedRow overboughtTa plainFormat (fun _ v => v) Dict.empty ()) = 1 := by
    rw [bullishSignals_storedRow]
    decide
  refine ⟨by decide, hcount, rfl, ?_, technicalBias_insertAnalysisSummary _ _, ?_⟩
  · rw [storedRow, get_of_no_column _ _ (no_column "rsi_14" (by decide))]
    rfl
  · intro hsurvives
    have hconditions : bullishConditions (calculateTechnicalIndicators overboughtTa ()) = 3 := by decide
    have hcounted := hsurvives.counted
    rw [hcount, hconditions] at hcounted
    exact absurd hcounted (by decide)

end AsetPlatform.Recommendations.TechnicalSignals
