import AsetPlatform.Jobs.Finalize
import AsetPlatform.Library.Frames
import AsetPlatform.Reports.PriceAnalysis
import AsetPlatform.StockData.Quarterly

/-!
# Tier-1 features

`compute_tier1_features` of `backend/tools/_forecast_features.py`; the writes of `stocks/repository.py`
to `analysis_summary`, `piotroski_scores` and `quarterly_results`, with the columns they name; the batch
reads of the three tables, and the part of `execute_run_forecasts` that hands what they return to the
features.

The features get a row as a dict, by the names of its columns. Of the columns that no feature looks for,
the names are kept, and the values are left open.
-/

set_option autoImplicit false

namespace AsetPlatform.Forecast.Tier1

open AsetPlatform.Library StockData.Quarterly Reports

/-! ## Rows as dicts -/

inductive Value where
  | none
  | float (x : PyFloat)
  | int (n : Int)
  | text (s : List Char)
  | other

/-- `row.to_dict()` -/
abbrev Record := List (String × Value)

def Record.get (r : Record) (key : String) : Value := (r.lookup key).getD .none

/-- `float(value)`; `none` when it raises. -/
def toFloat : Value → Option PyFloat
  | .float x => some x
  | .int n => some (.number n)
  | .text s => readFloat s
  | _ => none

/-! ## The features -/

structure Features where
  volatilityRegime : PyFloat
  trendStrength : PyFloat
  srPosition : PyFloat
  piotroski : PyFloat
  revenueGrowth : PyFloat
  epsGrowth : PyFloat
  deriving DecidableEq

/-- `max(lo, min(hi, x))` -/
def clip (lo hi x : PyFloat) : PyFloat :=
  let m := if x.lt hi then x else hi
  if lo.lt m then m else lo

/-- `_safe_growth` -/
def safeGrowth (curr prev : Value) : PyFloat :=
  match toFloat curr, toFloat prev with
  | some c, some p =>
      if c.isNaN || p.isNaN then .number 0
      else if p.isZero then .number 0
      else clip (.number (-1)) (.number 1) ((c.sub p).div (if p.negative then p.neg else p))
  | _, _ => .number 0

/-- `value is not None and not math.isnan(float(value))`, with the float; `float` may raise. -/
def present : Value → Except Unit (Option PyFloat)
  | .none => .ok none
  | value =>
      match toFloat value with
      | none => .error ()
      | some x => .ok (if x.isNaN then none else some x)

/-- Two values that are both there; both are compared with `None` first. -/
def bothPresent : Value → Value → Except Unit (Option (PyFloat × PyFloat))
  | .none, _ => .ok none
  | _, .none => .ok none
  | v, w => do
      match ← present v with
      | none => return none
      | some x => return (← present w).map fun y => (x, y)

/-- The place of a price between a support and a resistance, 0 when there is nothing between them. -/
def levelPosition (price sup res : PyFloat) : PyFloat :=
  let span := res.sub sup
  if PyFloat.lt (.number 0) span then
    clip (.number 0) (.number 1) ((price.sub sup).div span)
  else .number 0

def neutral : Features :=
  ⟨.number 0, .number 0, .number 0, .number 0, .number 0, .number 0⟩

/-- The features of the analysis summary. What raises leaves those before it. -/
def analysisFeatures (price : PyFloat) (row : Record) (out : Features) : Features :=
  match present (row.get "annualized_volatility_pct") with
  | .error _ => out
  | .ok vol =>
      let out := vol.elim out fun x => { out with volatilityRegime := x.div (.number 100) }
      match bothPresent (row.get "bull_phase_pct") (row.get "bear_phase_pct") with
      | .error _ => out
      | .ok phases =>
          let out := phases.elim out fun p =>
            { out with trendStrength := (p.1.sub p.2).div (.number 100) }
          match bothPresent (row.get "support_levels") (row.get "resistance_levels") with
          | .error _ => out
          | .ok levels =>
              levels.elim out fun l => { out with srPosition := levelPosition price l.1 l.2 }

def piotroskiFeature (row : Record) (out : Features) : Features :=
  match present (row.get "f_score") with
  | .ok (some score) => { out with piotroski := score.div (.number 9) }
  | _ => out

def quarterlyFeatures (rows : List Record) (out : Features) : Features :=
  match rows with
  | curr :: prev :: _ =>
      { out with
        revenueGrowth := safeGrowth (curr.get "total_revenue") (prev.get "total_revenue")
        epsGrowth := safeGrowth (curr.get "diluted_eps") (prev.get "diluted_eps") }
  | _ => out

/-- `compute_tier1_features`; no dict of a row is empty. -/
def computeTier1Features (analysisRow piotroskiRow : Option Record)
    (quarterlyRows : Option (List Record)) (currentPrice : PyFloat) : Features :=
  let out := analysisRow.elim neutral fun row => analysisFeatures currentPrice row neutral
  let out := piotroskiRow.elim out fun row => piotroskiFeature row out
  quarterlyFeatures (quarterlyRows.getD []) out

/-! ## Tables -/

structure AnalysisRow where
  ticker : String
  bullPhasePct : Option ℚ
  bearPhasePct : Option ℚ
  annualizedVolatilityPct : Option ℚ
  supportLevels : Option (List Char)
  resistanceLevels : Option (List Char)
  computedAt : Nat

structure PiotroskiRow where
  ticker : String
  scoreDate : Nat
  totalScore : Int

/-- A null float is NaN in a frame. -/
def floatCell (x : Option ℚ) : Value := .float (x.elim .nan .number)

/-- A null text stays `None`. -/
def textCell (s : Option (List Char)) : Value := s.elim .none .text

def AnalysisRow.record (r : AnalysisRow) : Record :=
  [("summary_id", .other), ("ticker", .text r.ticker.toList), ("analysis_date", .other),
    ("bull_phase_pct", floatCell r.bullPhasePct), ("bear_phase_pct", floatCell r.bearPhasePct),
    ("max_drawdown_pct", .other), ("max_drawdown_duration_days", .other),
    ("annualized_volatility_pct", floatCell r.annualizedVolatilityPct),
    ("annualized_return_pct", .other), ("sharpe_ratio", .other), ("all_time_high", .other),
    ("all_time_high_date", .other), ("all_time_low", .other), ("all_time_low_date", .other),
    ("support_levels", textCell r.supportLevels), ("resistance_levels", textCell r.resistanceLevels),
    ("sma_50_signal", .other), ("sma_200_signal", .other), ("rsi_signal", .other),
    ("macd_signal_text", .other), ("best_month", .other), ("worst_month", .other),
    ("best_year", .other), ("worst_year", .other), ("computed_at", .other)]

def PiotroskiRow.record (r : PiotroskiRow) : Record :=
  [("score_id", .other), ("ticker", .text r.ticker.toList), ("score_date", .other),
    ("total_score", .int r.totalScore), ("label", .other), ("roa_positive", .other),
    ("operating_cf_positive", .other), ("roa_increasing", .other), ("cf_gt_net_income", .other),
    ("leverage_decreasing", .other), ("current_ratio_increasing", .other), ("no_dilution", .other),
    ("gross_margin_increasing", .other), ("asset_turnover_increasing", .other),
    ("market_cap", .other), ("revenue", .other), ("avg_volume", .other), ("sector", .other),
    ("industry", .other), ("company_name", .other), ("computed_at", .other)]

/-- The metric columns of `quarterly_results`, in the order of the schema. -/
def metricColumns : List String :=
  ["revenue", "net_income", "gross_profit", "operating_income", "ebitda", "eps_basic", "eps_diluted",
    "total_assets", "total_liabilities", "total_equity", "total_debt", "cash_and_equivalents",
    "operating_cashflow", "capex", "free_cashflow", "current_assets", "current_liabilities",
    "shares_outstanding"]

def metricCell : Cell → Value
  | .null => .float .nan
  | .nan => .float .nan
  | .inf negative => .float (.inf negative)
  | .finite x => .float (.number x)

def quarterRecord (r : QuarterRow) : Record :=
  [("ticker", .text r.ticker.toList), ("quarter_end", .other), ("fiscal_year", .other),
    ("fiscal_quarter", .other), ("statement_type", .text r.statementType.toList)] ++
  (metricColumns.zip (r.metrics.map metricCell) ++ [("updated_at", .other)])

structure Store where
  analysis : List AnalysisRow
  piotroski : List PiotroskiRow
  quarterly : List QuarterRow

/-! ## Writes -/

/-- `_safe_float` -/
def safeFloat : PyFloat → Option ℚ
  | .number x => some x
  | _ => none

/-- `insert_analysis_summary` of what `analyse_stock_price` passes on; the levels are texts of lists. -/
def insertAnalysisSummary (fmt : Formats) (now : Nat) (deleteFails : Bool) (t : List AnalysisRow)
    (ticker : String) (movement : Movement) : List AnalysisRow :=
  (if deleteFails then t else t.filter (·.ticker ≠ ticker)) ++
    [{ ticker := ticker
       bullPhasePct := safeFloat movement.bullPhasePct
       bearPhasePct := safeFloat movement.bearPhasePct
       annualizedVolatilityPct := safeFloat movement.annualizedVolatilityPct
       supportLevels := some (listText fmt movement.supportLevels)
       resistanceLevels := some (listText fmt movement.resistanceLevels)
       computedAt := now }]

/-- `insert_piotroski_scores`, which raises when the scores are of several dates. -/
def insertPiotroskiScores (deleteFails : Bool) (t scores : List PiotroskiRow) : List PiotroskiRow :=
  if scores.any fun s => scores.any fun s' => s.scoreDate ≠ s'.scoreDate then t
  else
    (if deleteFails then t else t.filter (·.ticker ∉ scores.map PiotroskiRow.ticker)) ++ scores

inductive Write where
  | analysis (ticker : String) (movement : Movement) (now : Nat) (deleteFails : Bool)
  | piotroski (scores : List PiotroskiRow) (deleteFails : Bool)
  | quarterly (ticker : String) (df : List QuarterRow) (now : Nat)
  | batchQuarterly (results : List Result) (now : Nat) (deleteFails : Bool)

def Store.apply (fmt : Formats) (s : Store) : Write → Store
  | .analysis ticker movement now deleteFails =>
      { s with analysis := insertAnalysisSummary fmt now deleteFails s.analysis ticker movement }
  | .piotroski scores deleteFails =>
      { s with piotroski := insertPiotroskiScores deleteFails s.piotroski scores }
  | .quarterly ticker df now =>
      { s with quarterly := insertQuarterlyResults now s.quarterly ticker df }
  | .batchQuarterly results now deleteFails =>
      { s with quarterly := batchWrite now s.quarterly results deleteFails }

/-- The tables after some writes. -/
def stored (fmt : Formats) (writes : List Write) : Store :=
  writes.foldl (Store.apply fmt) ⟨[], [], []⟩

/-! ## Reads -/

/-- `sort_values` by one column; rows with the same value may come in any order. -/
structure Sorts where
  byComputedAt : List AnalysisRow → List AnalysisRow
  byScoreDate : List PiotroskiRow → List PiotroskiRow
  byQuarterEnd : List QuarterRow → List QuarterRow
  computedAt : SortsUp AnalysisRow.computedAt byComputedAt
  scoreDate : SortsDown PiotroskiRow.scoreDate byScoreDate
  quarterEnd : SortsDown QuarterRow.quarterEnd byQuarterEnd

section Reads

variable (S : Sorts) (store : Store) (tickers : List String)

/-- `get_analysis_summary_batch` -/
def getAnalysisSummaryBatch : List AnalysisRow :=
  lastPerKey AnalysisRow.ticker <|
    S.byComputedAt (store.analysis.filter fun r => r.ticker ∈ tickers.map asciiUpper)

/-- `_analysis_cache.get` -/
def analysisCache (ticker : String) : Option AnalysisRow :=
  (getAnalysisSummaryBatch S store tickers).find? (·.ticker = ticker)

/-- `get_piotroski_scores_batch`, the first row of a ticker; no key is empty. -/
def getPiotroskiScoresBatch (ticker : String) : Option PiotroskiRow :=
  if ticker = "" then none
  else (S.byScoreDate (store.piotroski.filter (·.ticker ∈ tickers))).find? (·.ticker = ticker)

/-- `get_quarterly_results_batch`, two rows of a ticker at most. -/
def getQuarterlyResultsBatch (ticker : String) : Option (List QuarterRow) :=
  match (S.byQuarterEnd (store.quarterly.filter (·.ticker ∈ tickers))).filter (·.ticker = ticker) with
  | [] => none
  | rows => some (rows.take 2)

/-- The tier-1 features of a ticker in `execute_run_forecasts`. -/
def forecastTier1 (registry : Jobs.Registry) (ticker : String) (currentPrice : ℚ) : Features :=
  let yf := Jobs.yfTicker registry ticker
  computeTier1Features ((analysisCache S store tickers yf).map AnalysisRow.record)
    ((getPiotroskiScoresBatch S store tickers yf).map PiotroskiRow.record)
    ((getQuarterlyResultsBatch S store tickers yf).map fun rows => rows.map quarterRecord)
    (.number currentPrice)

end Reads

end AsetPlatform.Forecast.Tier1
