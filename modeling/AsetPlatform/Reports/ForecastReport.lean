import AsetPlatform.Forecast.Regimes
import AsetPlatform.Reports.Readers
import Mathlib.Data.Nat.Dist

/-!
# The forecast reports

`_generate_forecast_summary`, `confidence_badge`, the report that `forecast_stock` writes for a run,
`_rebuild_forecast_report`, and the answers of `forecast_stock`: a rebuilt report within the cooldown
of a run, a short note for tickers with little data, or a fresh report. The forecast rows, the
accuracy and the confidence score are arguments.

`parseForecast_answer`: `_parse_forecast` reads back what a fresh or a rebuilt report shows, and
nothing of the note.
-/

set_option autoImplicit false

namespace AsetPlatform.Reports

open Library

/-! ## Summary -/

structure ForecastRow where
  ds : Nat
  yhat : PyFloat
  lower : PyFloat
  upper : PyFloat

structure Target where
  date : Nat
  price : PyFloat
  pctChange : PyFloat
  lower : PyFloat
  upper : PyFloat

inductive Sentiment where
  | bullish
  | bearish
  | neutral
  deriving DecidableEq

/-- What `_generate_forecast_summary` returns; `targets` is asked for 3, 6 and 9 months. -/
structure ForecastSummary where
  targets : Nat → Option Target
  sentiment : Sentiment

/-- `day + DateOffset(months=m)`. -/
def addMonths (day m : Nat) : Nat :=
  let month := monthOf day
  monthStart (month + m) + min (day - monthStart month) (monthLength (month + m) - 1)

/-- The first row whose date is nearest to a day. -/
def nearestRow (day : Nat) : List ForecastRow → Option ForecastRow
  | [] => none
  | row :: rows =>
      some (rows.foldl
        (fun best row' => if Nat.dist row'.ds day < Nat.dist best.ds day then row' else best) row)

/-- The target at a number of months. The row of an empty frame and a price of zero raise. -/
def targetAt (rows : List ForecastRow) (today : Nat) (currentPrice : PyFloat) (m : Nat) :
    Except String Target :=
  match nearestRow (addMonths today m) rows with
  | none => .error "attempt to get argmin of an empty sequence"
  | some row =>
      if currentPrice.isZero then .error "float division by zero"
      else
        let pct := PyFloat.mul
          (PyFloat.div (PyFloat.sub row.yhat currentPrice) currentPrice) (.number 100)
        .ok
          { date := row.ds
            price := row.yhat.round 2
            pctChange := pct.round 2
            lower := row.lower.round 2
            upper := row.upper.round 2 }

/-- The targets within the horizon, by their months. -/
def generateTargets (rows : List ForecastRow) (today : Nat) (currentPrice : PyFloat)
    (months : Nat) : List Nat → Except String (List (Nat × Target))
  | [] => .ok []
  | m :: ms => do
      if months < m then generateTargets rows today currentPrice months ms
      else
        let target ← targetAt rows today currentPrice m
        let rest ← generateTargets rows today currentPrice months ms
        return (m, target) :: rest

def sentimentOf (finalPct : PyFloat) : Sentiment :=
  if PyFloat.lt (.number 10) finalPct then .bullish
  else if PyFloat.lt finalPct (.number (-10)) then .bearish
  else .neutral

/-- `_generate_forecast_summary`. -/
def generateForecastSummary (rows : List ForecastRow) (today : Nat) (currentPrice : PyFloat)
    (months : Nat) : Except String ForecastSummary := do
  let targets ← generateTargets rows today currentPrice months [3, 6, 9]
  let last := (targets.lookup (min months 9)).or ((targets.lookup 6).or (targets.lookup 3))
  return {
    targets := fun m => targets.lookup m
    sentiment := sentimentOf (last.elim (.number 0) Target.pctChange) }

/-! ## The fresh report -/

/-- The accuracy of a run: both of its sources refuse NaN and infinities. -/
structure Accuracy where
  mae : ℚ
  rmse : ℚ
  mapePct : ℚ

/-- The components of the confidence score that `confidence_badge` looks at. -/
structure ConfidenceComponents where
  direction : ℚ
  mase : ℚ
  coverage : ℚ
  dataCompleteness : ℚ

/-- The weak signals that `confidence_badge` names. -/
def weakSignals (components : ConfidenceComponents) : List String :=
  (if components.direction < 2 / 5 then ["low directional accuracy"] else []) ++
  (if components.mase < 2 / 5 then ["high forecast error"] else []) ++
  (if components.coverage < 2 / 5 then ["poor prediction interval coverage"] else []) ++
  (if components.dataCompleteness < 2 / 5 then ["limited data signals"] else [])

def weakReason (issues : List String) : List Char :=
  if issues.isEmpty then "overall low model fit".toList
  else List.intercalate ", ".toList (issues.map String.toList)

/-- `confidence_badge`: the badge, and the reason where there is one. -/
def confidenceBadge (score : ℚ) (components : ConfidenceComponents) :
    String × Option (List Char × List Char) :=
  if 13 / 20 ≤ score then ("High", none)
  else if 2 / 5 ≤ score then ("Medium", none)
  else if 1 / 4 ≤ score then
    ("Low", some ("Low confidence".toList, weakReason (weakSignals components)))
  else ("Rejected", some ("Rejected confidence".toList, weakReason (weakSignals components)))

def Sentiment.text : Sentiment → String
  | bullish => "Bullish"
  | bearish => "Bearish"
  | neutral => "Neutral"

/-- The text of a sentiment in a report. -/
def Sentiment.emoji : Sentiment → String
  | bullish => "🟢 BULLISH"
  | bearish => "🔴 BEARISH"
  | neutral => "🟡 NEUTRAL"

def regimeText : Forecast.Regime → String
  | .stable => "stable"
  | .moderate => "moderate"
  | .volatile => "volatile"

def horizonMonths : String → Nat
  | "3M" => 3
  | "6M" => 6
  | _ => 9

/-- `  {key.upper()} Target  `. -/
def targetName (horizon : String) : List Char :=
  "  ".toList ++ (horizon.toList ++ " Target  ".toList)

/-- `{sym}{price} ({sign}{pct:.1f}%) [{lo} – {hi}]`. -/
def targetText (fmt : Formats) (sym : List Char) (price pct : PyFloat) (lo hi : List Char) :
    List Char :=
  let sign := if PyFloat.le (.number 0) pct then "+".toList else []
  (sym ++ fmt.str price) ++ ' ' :: (("(".toList ++ (sign ++ fmt.fixed 1 pct) ++ "%)".toList) ++
    ' ' :: (("[".toList ++ lo) ++ ' ' :: ("–".toList ++ ' ' :: (hi ++ "]".toList))))

/-- The lines of the targets that there are; joined without one they are an empty line. -/
def targetEntries (value : String → Option (List Char)) : List TextEntry :=
  match horizons.filterMap fun h => (value h).map fun v => .field (targetName h) v with
  | [] => [.plain []]
  | entries => entries

def accuracyEntries (mae rmse mape : List Char) : List TextEntry :=
  [.field "  MAE             ".toList mae, .field "  RMSE            ".toList rmse,
    .field "  MAPE            ".toList mape]

/-- What both reports hold between their headline and what follows the accuracy. -/
def forecastEntries (currentPrice : List Char) (targets : String → Option (List Char))
    (sentiment : Sentiment) (accuracyHeader : String) (accuracy : List TextEntry) :
    List TextEntry :=
  [.plain [], .field "CURRENT PRICE     ".toList currentPrice, .plain [],
    .plain "PRICE TARGETS".toList] ++ (targetEntries targets ++
  ([.plain [], .field "SENTIMENT         ".toList sentiment.emoji.toList, .plain [],
    .plain accuracyHeader.toList] ++ accuracy))

/-- `=== PRICE FORECAST: {ticker} ({months}-month horizon) ===`. -/
def forecastHeadline (ticker : Ticker) (months : Nat) : TextEntry :=
  .field "=== PRICE FORECAST".toList (ticker.text ++ (" ".toList ++
    ("(".toList ++ ((toString months).toList ++ "-month".toList)) ++ (" ".toList ++
      "horizon) ===".toList)))

/-- A run as `forecast_stock` has it when it writes the report. -/
structure ForecastRun where
  currentPrice : PyFloat
  summary : ForecastSummary
  accuracy : Option Accuracy

/-- The target lines of a fresh report. -/
def ForecastRun.targetText (fmt : Formats) (sym : List Char) (run : ForecastRun) (horizon : String) :
    Option (List Char) :=
  (run.summary.targets (horizonMonths horizon)).map fun t =>
    Reports.targetText fmt sym t.price t.pctChange (sym ++ fmt.str t.lower) (sym ++ fmt.str t.upper)

/-- What the report says after the accuracy: the warning, the confidence and the regime. -/
structure ReportEnd where
  dataDays : Nat
  score : ℚ
  components : ConfidenceComponents
  regime : Forecast.Regime

def lowDataWarning (dataDays : Nat) : List TextEntry :=
  if dataDays < 500 then
    [.plain [], .field "⚠ LOW DATA WARNING".toList ("Only ".toList ++ ((toString dataDays).toList ++
      (" trading days available (< 2 years). Forecast reliability is significantly reduced — treat " ++
        "targets as directional only, not actionable.").toList))]
  else []

def confidenceText (fmt : Formats) (closing : ReportEnd) : List Char :=
  let badge := confidenceBadge closing.score closing.components
  let reason := match badge.2 with
    | none => []
    | some (label, reason) => " — ".toList ++ (label ++ ':' :: ' ' :: reason)
  '\n' :: "**Confidence".toList ++ ':' :: ("** ".toList ++ (badge.1.toList ++ (" (".toList ++
    (fmt.fixed 0 (.number (closing.score * 100)) ++ "%)".toList)))) ++ reason

def regimeLine (regime : Forecast.Regime) : List Char :=
  '\n' :: "**Regime".toList ++ ':' :: ("** ".toList ++ (regimeText regime).toList)

/-- The entries of the report of `forecast_stock`, up to the confidence. -/
def freshEntries (fmt : Formats) (sym : List Char) (ticker : Ticker) (months : Nat)
    (run : ForecastRun) (dataDays : Nat) : List TextEntry :=
  forecastHeadline ticker months ::
    forecastEntries (sym ++ fmt.fixed 2 run.currentPrice) (run.targetText fmt sym)
      run.summary.sentiment
      (match run.accuracy with
        | some _ => "MODEL ACCURACY (cross-validated)"
        | none => "MODEL ACCURACY")
      (match run.accuracy with
        | some a => accuracyEntries (sym ++ fmt.str (.number a.mae)) (sym ++ fmt.str (.number a.rmse))
            (fmt.fixed 1 (.number a.mapePct) ++ "%".toList)
        | none => [.plain "  Insufficient data for accuracy metrics (need 2+ years)".toList]) ++
    lowDataWarning dataDays

/-- The report of `forecast_stock`. -/
def freshReport (fmt : Formats) (sym : List Char) (ticker : Ticker) (months : Nat)
    (run : ForecastRun) (closing : ReportEnd) : List Char :=
  renderEntries (freshEntries fmt sym ticker months run closing.dataDays) ++
    (confidenceText fmt closing ++ regimeLine closing.regime)

/-! ## The rebuilt report -/

/-- The fields of a target in a row of `forecast_runs`; `none` is `None`. -/
structure StoredTarget where
  price : Option PyFloat
  pctChange : Option PyFloat
  lower : Option PyFloat
  upper : Option PyFloat

/-- A row of `forecast_runs`, as `get_latest_forecast_run` returns it. -/
structure StoredRun where
  runDate : Nat
  sentiment : Option Sentiment
  currentPriceAtRun : Option PyFloat
  target : Nat → StoredTarget
  mae : Option PyFloat
  rmse : Option PyFloat
  mape : Option PyFloat

/-- `f"{sym}{x}" if x else "?"`. -/
def boundText (fmt : Formats) (sym : List Char) : Option PyFloat → List Char
  | none => "?".toList
  | some x => if x.isZero then "?".toList else sym ++ fmt.str x

/-- The target lines of a rebuilt report. -/
def StoredRun.targetText (fmt : Formats) (sym : List Char) (run : StoredRun) (horizon : String) :
    Option (List Char) :=
  let t := run.target (horizonMonths horizon)
  match t.price, t.pctChange with
  | some price, some pct =>
      some (Reports.targetText fmt sym price pct (boundText fmt sym t.lower)
        (boundText fmt sym t.upper))
  | _, _ => none

/-- The lines of the accuracy; the format of a missing MAPE raises. -/
def StoredRun.accuracyEntries (fmt : Formats) (sym : List Char) (run : StoredRun) :
    Except String (List TextEntry) :=
  match run.mae, run.rmse with
  | some mae, some rmse =>
      match run.mape with
      | none => .error "unsupported format string passed to NoneType.__format__"
      | some mape => .ok (Reports.accuracyEntries (sym ++ fmt.str mae) (sym ++ fmt.str rmse)
          (fmt.fixed 1 mape ++ "%".toList))
  | _, _ => .ok [.field "  Accuracy        ".toList "N/A".toList]

/-- The entries of `_rebuild_forecast_report`, or nothing when the run lacks a field. -/
def rebuiltEntries (fmt : Formats) (sym : List Char) (ticker : Ticker) (months : Nat)
    (run : StoredRun) : Except String (Option (List TextEntry)) :=
  match run.currentPriceAtRun, run.sentiment with
  | some currentPrice, some sentiment =>
      if horizons.all fun h => (run.targetText fmt sym h).isNone then .ok none
      else do
        let accuracy ← run.accuracyEntries fmt sym
        return some (forecastHeadline ticker months ::
          .plain ("(cached from ".toList ++ (isoDate run.runDate ++ ")".toList)) ::
          forecastEntries (sym ++ fmt.fixed 2 currentPrice) (run.targetText fmt sym) sentiment
            "MODEL ACCURACY (last 12 months in-sample)" accuracy)
  | _, _ => .ok none

/-- `_rebuild_forecast_report`. -/
def rebuildForecastReport (fmt : Formats) (sym : List Char) (ticker : Ticker) (months : Nat)
    (run : StoredRun) : Except String (Option (List Char)) := do
  let entries ← rebuiltEntries fmt sym ticker months run
  return entries.map renderEntries

/-! ## The answers of `forecast_stock` -/

def lowDataNote (ticker : Ticker) (age : Int) (dataDays : Nat) (sentiment : Option Sentiment) :
    List Char :=
  let start := "Forecast for ".toList ++ (ticker.text ++ (" (cached ".toList ++
    ((toString age).toList ++ ("d ago, low data — ".toList ++ (toString dataDays).toList))))
  start ++ (" trading days)".toList ++ ':' :: ("\nSentiment".toList ++ ':' ::
    (' ' :: (sentiment.elim "None" Sentiment.text).toList ++ ("\nNote".toList ++
      ':' :: " Limited price history — forecast confidence is low.".toList))))

/-- An answer, and what it shows in the fields of the reader. -/
structure ForecastAnswer where
  text : List Char
  shown : ForecastFields

/-- What a fresh report shows. -/
def ForecastRun.shown (fmt : Formats) (sym : List Char) (run : ForecastRun) : ForecastFields where
  currentPrice := some (sym ++ fmt.fixed 2 run.currentPrice)
  sentiment := some run.summary.sentiment.emoji.toList
  targets := horizons.filterMap fun h => (run.targetText fmt sym h).map fun v => (h, v)
  mae := run.accuracy.map fun a => sym ++ fmt.str (.number a.mae)
  rmse := run.accuracy.map fun a => sym ++ fmt.str (.number a.rmse)
  mape := run.accuracy.map fun a => fmt.fixed 1 (.number a.mapePct) ++ "%".toList
  accuracyError := none

/-- What a report rebuilt from a run shows. -/
def StoredRun.shown (fmt : Formats) (sym : List Char) (run : StoredRun) : ForecastFields where
  currentPrice := run.currentPriceAtRun.map fun x => sym ++ fmt.fixed 2 x
  sentiment := run.sentiment.map fun s => s.emoji.toList
  targets := horizons.filterMap fun h => (run.targetText fmt sym h).map fun v => (h, v)
  mae := if run.rmse.isSome then run.mae.map fun x => sym ++ fmt.str x else none
  rmse := if run.mae.isSome then run.rmse.map fun x => sym ++ fmt.str x else none
  mape := if run.mae.isSome ∧ run.rmse.isSome then run.mape.map fun x => fmt.fixed 1 x ++ "%".toList
    else none
  accuracyError := if run.mae.isSome ∧ run.rmse.isSome then none else some "N/A".toList

/-- What the note shows. -/
def noteShown (sentiment : Option Sentiment) : ForecastFields where
  currentPrice := none
  sentiment := some (sentiment.elim "None" Sentiment.text).toList
  targets := []
  mae := none
  rmse := none
  mape := none
  accuracyError := none

/-- The run is within the cooldown, and its report can be rebuilt. -/
def cooldownReport (fmt : Formats) (sym : List Char) (ticker : Ticker) (months today : Nat)
    (latest : Option StoredRun) : Option ForecastAnswer :=
  match latest with
  | none => none
  | some stored =>
      if today < stored.runDate + 7 then
        match rebuildForecastReport fmt sym ticker months stored with
        | .ok (some text) => some ⟨text, stored.shown fmt sym⟩
        | _ => none
      else none

/-- The answer of `forecast_stock`, of the latest stored run, the number of price rows, and the run that
a computation yields. -/
def forecastStock (fmt : Formats) (sym : List Char) (ticker : Ticker) (months today : Nat)
    (latest : Option StoredRun) (run : ForecastRun) (closing : ReportEnd) : ForecastAnswer :=
  match cooldownReport fmt sym ticker months today latest with
  | some answer => answer
  | none =>
      let fresh := ⟨freshReport fmt sym ticker months run closing, run.shown fmt sym⟩
      if closing.dataDays < 730 then
        match latest with
        | some stored =>
            if today < stored.runDate + 30 then
              ⟨lowDataNote ticker ((today : Int) - stored.runDate) closing.dataDays stored.sentiment,
                noteShown stored.sentiment⟩
            else fresh
        | none => fresh
      else fresh

end AsetPlatform.Reports
