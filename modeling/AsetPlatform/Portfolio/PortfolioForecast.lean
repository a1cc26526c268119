import AsetPlatform.Library.ForwardFill
import AsetPlatform.Library.Frames
import AsetPlatform.Portfolio.Performance

/-!
# The forecast of a portfolio

`_build_portfolio_forecast` of `backend/dashboard_routes.py`: the latest nine-month forecast of each
held ticker with a close, weighted by what is held, and added up on every date of one of them. A
series is carried past its own dates; before its first date it adds nothing. A weight is the quantity
of the last group of a ticker.
-/

set_option autoImplicit false

namespace AsetPlatform.Portfolio.PortfolioForecast

open AsetPlatform.Library Dashboard Performance

/-- A row of the forecasts table; a missing value is null or NaN. -/
structure FcRow where
  ticker : String
  horizonMonths : Nat
  runDate : Int
  forecastDate : Int
  predictedPrice : Option ℚ
  lowerBound : Option ℚ
  upperBound : Option ℚ
  deriving DecidableEq

/-- The frame of `get_portfolio_holdings`. -/
structure HoldingsFrame where
  rows : List Holding
  positive : ∀ h ∈ rows, 0 < h.quantity

theorem holdingsOf_positive (user : UserId) (rows : List Row) :
    ∀ h ∈ holdingsOf user rows, 0 < h.quantity := by
  intro h hMem
  exact of_decide_eq_true (List.mem_filter.mp hMem).2

def holdingsFrame (user : UserId) (rows : List Row) : HoldingsFrame :=
  ⟨holdingsOf user rows, holdingsOf_positive user rows⟩

/-- What the forecast is made of. Rows of one date come out of `sort_values` in some order. -/
structure Input where
  holdings : HoldingsFrame
  currency : String
  prices : Prices
  forecasts : List FcRow
  sort : List FcRow → List FcRow
  sorts : SortsUp FcRow.forecastDate sort

/-- Prediction, lower and upper bound, of a ticker or in total. -/
structure Band where
  pred : Option ℚ
  lower : Option ℚ
  upper : Option ℚ
  deriving DecidableEq

def FcRow.band (r : FcRow) : Band := ⟨r.predictedPrice, r.lowerBound, r.upperBound⟩

def Band.zero : Band := ⟨some 0, some 0, some 0⟩

/-- `pred += qty * vals[0]`, and so on. -/
def Band.add (total : Band) (qty : ℚ) (vals : Band) : Band where
  pred := plus total.pred (scaled qty vals.pred)
  lower := plus total.lower (scaled qty vals.lower)
  upper := plus total.upper (scaled qty vals.upper)

/-! ## Gathering -/

namespace Input

variable (x : Input)

/-- The groups of the currency. -/
def held : List Holding := x.holdings.rows.filter fun h => isCurrencyMatch h.ticker x.currency

/-- `valid.iloc[-1]["close"]` -/
def curPrice (t : String) : Option ℚ := ((x.prices.series t).filterMap PriceRow.close).getLast?

/-- The latest run of the nine-month forecasts of a ticker, sorted by date. -/
def latestRun (t : String) : Option (List FcRow) :=
  let fcDf := x.forecasts.filter fun r => r.ticker = t ∧ r.horizonMonths = 9
  (fcDf.map FcRow.runDate).max?.map fun run => x.sort (fcDf.filter (·.runDate = run))

end Input

structure Gathered where
  forecasts : Dict String (List FcRow) := .empty
  weights : Dict String ℚ := .empty
  currentValue : ℚ := 0
  totalInvested : ℚ := 0

/-- One turn of the loop over the holdings. -/
def gather (x : Input) (g : Gathered) (h : Holding) : Gathered :=
  match x.curPrice h.ticker with
  | none => g
  | some curPrice =>
      let avgP := if h.avgPrice ≤ 0 then curPrice else h.avgPrice
      { forecasts := match x.latestRun h.ticker with
          | none => g.forecasts
          | some fcDf => g.forecasts.set h.ticker fcDf
        weights := g.weights.set h.ticker h.quantity
        currentValue := g.currentValue + h.quantity * curPrice
        totalInvested := g.totalInvested + h.quantity * avgP }

def Input.gathered (x : Input) : Gathered := x.held.foldl (gather x) {}

/-! ## Aggregation -/

/-- `fc_maps` -/
def Gathered.fcMaps (g : Gathered) (t : String) : Option (Dict Int Band) :=
  (g.forecasts.get? t).map (dateMap FcRow.forecastDate FcRow.band)

def Gathered.sortedDates (g : Gathered) : List Int :=
  (g.forecasts.entries.flatMap fun e => e.2.map FcRow.forecastDate).dedup.insertionSort (· ≤ ·)

/-- One turn of the loop over the weights, with the totals and `last_known`. -/
def addWeight (fcMaps : String → Option (Dict Int Band)) (d : Int) (state : Band × Dict String Band)
    (weight : String × ℚ) : Band × Dict String Band :=
  match fcMaps weight.1 with
  | none => state
  | some m =>
      match m.get? d with
      | some vals => (state.1.add weight.2 vals, state.2.set weight.1 vals)
      | none =>
          match state.2.get? weight.1 with
          | some vals => (state.1.add weight.2 vals, state.2)
          | none => state

structure Point where
  date : Int
  predicted : Option ℚ
  lower : Option ℚ
  upper : Option ℚ
  deriving DecidableEq

/-- The loop over the dates. -/
def aggregate (fcMaps : String → Option (Dict Int Band)) (weights : List (String × ℚ)) :
    List Int → Dict String Band → List Point
  | [], _ => []
  | d :: ds, lastKnown =>
      let (total, known) := weights.foldl (addWeight fcMaps d) (.zero, lastKnown)
      if above total.pred 0 then
        ⟨d, total.pred.map round2, total.lower.map round2, total.upper.map round2⟩ ::
          aggregate fcMaps weights ds known
      else aggregate fcMaps weights ds known

structure Response where
  data : List Point := []
  horizonMonths : Nat
  currentValue : ℚ := 0
  totalInvested : ℚ := 0
  currency : String := "USD"
  deriving DecidableEq

/-- `_build_portfolio_forecast` -/
def buildPortfolioForecast (x : Input) (horizon : Nat) : Response :=
  if x.held = [] then { horizonMonths := horizon, currency := x.currency }
  else
    let g := x.gathered
    if g.forecasts.entries = [] then
      { horizonMonths := horizon
        currentValue := round2 g.currentValue
        totalInvested := round2 g.totalInvested }
    else
      { data := aggregate g.fcMaps g.weights.entries g.sortedDates .empty
        horizonMonths := horizon
        currentValue := round2 g.currentValue
        totalInvested := round2 g.totalInvested
        currency := x.currency }

end AsetPlatform.Portfolio.PortfolioForecast
