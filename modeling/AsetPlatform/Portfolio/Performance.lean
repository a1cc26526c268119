import AsetPlatform.Library.Text
import AsetPlatform.Portfolio.DashboardCache

/-!
# The performance of a portfolio

`_build_portfolio_performance` of `backend/dashboard_routes.py`: the buys of a currency are valued on
every date on which one of their tickers has a close, the days of a period are kept, and the daily
profit is what is left of a change of value without the capital that is added. Amounts are exact
rationals, rounded where the source rounds.

The annualized return and the Sharpe ratio, which take roots, are left out.
-/

set_option autoImplicit false

namespace AsetPlatform.Portfolio.Performance

open AsetPlatform.Library

/-! ## Closes -/

/-- A row of the price table; a missing close is null or NaN. -/
structure PriceRow where
  ticker : String
  date : Int
  close : Option ℚ
  deriving DecidableEq

/-- The price table has one row for a ticker and a day. -/
structure Prices where
  rows : List PriceRow
  nodup : (rows.map fun r => (r.ticker, r.date)).Nodup

/-- The rows of a ticker, sorted by their dates. -/
def Prices.series (prices : Prices) (ticker : String) : List PriceRow :=
  (prices.rows.filter (·.ticker = ticker)).insertionSort fun r r' => r.date ≤ r'.date

/-- `ffill` of the closes, without the rows before the first close; `last` is the close above. -/
def ffillCloses (last : Option ℚ) : List PriceRow → List (Int × ℚ)
  | [] => []
  | r :: rs =>
      match r.close.or last with
      | none => ffillCloses none rs
      | some c => (r.date, c) :: ffillCloses (some c) rs

abbrev CloseMap := List (Int × ℚ)

/-- An entry of `close_maps`, for a ticker with rows. -/
def closeMap (prices : Prices) (ticker : String) : Option CloseMap :=
  if prices.series ticker = [] then none else some (ffillCloses none (prices.series ticker))

/-! ## Lots -/

/-- `_is_currency_match` -/
def isCurrencyMatch (ticker currency : String) : Bool :=
  (currency = "INR" && Dashboard.detectMarket ticker = "india") ||
    (currency = "USD" && Dashboard.detectMarket ticker = "us")

/-- The transactions of a user, and the price table. -/
structure Input where
  transactions : List Row
  currency : String
  prices : Prices

namespace Input

variable (x : Input)

def buys : List Row :=
  x.transactions.filter fun row => row.side = "BUY" ∧ isCurrencyMatch row.ticker x.currency

def tickers : List String := (x.buys.map Row.ticker).dedup

end Input

structure Lot where
  ticker : String
  qty : ℚ
  tradeDate : Option Int
  buyPrice : ℚ
  deriving DecidableEq

/-- The lot of a buy, unless its ticker has no rows. A price that is not positive is replaced by the
close on the trade date. -/
def lotOf (prices : Prices) (row : Row) : Option Lot :=
  (closeMap prices row.ticker).map fun cm =>
    { ticker := row.ticker
      qty := row.quantity
      tradeDate := row.tradeDate
      buyPrice := if row.price ≤ 0 then (row.tradeDate.bind (cm.lookup ·)).getD 0 else row.price }

def Input.lots (x : Input) : List Lot := x.buys.filterMap (lotOf x.prices)

/-! ## Days -/

/-- `sorted_dates`, all dates of the close maps. -/
def Input.sortedDates (x : Input) : List Int :=
  ((x.tickers.filterMap (closeMap x.prices)).flatMap fun cm => cm.map Prod.fst).dedup.insertionSort
    (· ≤ ·)

/-- A close map carried from its own end to that of the series. -/
def extended (sortedDates : List Int) (cm : CloseMap) : CloseMap :=
  match (cm.map Prod.fst).max?, sortedDates.getLast? with
  | some tickerMax, some seriesEnd =>
      if seriesEnd ≤ tickerMax then cm
      else
        let carry := (cm.lookup tickerMax).getD 0
        cm ++ (sortedDates.filter (tickerMax < ·)).map fun d => (d, carry)
  | _, _ => cm

/-- What a lot adds to the value of a day, and to what is invested. -/
def Input.contribution (x : Input) (d : Int) (lot : Lot) : Option (ℚ × ℚ) :=
  -- a transaction without a trade date comes after every date
  if lot.tradeDate.all (d < ·) then none
  else
    ((closeMap x.prices lot.ticker).bind fun cm => (extended x.sortedDates cm).lookup d).map
      fun price => (lot.qty * price, lot.qty * lot.buyPrice)

/-- `val` and `inv`, after the loop over the lots. -/
def Input.dayTotals (x : Input) (d : Int) : ℚ × ℚ :=
  x.lots.foldl
    (fun totals lot =>
      match x.contribution d lot with
      | none => totals
      | some (value, cost) => (totals.1 + value, totals.2 + cost))
    (0, 0)

/-- `round(x, 2)` and `round(x, 4)`, or the exact values. -/
structure Rounding where
  two : ℚ → ℚ
  four : ℚ → ℚ

def Rounding.decimal : Rounding := ⟨round2, round4⟩

def Rounding.exact : Rounding := ⟨id, id⟩

/-- A day with its value and what is invested. -/
structure Day where
  date : Int
  value : ℚ
  invested : ℚ
  deriving DecidableEq

/-- `values`, before the period is cut out. -/
def Input.values (x : Input) (r : Rounding) : List Day :=
  x.sortedDates.filterMap fun d =>
    if 0 < (x.dayTotals d).1 then some ⟨d, r.two (x.dayTotals d).1, r.two (x.dayTotals d).2⟩ else none

/-- `_PERIOD_DAYS`, by the upper case of a period. -/
def periodDays : List (String × Int) :=
  [("1D", 1), ("1W", 7), ("1M", 30), ("3M", 90), ("6M", 180), ("1Y", 365)]

def inPeriod (period : String) (values : List Day) : List Day :=
  match periodDays.lookup (asciiUpper period), values.getLast? with
  | some days, some last => values.filter (last.date - days ≤ ·.date)
  | _, _ => values

/-! ## Points -/

structure DailyPoint where
  date : Int
  value : ℚ
  investedValue : ℚ
  dailyPnl : ℚ
  dailyReturnPct : ℚ
  deriving DecidableEq

/-- The points after a day. Capital that is added is not profit. -/
def pointsAfter (r : Rounding) (prev : Day) : List Day → List DailyPoint
  | [] => []
  | day :: rest =>
      let cashflow := day.invested - prev.invested
      let gain := day.value - prev.value - cashflow
      { date := day.date
        value := day.value
        investedValue := day.invested
        dailyPnl := r.two gain
        dailyReturnPct := if prev.value ≠ 0 then r.four (gain / prev.value * 100) else 0 } ::
        pointsAfter r day rest

def dailyPoints (r : Rounding) : List Day → List DailyPoint
  | [] => []
  | day :: rest => ⟨day.date, day.value, day.invested, 0, 0⟩ :: pointsAfter r day rest

/-! ## Metrics -/

/-- The gain in percent of what is invested. -/
def gainPct (day : Day) : ℚ :=
  if day.invested ≠ 0 then (day.value - day.invested) / day.invested * 100 else 0

/-- The loop over the gains, with the peak so far. -/
def drawdownLoop : List Day → Option ℚ → ℚ → ℚ
  | [], _, maxDd => maxDd
  | day :: rest, peak, maxDd =>
      let g := gainPct day
      let peak := match peak with
        | none => g
        | some p => if p < g then g else p
      let dd := g - peak
      drawdownLoop rest (some peak) (if dd < maxDd then dd else maxDd)

structure Metrics where
  totalReturnPct : ℚ
  maxDrawdownPct : ℚ
  bestDay : Option (Int × ℚ)
  worstDay : Option (Int × ℚ)

def firstExtreme (better : ℚ → ℚ → Bool) : List DailyPoint → Option DailyPoint
  | [] => none
  | p :: rest =>
      match firstExtreme better rest with
      | none => some p
      | some q => if better q.dailyReturnPct p.dailyReturnPct then some q else some p

def metricsOf (r : Rounding) (values : List Day) (points : List DailyPoint) : Metrics where
  totalReturnPct :=
    r.two (match values.getLast? with
      | some last =>
          if last.invested ≠ 0 then (last.value - last.invested) / last.invested * 100 else 0
      | none => 0)
  maxDrawdownPct := r.two (drawdownLoop values none 0)
  bestDay := (firstExtreme (fun a b => b < a) points.tail).map fun p => (p.date, r.two p.dailyReturnPct)
  worstDay := (firstExtreme (fun a b => a < b) points.tail).map fun p => (p.date, r.two p.dailyReturnPct)

structure Response where
  data : List DailyPoint := []
  metrics : Option Metrics := none
  currency : String
  staleTickers : List (String × Int × Int) := []

def lastValidClose (prices : Prices) (ticker : String) : Option Int :=
  ((prices.series ticker).filter (·.close.isSome)).getLast?.map PriceRow.date

/-- The held tickers whose last close is before the end of the series, and by how many days. -/
def staleTickers (x : Input) (seriesEnd : Int) : List (String × Int × Int) :=
  ((x.lots.map Lot.ticker).dedup.insertionSort (· ≤ ·)).filterMap fun t =>
    (lastValidClose x.prices t).bind fun d =>
      if seriesEnd ≤ d then none else some (t, d, seriesEnd - d)

/-- `_build_portfolio_performance` -/
def buildPortfolioPerformance (r : Rounding) (x : Input) (period : String) : Response :=
  let values := inPeriod period (x.values r)
  if values.length < 2 then { currency := x.currency }
  else
    let points := dailyPoints r values
    { data := points
      metrics := some (metricsOf r values points)
      currency := x.currency
      staleTickers := (values.getLast?.map fun last => staleTickers x last.date).getD [] }

end AsetPlatform.Portfolio.Performance
