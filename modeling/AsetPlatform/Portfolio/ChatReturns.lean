import AsetPlatform.Library.FilledColumns
import AsetPlatform.Library.LastEntries
import AsetPlatform.Library.Rows
import AsetPlatform.Portfolio.KnownCloses
import AsetPlatform.Portfolio.ValueMetrics
import Mathlib.Data.Finset.Sort

/-!
# Returns of the portfolio tools

`get_portfolio_performance` and `_compute_daily_portfolio` of `backend/tools/portfolio_tools.py`, on the
holdings of `StockRepository.get_portfolio_holdings`: the closes of each ticker, times the quantity held,
are columns of one frame, gaps are filled, and the rows are summed. The first fills forward only, so the
value jumps when a ticker starts late; both let a later group of a ticker replace an earlier one, and the
second counts what was paid for a ticker without closes (`returnsFromPrices_iff`).

The annualized figures, the best and the worst day are left out.
-/

set_option autoImplicit false

namespace AsetPlatform.Portfolio.Chat

open AsetPlatform.Library
open AsetPlatform.Portfolio.Performance (PriceRow Prices)
open AsetPlatform.Portfolio.Dashboard (Holding)

/-! ## The frame -/

/-- The dates that are asked for; the end may be open. -/
structure Window where
  start : Int
  last : Option Int

def Window.contains (w : Window) (d : Int) : Bool := w.start ≤ d ∧ w.last.all (d ≤ ·)

/-- `get_ohlcv` -/
def getOhlcv (T : CharTables) (prices : Prices) (ticker : String) (w : Window) : List PriceRow :=
  (prices.series (String.ofList (T.upper ticker.toList))).filter fun r => w.contains r.date

/-- A column of the frame. -/
structure Column where
  dates : List Int
  value : Int → Option ℚ

/-- `ohlcv["close"].astype(float) * qty` -/
def columnOf (ohlcv : List PriceRow) (qty : ℚ) : Column where
  dates := ohlcv.map (·.date)
  value t := ((ohlcv.find? (·.date = t)).bind (·.close)).map (· * qty)

/-- A way to fill a column on the rows of a frame. -/
abbrev Fill := Finset Int → (Int → Option ℚ) → Int → Option ℚ

/-- Holdings, and the prices that are asked for. -/
structure Book where
  tables : CharTables
  prices : Prices
  held : List Holding
  window : Window

namespace Book

variable (b : Book)

def ohlcv (h : Holding) : List PriceRow := getOhlcv b.tables b.prices h.ticker b.window

/-- `all_prices` and `ticker_series`, after the loop over the holdings. -/
def tickerSeries : Dict String Column :=
  b.held.foldl
    (fun series h =>
      if b.ohlcv h = [] then series
      else series.set h.ticker (columnOf (b.ohlcv h) h.quantity))
    .empty

/-- The rows of the frame. -/
def frameDays : Finset Int := (b.tickerSeries.entries.flatMap fun e => e.2.dates).toFinset

/-- The rows that `dropna(how="all")` leaves. -/
def daysKept (fill : Fill) : Finset Int :=
  b.frameDays.filter fun t => ∃ e ∈ b.tickerSeries.entries, fill b.frameDays e.2.value t ≠ none

/-- `sum(axis=1)`, which skips missing values. -/
def valueOn (fill : Fill) (t : Int) : ℚ :=
  (b.tickerSeries.entries.map fun e => (fill b.frameDays e.2.value t).getD 0).sum

/-- `daily_value` -/
def dailyValue (fill : Fill) : List (Int × ℚ) :=
  ((b.daysKept fill).sort (· ≤ ·)).map fun t => (t, b.valueOn fill t)

/-- `invested_total` -/
def investedTotal : ℚ := (b.held.map fun h => h.quantity * h.avgPrice).sum

end Book

/-! ## The tools -/

/-- `period_days.get(period.upper(), 180)` -/
def periodDays (T : CharTables) (period : String) : Int :=
  match String.ofList (T.upper period.toList) with
  | "1M" => 30
  | "3M" => 90
  | "6M" => 180
  | "1Y" => 365
  | "ALL" => 3650
  | _ => 180

/-- What `get_portfolio_performance` reads. -/
def performanceBook (T : CharTables) (prices : Prices) (held : List Holding) (today : Int)
    (period : String) : Book :=
  ⟨T, prices, held, today - periodDays T period, none⟩

structure Performance where
  dailyValue : List (Int × ℚ)
  metrics : Metrics

/-- `get_portfolio_performance` -/
def getPortfolioPerformance (T : CharTables) (prices : Prices) (held : List Holding) (today : Int)
    (period : String) : Except String Performance :=
  let b := performanceBook T prices held today period
  if held = [] then .error "No portfolio holdings found."
  else if b.tickerSeries.entries = [] then .error "No price data available for holdings."
  else if (b.dailyValue (ffill none)).length < 2 then .error "Insufficient data for performance."
  else
    .ok
      { dailyValue := b.dailyValue (ffill none)
        metrics := metrics ((b.dailyValue (ffill none)).map Prod.snd) }

/-- What `_compute_daily_portfolio` reads. -/
def dailyBook (T : CharTables) (prices : Prices) (held : List Holding) (start last : Int) : Book :=
  ⟨T, prices, held, start, some last⟩

/-- A row of `daily_df`. -/
structure DailyRow where
  date : Int
  value : ℚ
  invested : ℚ
  dailyPnl : ℚ
  dailyReturnPct : Figure

/-- `daily_df`, and the figures of the summary. -/
structure DailyPortfolio where
  rows : List DailyRow
  tickers : List (String × List (Option ℚ))
  metrics : Metrics
  invested : ℚ
  finalValue : ℚ
  startDate : Int
  endDate : Int
  tradingDays : Nat
  currencyMix : List String

def dailyRow (invested : ℚ) (day : Int × ℚ) : DailyRow where
  date := day.1
  value := day.2
  invested := invested
  dailyPnl := day.2 - invested
  dailyReturnPct := (quotient day.2 invested).map fun q => (q - 1) * 100

/-- The result of `_compute_daily_portfolio`, from the daily values. -/
def Book.dailyPortfolio (b : Book) (first : Int × ℚ) (rest : List (Int × ℚ)) : DailyPortfolio where
  rows := (first :: rest).map (dailyRow b.investedTotal)
  tickers := b.tickerSeries.entries.map fun e =>
    (e.1, (first :: rest).map fun day => fillBoth none b.frameDays e.2.value day.1)
  metrics := metrics ((first :: rest).map Prod.snd)
  invested := b.investedTotal
  finalValue := ((first :: rest).getLast (List.cons_ne_nil _ _)).2
  startDate := first.1
  endDate := ((first :: rest).getLast (List.cons_ne_nil _ _)).1
  tradingDays := (first :: rest).length
  currencyMix := (b.held.map (·.currency)).dedup.insertionSort (· ≤ ·)

/-- `_compute_daily_portfolio`; without two days the frame is empty. -/
def computeDailyPortfolio (T : CharTables) (prices : Prices) (held : List Holding) (start last : Int) :
    Except String (Option DailyPortfolio) :=
  let b := dailyBook T prices held start last
  match b.dailyValue (fillBoth none) with
  | first :: second :: rest =>
      -- there is no best day of no returns
      if dailyReturns ((first :: second :: rest).map Prod.snd) = [] then
        .error "attempt to get argmax of an empty sequence"
      else .ok (some (b.dailyPortfolio first (second :: rest)))
  | _ => .ok none

/-! ## What the returns should come from -/

namespace Book

variable (b : Book)

def closes (h : Holding) : List ℚ := (b.ohlcv h).filterMap (·.close)

/-- The days of these closes. -/
def closeDays (h : Holding) : List Int := (b.ohlcv h).filterMap fun r => r.close.map fun _ => r.date

def lastClose (h : Holding) : Option ℚ := (b.closes h).getLast?

def worth (h : Holding) : ℚ := h.quantity * (b.lastClose h).getD 0

/-- The holdings that have a price. -/
def priced : List Holding := b.held.filter fun h => (b.lastClose h).isSome

def unpriced : List Holding := b.held.filter fun h => ¬(b.lastClose h).isSome

/-- The worth of all holdings that have a price. -/
def pricedWorth : ℚ := (b.priced.map b.worth).sum

/-- What was paid for some holdings. -/
def paid (held : List Holding) : ℚ := (held.map fun h => h.quantity * h.avgPrice).sum

/-- Every close is constant per ticker. -/
def Constant : Prop := ∀ h ∈ b.held, ∀ c ∈ b.closes h, ∀ c' ∈ b.closes h, c = c'

/-- The days of the rows of the holdings. -/
def days : Finset Int := (b.held.flatMap fun h => (b.ohlcv h).map (·.date)).toFinset

def startedDays : Finset Int := b.days.filter fun t => ∃ h ∈ b.held, ∃ d ∈ b.closeDays h, d ≤ t

/-- The holdings that no later group of their ticker replaces. -/
def counted : List Holding := lastEntries Holding.ticker b.held

/-- The worth of the tickers whose closes all come after a day. -/
def lateWorth (t : Int) : ℚ := ((b.counted.filter fun h => ∀ d ∈ b.closeDays h, t < d).map b.worth).sum

/-- No group of a ticker is lost, or those that are lost are worth nothing together; the rest is worth
something. -/
def WholeWorth : Prop := (b.counted.map b.worth).sum = b.pricedWorth ∧ b.pricedWorth ≠ 0

end Book

/-- From the first close on, the tickers that start later are worth nothing together. -/
def Book.StartsTogether (b : Book) : Prop := ∀ t ∈ b.startedDays, b.lateWorth t = 0

/-- Where closes are constant and there are two days, the tickers start together and no worth is lost. -/
def Book.ForwardCondition (b : Book) : Prop :=
  b.Constant → 2 ≤ b.startedDays.card → b.StartsTogether ∧ b.WholeWorth

/-- Where closes are constant and there are two days with a value, no worth is lost and nothing was paid
for holdings without a price. -/
def Book.BothWaysCondition (b : Book) : Prop :=
  b.Constant → 2 ≤ b.days.card → b.priced ≠ [] → b.WholeWorth ∧ Book.paid b.unpriced = 0

/-- The returns of both tools come from prices only. -/
structure ReturnsFromPrices (T : CharTables) (prices : Prices) (held : List Holding) (today : Int)
    (period : String) (start last : Int) : Prop where
  performance : (performanceBook T prices held today period).Constant →
    ∀ p, getPortfolioPerformance T prices held today period = .ok p →
      p.metrics.Still ∧ p.dailyValue.getLast?.map Prod.snd =
        some (performanceBook T prices held today period).pricedWorth
  daily : (dailyBook T prices held start last).Constant →
    ∃ daily, computeDailyPortfolio T prices held start last = .ok daily ∧
      ∀ p ∈ daily, p.metrics.Still ∧
        p.finalValue = (dailyBook T prices held start last).pricedWorth ∧
        p.invested = Book.paid (dailyBook T prices held start last).priced

/-! ## Columns of constant closes -/

namespace Book

variable {b : Book} {h h' : Holding} {t d : Int} {q : ℚ}

theorem ohlcv_congr (hTicker : h.ticker = h'.ticker) : b.ohlcv h = b.ohlcv h' := by
  rw [ohlcv, hTicker, ohlcv]

theorem closeDays_congr (hTicker : h.ticker = h'.ticker) : b.closeDays h = b.closeDays h' := by
  rw [closeDays, ohlcv_congr hTicker, closeDays]

theorem nodup_dates (b : Book) (h : Holding) : ((b.ohlcv h).map (·.date)).Nodup := by
  have hSorted : ((b.ohlcv h).map (·.date)).Pairwise (· < ·) :=
    List.pairwise_map.mpr (Performance.sorted_series.sublist List.filter_sublist)
  exact hSorted.imp ne_of_lt

theorem value_of_mem {r : PriceRow} (hr : r ∈ b.ohlcv h) :
    (columnOf (b.ohlcv h) q).value r.date = r.close.map (· * q) := by
  have hFind : (b.ohlcv h).find? (·.date = r.date) = some r :=
    (find?_key_eq_some (b.nodup_dates h)).mpr ⟨hr, rfl⟩
  show (((b.ohlcv h).find? _).bind _).map _ = _
  rw [hFind, Option.bind_some]

theorem mem_closeDays_iff : d ∈ b.closeDays h ↔ ∃ r ∈ b.ohlcv h, r.date = d ∧ r.close ≠ none := by
  rw [closeDays, List.mem_filterMap]
  refine exists_congr fun r => and_congr_right fun _ => ?_
  cases r.close with
  | none => simp
  | some c => simp

theorem known_column (hSub : ∀ r ∈ b.ohlcv h, r.date ∈ b.frameDays) :
    known none b.frameDays (columnOf (b.ohlcv h) q).value = (b.closeDays h).toFinset := by
  ext d
  rw [mem_known, List.mem_toFinset, mem_closeDays_iff]
  constructor
  · rintro ⟨-, hValue⟩
    cases hRow : (b.ohlcv h).find? (·.date = d) with
    | none =>
        refine absurd ?_ hValue
        show (((b.ohlcv h).find? _).bind _).map _ = _
        rw [hRow]
        rfl
    | some r =>
        obtain ⟨hMem, rfl⟩ := (find?_key_eq_some (b.nodup_dates h)).mp hRow
        refine ⟨r, hMem, rfl, fun hClose => hValue ?_⟩
        rw [value_of_mem hMem, hClose]
        rfl
  · rintro ⟨r, hMem, rfl, hClose⟩
    refine ⟨hSub r hMem, ?_⟩
    rw [value_of_mem hMem]
    exact fun hNone => hClose (Option.map_eq_none_iff.mp hNone)

theorem worth_of_empty (hNone : b.closeDays h = []) : b.worth h = 0 := by
  have hCloses : b.closes h = [] := by
    apply List.eq_nil_iff_forall_not_mem.mpr
    intro c hc
    obtain ⟨r, hr, hClose⟩ := List.mem_filterMap.mp hc
    have hMem : r.date ∈ b.closeDays h := by
      rw [mem_closeDays_iff]
      exact ⟨r, hr, rfl, by rw [hClose]; exact Option.some_ne_none c⟩
    rw [hNone] at hMem
    cases hMem
  rw [worth, lastClose, hCloses]
  exact mul_zero _

theorem value_of_constant (hConst : b.Constant) (hHeld : h ∈ b.held) (hDay : d ∈ b.closeDays h) :
    (columnOf (b.ohlcv h) h.quantity).value d = some (b.worth h) := by
  obtain ⟨r, hr, rfl, hClose⟩ := mem_closeDays_iff.mp hDay
  obtain ⟨c, hc⟩ := Option.ne_none_iff_exists'.mp hClose
  have hMem : c ∈ b.closes h := List.mem_filterMap.mpr ⟨r, hr, hc⟩
  have hLast : b.lastClose h = some c := by
    have hSome := List.getLast?_eq_some_getLast (List.ne_nil_of_mem hMem)
    rw [lastClose, hSome, hConst h hHeld _ (List.getLast_mem _) c hMem]
  rw [value_of_mem hr, hc, worth, hLast, Option.map_some, Option.getD_some, mul_comm]

/-! ## Sums of columns -/

def entryOf (b : Book) (h : Holding) : String × Column :=
  (h.ticker, columnOf (b.ohlcv h) h.quantity)

theorem tickerSeries_eq (b : Book) : b.tickerSeries =
    Dict.empty.setAll ((b.held.filter fun h => b.ohlcv h ≠ []).map b.entryOf) := by
  rw [Dict.setAll, List.foldl_map, List.foldl_filter, tickerSeries]
  congr 1
  funext series h
  by_cases hRows : b.ohlcv h = []
  · simp [hRows]
  · simp [hRows, entryOf]

theorem entries_perm (b : Book) : b.tickerSeries.entries.Perm
    ((b.counted.filter fun h => b.ohlcv h ≠ []).map b.entryOf) := by
  have hRows : ∀ h h' : Holding, h.ticker = h'.ticker →
      decide (b.ohlcv h ≠ []) = decide (b.ohlcv h' ≠ []) := by
    intro h h' hTicker
    rw [ohlcv_congr hTicker]
  rw [counted, ← lastEntries_filter hRows, tickerSeries_eq]
  have hMap : lastEntries Prod.fst ((b.held.filter fun h => b.ohlcv h ≠ []).map b.entryOf) =
      (lastEntries Holding.ticker (b.held.filter fun h => b.ohlcv h ≠ [])).map b.entryOf :=
    lastEntries_map _ _ _
  rw [← hMap]
  exact setAll_perm _

theorem mem_entries_iff {e : String × Column} : e ∈ b.tickerSeries.entries ↔
    ∃ h ∈ b.counted, b.ohlcv h ≠ [] ∧ b.entryOf h = e := by
  rw [b.entries_perm.mem_iff, List.mem_map]
  simp only [List.mem_filter, decide_eq_true_eq, and_assoc]

theorem mem_held_of_counted (hCounted : h ∈ b.counted) : h ∈ b.held :=
  (lastEntries_sublist _ _).subset hCounted

theorem frameDays_eq (b : Book) : b.frameDays = b.days := by
  ext t
  rw [frameDays, days, List.mem_toFinset, List.mem_toFinset, List.mem_flatMap, List.mem_flatMap]
  constructor
  · rintro ⟨e, he, hDate⟩
    obtain ⟨h, hCounted, -, rfl⟩ := mem_entries_iff.mp he
    exact ⟨h, mem_held_of_counted hCounted, hDate⟩
  · rintro ⟨h, hHeld, hDate⟩
    obtain ⟨h', hCounted, hTicker⟩ := exists_lastEntry Holding.ticker hHeld
    rw [← ohlcv_congr hTicker] at hDate
    refine ⟨b.entryOf h', mem_entries_iff.mpr ⟨h', hCounted, fun hRows => ?_, rfl⟩, hDate⟩
    rw [hRows] at hDate
    cases hDate

theorem date_mem_days {r : PriceRow} (hHeld : h ∈ b.held) (hr : r ∈ b.ohlcv h) : r.date ∈ b.days :=
  List.mem_toFinset.mpr (List.mem_flatMap.mpr ⟨h, hHeld, List.mem_map_of_mem hr⟩)

/-- A fill shows the worth of a holding on some days, which depend on the days of its closes. -/
def Fills (b : Book) (fill : Fill) (shown : List Int → Int → Bool) : Prop :=
  ∀ h ∈ b.held, ∀ t ∈ b.days, fill b.days (columnOf (b.ohlcv h) h.quantity).value t =
    if shown (b.closeDays h) t then some (b.worth h) else none

theorem known_of_held (hHeld : h ∈ b.held) :
    known none b.days (columnOf (b.ohlcv h) q).value = (b.closeDays h).toFinset := by
  rw [← frameDays_eq]
  apply known_column
  intro r hr
  rw [frameDays_eq]
  exact date_mem_days hHeld hr

theorem fills_ffill (hConst : b.Constant) : b.Fills (ffill none) fun ds t => ds.any (· ≤ t) := by
  intro h hHeld t hDay
  have hKnown := known_of_held (q := h.quantity) hHeld
  rw [ffill_of_const hDay (c := some (b.worth h)), hKnown]
  · simp only [List.mem_toFinset, List.any_eq_true, decide_eq_true_eq]
  · rw [hKnown]
    exact fun d hd => value_of_constant hConst hHeld (List.mem_toFinset.mp hd)

theorem fills_fillBoth (hConst : b.Constant) : b.Fills (fillBoth none) fun ds _ => !ds.isEmpty := by
  intro h hHeld t hDay
  have hKnown := known_of_held (q := h.quantity) hHeld
  rw [fillBoth_of_const hDay (c := some (b.worth h)), hKnown]
  · simp only [List.toFinset_nonempty_iff, Bool.not_eq_true', List.isEmpty_eq_false_iff]
  · rw [hKnown]
    exact fun d hd => value_of_constant hConst hHeld (List.mem_toFinset.mp hd)

section Fills

variable {fill : Fill} {shown : List Int → Int → Bool}

theorem valueOn_eq (hFill : b.Fills fill shown) (hDay : t ∈ b.days) : b.valueOn fill t =
    (b.counted.map fun h => if shown (b.closeDays h) t then b.worth h else 0).sum := by
  have hColumn : ∀ h ∈ b.counted, (fill b.frameDays (b.entryOf h).2.value t).getD 0 =
      if shown (b.closeDays h) t then b.worth h else 0 := by
    intro h hCounted
    rw [frameDays_eq]
    show (fill b.days (columnOf (b.ohlcv h) h.quantity).value t).getD 0 = _
    rw [hFill h (mem_held_of_counted hCounted) t hDay]
    split <;> rfl
  have hOut : ((b.counted.filter fun h => ¬b.ohlcv h ≠ []).map fun h =>
      if shown (b.closeDays h) t then b.worth h else 0).sum = 0 := by
    apply List.sum_eq_zero
    intro x hx
    obtain ⟨h, hMem, rfl⟩ := List.mem_map.mp hx
    have hRows : b.ohlcv h = [] := by simpa using (List.mem_filter.mp hMem).2
    have hNone : b.closeDays h = [] := by rw [closeDays, hRows]; rfl
    rw [worth_of_empty hNone, ite_self]
  rw [valueOn, (b.entries_perm.map _).sum_eq, List.map_map,
    ← List.sum_map_filter_add_sum_map_filter_not (fun h => b.ohlcv h ≠ [])
      (fun h => if shown (b.closeDays h) t then b.worth h else 0) b.counted, hOut, add_zero]
  congr 1
  apply List.map_congr_left
  exact fun h hMem => hColumn h (List.mem_of_mem_filter hMem)

theorem daysKept_eq (hFill : b.Fills fill shown) (hShown : ∀ t, shown [] t = false) :
    b.daysKept fill = b.days.filter fun t => ∃ h ∈ b.held, shown (b.closeDays h) t := by
  ext t
  rw [daysKept, Finset.mem_filter, Finset.mem_filter, frameDays_eq]
  apply and_congr_right
  intro hDay
  constructor
  · rintro ⟨e, he, hValue⟩
    obtain ⟨h, hCounted, -, rfl⟩ := mem_entries_iff.mp he
    have hHeld := mem_held_of_counted hCounted
    refine ⟨h, hHeld, ?_⟩
    by_contra hHidden
    refine hValue ((hFill h hHeld t hDay).trans (if_neg hHidden))
  · rintro ⟨h, hHeld, hSome⟩
    obtain ⟨h', hCounted, hTicker⟩ := exists_lastEntry Holding.ticker hHeld
    rw [← closeDays_congr hTicker] at hSome
    refine ⟨b.entryOf h', mem_entries_iff.mpr ⟨h', hCounted, fun hRows => ?_, rfl⟩, ?_⟩
    · rw [closeDays, hRows, List.filterMap_nil, hShown] at hSome
      cases hSome
    · show fill b.days (columnOf (b.ohlcv h') h'.quantity).value t ≠ none
      rw [hFill h' (mem_held_of_counted hCounted) t hDay, if_pos hSome]
      exact Option.some_ne_none _

end Fills

/-! ## Daily values -/

theorem length_dailyValue (fill : Fill) : (b.dailyValue fill).length = (b.daysKept fill).card := by
  rw [dailyValue, List.length_map, Finset.length_sort]

theorem mem_values_iff {fill : Fill} {x : ℚ} :
    x ∈ (b.dailyValue fill).map Prod.snd ↔ ∃ t ∈ b.daysKept fill, b.valueOn fill t = x := by
  rw [dailyValue, List.map_map, List.mem_map]
  simp only [Finset.mem_sort, Function.comp_apply]

theorem last_mem_values {fill : Fill} {x : ℚ} (h : (b.dailyValue fill).getLast?.map Prod.snd = some x) :
    x ∈ (b.dailyValue fill).map Prod.snd := by
  rw [← List.getLast?_map] at h
  exact List.mem_of_getLast? h

theorem valueOn_add_lateWorth (hConst : b.Constant) (hDay : t ∈ b.days) :
    b.valueOn (ffill none) t + b.lateWorth t = (b.counted.map b.worth).sum := by
  have hLate : (b.counted.filter fun h => ¬(b.closeDays h).any (· ≤ t) = true) =
      b.counted.filter fun h => ∀ d ∈ b.closeDays h, t < d := by
    apply List.filter_congr
    intro h _
    simp only [List.any_eq_true, decide_eq_true_eq, not_exists, not_and, not_le]
  rw [valueOn_eq (fills_ffill hConst) hDay, List.sum_map_ite, lateWorth, ← hLate]
  simp only [List.map_const', List.sum_replicate, nsmul_zero, add_zero]
  exact List.sum_map_filter_add_sum_map_filter_not _ _ _

theorem daysKept_ffill (hConst : b.Constant) : b.daysKept (ffill none) = b.startedDays := by
  rw [daysKept_eq (fills_ffill hConst) fun _ => rfl, startedDays]
  simp only [List.any_eq_true, decide_eq_true_eq]

theorem exists_lateWorth_eq_zero (hSome : b.startedDays.Nonempty) :
    ∃ t ∈ b.startedDays, b.lateWorth t = 0 := by
  refine ⟨b.startedDays.max' hSome, Finset.max'_mem _ _, ?_⟩
  apply List.sum_eq_zero
  intro x hx
  obtain ⟨h, hMem, rfl⟩ := List.mem_map.mp hx
  obtain ⟨hCounted, hLate⟩ := List.mem_filter.mp hMem
  have hHeld := mem_held_of_counted hCounted
  apply worth_of_empty
  apply List.eq_nil_iff_forall_not_mem.mpr
  intro d hd
  have hStarted : d ∈ b.startedDays := by
    obtain ⟨r, hr, rfl, -⟩ := mem_closeDays_iff.mp hd
    exact Finset.mem_filter.mpr ⟨date_mem_days hHeld hr, h, hHeld, _, hd, le_rfl⟩
  exact absurd (of_decide_eq_true hLate d hd) (not_lt.mpr (Finset.le_max' _ _ hStarted))

/-- The figures of the first tool. -/
theorem still_ffill_iff (hConst : b.Constant) (hSome : b.startedDays.Nonempty) :
    ((metrics ((b.dailyValue (ffill none)).map Prod.snd)).Still ∧
        (b.dailyValue (ffill none)).getLast?.map Prod.snd = some b.pricedWorth) ↔
      b.StartsTogether ∧ b.WholeWorth := by
  have hKept := daysKept_ffill hConst
  obtain ⟨m, hm, hAll⟩ := exists_lateWorth_eq_zero hSome
  have hDay : ∀ t ∈ b.startedDays, t ∈ b.days := fun t ht => (Finset.mem_filter.mp ht).1
  have hValue := valueOn_add_lateWorth hConst (hDay m hm)
  rw [hAll, add_zero] at hValue
  have hMem : b.valueOn (ffill none) m ∈ (b.dailyValue (ffill none)).map Prod.snd :=
    mem_values_iff.mpr ⟨m, hKept ▸ hm, rfl⟩
  rw [still_iff (List.ne_nil_of_mem hMem)]
  constructor
  · rintro ⟨⟨v, hNe, hSame⟩, hLast⟩
    have hWorth := hSame _ (last_mem_values hLast)
    have hCounted := hSame _ hMem
    rw [hValue] at hCounted
    refine ⟨fun t ht => ?_, ?_, ?_⟩
    · have hRow := hSame _ (mem_values_iff.mpr ⟨t, hKept ▸ ht, rfl⟩)
      have hSplit := valueOn_add_lateWorth hConst (hDay t ht)
      rw [hRow, hCounted] at hSplit
      exact left_eq_add.mp hSplit.symm
    · rw [hCounted, hWorth]
    · rw [hWorth]
      exact hNe
  · rintro ⟨hStart, hWhole, hNe⟩
    have hSame : ∀ x ∈ (b.dailyValue (ffill none)).map Prod.snd, x = b.pricedWorth := by
      intro x hx
      obtain ⟨t, ht, rfl⟩ := mem_values_iff.mp hx
      rw [hKept] at ht
      have hSplit := valueOn_add_lateWorth hConst (hDay t ht)
      rw [hStart t ht, add_zero, hWhole] at hSplit
      exact hSplit
    refine ⟨⟨b.pricedWorth, hNe, hSame⟩, ?_⟩
    rw [← List.getLast?_map]
    cases hLast : ((b.dailyValue (ffill none)).map Prod.snd).getLast? with
    | none => exact absurd (List.getLast?_eq_none_iff.mp hLast) (List.ne_nil_of_mem hMem)
    | some x => rw [hSame x (List.mem_of_getLast? hLast)]

theorem valueOn_fillBoth (hConst : b.Constant) (hDay : t ∈ b.days) :
    b.valueOn (fillBoth none) t = (b.counted.map b.worth).sum := by
  rw [valueOn_eq (fills_fillBoth hConst) hDay]
  congr 1
  apply List.map_congr_left
  intro h _
  cases hDays : b.closeDays h with
  | nil => exact (worth_of_empty hDays).symm
  | cons d ds => rfl

theorem closeDays_ne_nil_iff : b.closeDays h ≠ [] ↔ (b.lastClose h).isSome := by
  rw [lastClose, List.getLast?_isSome, closes, Ne, Ne, closeDays, List.filterMap_eq_nil_iff,
    List.filterMap_eq_nil_iff]
  simp only [Option.map_eq_none_iff]

theorem priced_ne_nil_iff : b.priced ≠ [] ↔ ∃ h ∈ b.held, b.closeDays h ≠ [] := by
  simp only [priced, Ne, List.filter_eq_nil_iff, not_forall, not_not, closeDays_ne_nil_iff, exists_prop]

theorem daysKept_fillBoth (hConst : b.Constant) :
    b.daysKept (fillBoth none) = if b.priced ≠ [] then b.days else ∅ := by
  have hAny : (∃ h ∈ b.held, (!(b.closeDays h).isEmpty) = true) ↔ b.priced ≠ [] := by
    rw [priced_ne_nil_iff]
    simp only [Bool.not_eq_true', List.isEmpty_eq_false_iff]
  rw [daysKept_eq (fills_fillBoth hConst) fun _ => rfl]
  simp only [hAny]
  by_cases hPriced : b.priced ≠ []
  · rw [if_pos hPriced]
    exact Finset.filter_true_of_mem fun _ _ => hPriced
  · rw [if_neg hPriced]
    exact Finset.filter_false_of_mem fun _ _ => hPriced

theorem investedTotal_eq (b : Book) : b.investedTotal = paid b.priced + paid b.unpriced := by
  have hSplit := List.sum_map_filter_add_sum_map_filter_not (fun h => (b.lastClose h).isSome = true)
    (fun h => h.quantity * h.avgPrice) b.held
  simp only [Bool.decide_eq_true] at hSplit
  exact hSplit.symm

theorem held_ne_nil (hSome : b.tickerSeries.entries ≠ []) : b.held ≠ [] := by
  intro hNone
  apply hSome
  rw [tickerSeries, hNone]
  rfl

theorem entries_ne_nil {fill : Fill} (hSome : (b.daysKept fill).Nonempty) :
    b.tickerSeries.entries ≠ [] := by
  obtain ⟨t, ht⟩ := hSome
  obtain ⟨-, e, he, -⟩ := Finset.mem_filter.mp ht
  exact List.ne_nil_of_mem he

end Book

/-! ## The tools -/

section Tools

variable {T : CharTables} {prices : Prices} {held : List Holding} {today start last : Int}
  {period : String}

theorem getPortfolioPerformance_eq_ok_iff {b : Book} (hBook : performanceBook T prices held today period = b)
    {p : Performance} : getPortfolioPerformance T prices held today period = .ok p ↔
      2 ≤ (b.daysKept (ffill none)).card ∧
        p = ⟨b.dailyValue (ffill none), metrics ((b.dailyValue (ffill none)).map Prod.snd)⟩ := by
  have hHeld : held = b.held := hBook ▸ rfl
  rw [← Book.length_dailyValue, getPortfolioPerformance, hBook, hHeld]
  by_cases hTwo : 2 ≤ (b.dailyValue (ffill none)).length
  · have hKept : (b.daysKept (ffill none)).Nonempty := by
      rw [Book.length_dailyValue] at hTwo
      exact Finset.card_pos.mp (Nat.lt_of_lt_of_le Nat.zero_lt_two hTwo)
    have hEntries := Book.entries_ne_nil hKept
    have hSome : b.held ≠ [] := Book.held_ne_nil hEntries
    simp only [hSome, hEntries, not_lt.mpr hTwo, if_false, Except.ok.injEq, hTwo, true_and]
    exact eq_comm
  · simp only [hTwo, false_and, iff_false]
    split
    · exact fun h => by cases h
    · split
      · exact fun h => by cases h
      · rw [if_pos (not_le.mp hTwo)]
        exact fun h => by cases h

theorem dailyReturnPct_eq_zero_iff (invested : ℚ) (day : Int × ℚ) :
    (dailyRow invested day).dailyReturnPct = .finite 0 ↔ invested ≠ 0 ∧ day.2 = invested :=
  percent_eq_zero_iff invested day.2

theorem performance_iff {b : Book} (hBook : performanceBook T prices held today period = b) :
    (b.Constant → ∀ p, getPortfolioPerformance T prices held today period = .ok p →
        p.metrics.Still ∧ p.dailyValue.getLast?.map Prod.snd = some b.pricedWorth) ↔
      b.ForwardCondition := by
  apply imp_congr_right
  intro hConst
  have hIff (hTwo : 2 ≤ b.startedDays.card) := Book.still_ffill_iff hConst
    (Finset.card_pos.mp (Nat.lt_of_lt_of_le Nat.zero_lt_two hTwo))
  rw [Book.daysKept_ffill hConst |>.symm] at hIff ⊢
  constructor
  · intro h hTwo
    exact (hIff hTwo).mp (h _ ((getPortfolioPerformance_eq_ok_iff hBook).mpr ⟨hTwo, rfl⟩))
  · intro h p hOk
    obtain ⟨hTwo, rfl⟩ := (getPortfolioPerformance_eq_ok_iff hBook).mp hOk
    exact (hIff hTwo).mpr (h hTwo)

/-- The figures of the second tool. -/
theorem daily_iff {b : Book} (hBook : dailyBook T prices held start last = b) :
    (b.Constant → ∃ daily, computeDailyPortfolio T prices held start last = .ok daily ∧
        ∀ p ∈ daily, p.metrics.Still ∧ p.finalValue = b.pricedWorth ∧
          p.invested = Book.paid b.priced) ↔
      b.BothWaysCondition := by
  apply imp_congr_right
  intro hConst
  have hKept := Book.daysKept_fillBoth hConst
  have hLength := Book.length_dailyValue (b := b) (fillBoth none)
  have hValues : ∀ x ∈ (b.dailyValue (fillBoth none)).map Prod.snd,
      x = (b.counted.map b.worth).sum := by
    intro x hx
    obtain ⟨t, ht, rfl⟩ := Book.mem_values_iff.mp hx
    rw [Book.daysKept, Book.frameDays_eq] at ht
    exact Book.valueOn_fillBoth hConst (Finset.mem_filter.mp ht).1
  rw [computeDailyPortfolio, hBook]
  match hDaily : b.dailyValue (fillBoth none) with
  | [] | [_] =>
      rw [hDaily] at hLength
      refine iff_of_true ⟨none, rfl, fun p hp => by cases hp⟩ fun hTwo hPriced => ?_
      rw [hKept, if_pos hPriced] at hLength
      rw [← hLength] at hTwo
      exact absurd hTwo (by simp)
  | first :: second :: rest =>
      rw [hDaily] at hLength hValues
      have hTwo : 2 ≤ (b.daysKept (fillBoth none)).card := by
        rw [← hLength, List.length_cons, List.length_cons]
        exact Nat.le_add_left 2 _
      have hPriced : b.priced ≠ [] := by
        by_contra hNone
        rw [hKept, if_neg (not_not.mpr hNone), Finset.card_empty] at hTwo
        omega
      rw [hKept, if_pos hPriced] at hTwo
      have hFirst : first.2 = (b.counted.map b.worth).sum := hValues _ List.mem_cons_self
      have hFinal : (b.dailyPortfolio first (second :: rest)).finalValue =
          (b.counted.map b.worth).sum :=
        hValues _ (List.mem_map_of_mem (List.getLast_mem (List.cons_ne_nil _ _)))
      have hInvested : (b.dailyPortfolio first (second :: rest)).invested =
          Book.paid b.priced + Book.paid b.unpriced := b.investedTotal_eq
      have hStill : (b.dailyPortfolio first (second :: rest)).metrics.Still ↔
          (b.counted.map b.worth).sum ≠ 0 := by
        have hSome : (first :: second :: rest).map Prod.snd ≠ [] := List.cons_ne_nil _ _
        show (metrics ((first :: second :: rest).map Prod.snd)).Still ↔ _
        rw [still_iff hSome]
        constructor
        · rintro ⟨v, hNe, hSame⟩
          rw [← hFirst, hSame _ List.mem_cons_self]
          exact hNe
        · exact fun hNe => ⟨_, hNe, hValues⟩
      constructor
      · rintro ⟨daily, hOk, hAll⟩ - -
        simp only at hOk
        split at hOk
        · cases hOk
        · cases hOk
          obtain ⟨hZero, hWorth, hPaid⟩ := hAll _ rfl
          rw [hInvested] at hPaid
          rw [hFinal] at hWorth
          exact ⟨⟨hWorth, hWorth ▸ hStill.mp hZero⟩, left_eq_add.mp hPaid.symm⟩
      · intro h
        obtain ⟨⟨hWhole, hNe⟩, hPaid⟩ := h hTwo hPriced
        have hReturns : dailyReturns ((first :: second :: rest).map Prod.snd) ≠ [] := by
          apply dailyReturns_ne_nil
          rw [hFirst, hWhole]
          exact hNe
        refine ⟨_, if_neg hReturns, ?_⟩
        rintro p hp
        cases hp
        rw [hStill, hFinal, hInvested, hPaid, add_zero, hWhole]
        exact ⟨hNe, rfl, rfl⟩

end Tools

/-! ## Positive closes -/

namespace Book

variable {b : Book} {h h' : Holding} {t d : Int}

def Positive (b : Book) : Prop := ∀ h ∈ b.held, 0 < h.quantity ∧ ∀ c ∈ b.closes h, 0 < c

theorem worth_pos (hPos : b.Positive) (hHeld : h ∈ b.held) (hDays : b.closeDays h ≠ []) :
    0 < b.worth h := by
  obtain ⟨hQuantity, hCloses⟩ := hPos h hHeld
  obtain ⟨c, hLast⟩ := Option.isSome_iff_exists.mp (closeDays_ne_nil_iff.mp hDays)
  rw [worth, hLast]
  exact mul_pos hQuantity (hCloses c (List.mem_of_getLast? hLast))

theorem worth_nonneg (hPos : b.Positive) (hHeld : h ∈ b.held) : 0 ≤ b.worth h := by
  by_cases hDays : b.closeDays h = []
  · exact (worth_of_empty hDays).ge
  · exact (worth_pos hPos hHeld hDays).le

/-- The tickers start together exactly if no close comes before the first one of another ticker. -/
theorem startsTogether_iff (hPos : b.Positive) : b.StartsTogether ↔
    ∀ h ∈ b.held, ∀ d ∈ b.closeDays h, ∀ h' ∈ b.held, b.closeDays h' ≠ [] →
      ∃ d' ∈ b.closeDays h', d' ≤ d := by
  constructor
  · intro hTogether h hHeld d hd h' hHeld' hDays
    by_contra hNone
    push Not at hNone
    -- the last group of the ticker starts late as well
    obtain ⟨k, hCounted, hTicker⟩ := exists_lastEntry Holding.ticker hHeld'
    rw [← closeDays_congr hTicker] at hNone hDays
    have hStarted : d ∈ b.startedDays := by
      obtain ⟨r, hr, rfl, -⟩ := mem_closeDays_iff.mp hd
      exact Finset.mem_filter.mpr ⟨date_mem_days hHeld hr, h, hHeld, _, hd, le_rfl⟩
    have hLate : k ∈ b.counted.filter fun h => ∀ d' ∈ b.closeDays h, d < d' :=
      List.mem_filter.mpr ⟨hCounted, decide_eq_true hNone⟩
    have hWorth := worth_pos hPos (mem_held_of_counted hCounted) hDays
    have hLe : b.worth k ≤ b.lateWorth d := by
      apply List.single_le_sum _ _ (List.mem_map_of_mem hLate)
      intro x hx
      obtain ⟨k', hMem, rfl⟩ := List.mem_map.mp hx
      exact worth_nonneg hPos (mem_held_of_counted (List.mem_of_mem_filter hMem))
    rw [hTogether d hStarted] at hLe
    exact absurd hWorth (not_lt.mpr hLe)
  · intro hStart t ht
    obtain ⟨-, h, hHeld, d, hd, hLe⟩ := Finset.mem_filter.mp ht
    apply List.sum_eq_zero
    intro x hx
    obtain ⟨k, hMem, rfl⟩ := List.mem_map.mp hx
    obtain ⟨hCounted, hLate⟩ := List.mem_filter.mp hMem
    by_contra hNe
    obtain ⟨d', hd', hLe'⟩ := hStart h hHeld d hd k (mem_held_of_counted hCounted)
      fun hNone => hNe (worth_of_empty hNone)
    exact absurd (of_decide_eq_true hLate d' hd') (not_lt.mpr (hLe'.trans hLe))

theorem wholeWorth_iff (hPos : b.Positive) :
    b.WholeWorth ↔ b.priced ≠ [] ∧ (b.priced.map (·.ticker)).Nodup := by
  have hPriced : ∀ h ∈ b.priced, 0 < b.worth h := by
    intro h hMem
    obtain ⟨hHeld, hLast⟩ := List.mem_filter.mp hMem
    exact worth_pos hPos hHeld (closeDays_ne_nil_iff.mpr hLast)
  have hKey : ∀ h h' : Holding, h.ticker = h'.ticker →
      (b.lastClose h).isSome = (b.lastClose h').isSome := by
    intro h h' hTicker
    rw [lastClose, closes, ohlcv_congr hTicker, lastClose, closes]
  -- the counted holdings without a price are worth nothing
  have hCounted : (b.counted.map b.worth).sum =
      ((lastEntries Holding.ticker b.priced).map b.worth).sum := by
    have hOut : ((b.counted.filter fun h => ¬(b.lastClose h).isSome = true).map b.worth).sum = 0 := by
      apply List.sum_eq_zero
      intro x hx
      obtain ⟨h, hMem, rfl⟩ := List.mem_map.mp hx
      apply worth_of_empty
      by_contra hDays
      exact of_decide_eq_true (List.mem_filter.mp hMem).2 (closeDays_ne_nil_iff.mp hDays)
    rw [priced, lastEntries_filter hKey, ← counted,
      ← List.sum_map_filter_add_sum_map_filter_not (fun h => (b.lastClose h).isSome = true), hOut,
      add_zero]
    simp only [Bool.decide_eq_true]
  rw [WholeWorth, hCounted, pricedWorth, ← lastEntries_eq_self_iff]
  constructor
  · rintro ⟨hSame, hNe⟩
    refine ⟨fun hNone => hNe (by rw [hNone]; rfl), ?_⟩
    exact eq_of_sublist_of_sum_eq (lastEntries_sublist _ _) hPriced hSame
  · rintro ⟨hSome, hSame⟩
    refine ⟨by rw [hSame], ?_⟩
    obtain ⟨h, rest, hList⟩ := List.exists_cons_of_ne_nil hSome
    apply ne_of_gt
    apply List.sum_pos
    · intro x hx
      obtain ⟨h, hMem, rfl⟩ := List.mem_map.mp hx
      exact hPriced h hMem
    · rw [hList]
      exact List.cons_ne_nil _ _

theorem positive_holdingsOf {prices : Prices} (hCloses : ∀ r ∈ prices.rows, ∀ c ∈ r.close, 0 < c)
    (T : CharTables) (user : Dashboard.UserId) (rows : List Row) (w : Window) :
    Positive ⟨T, prices, Dashboard.holdingsOf user rows, w⟩ := by
  intro h hHeld
  refine ⟨of_decide_eq_true (List.mem_filter.mp hHeld).2, ?_⟩
  intro c hc
  obtain ⟨r, hr, hClose⟩ := List.mem_filterMap.mp hc
  exact hCloses r (Performance.mem_series_iff.mp (List.mem_of_mem_filter hr)).1 c hClose

end Book

/-- The returns come from prices only exactly if, where every close is constant per ticker and there are
two days, the tickers of the first tool start together, no group of a ticker is lost, and nothing was
paid for holdings without a price. -/
theorem returnsFromPrices_iff (T : CharTables) (prices : Prices) (held : List Holding) (today : Int)
    (period : String) (start last : Int) :
    ReturnsFromPrices T prices held today period start last ↔
      (performanceBook T prices held today period).ForwardCondition ∧
        (dailyBook T prices held start last).BothWaysCondition := by
  rw [← performance_iff rfl, ← daily_iff rfl]
  exact ⟨fun h => ⟨h.performance, h.daily⟩, fun h => ⟨h.1, h.2⟩⟩

/-- One share each of two tickers. -/
def twoShares : List Holding := [⟨"A", "USD", "us", 1, 100⟩, ⟨"B", "USD", "us", 1, 50⟩]

/-- The closes of two tickers, one of which starts a day later. -/
def lateStart : Prices where
  rows := [⟨"A", 1, some 100⟩, ⟨"A", 2, some 100⟩, ⟨"B", 2, some 50⟩]
  nodup := by decide

/-- A ticker that starts late is a return of 50%. -/
theorem not_returnsFromPrices_lateStart :
    ¬ReturnsFromPrices .ascii lateStart twoShares 2 "1M" 1 2 := by
  intro h
  have hConst : (performanceBook .ascii lateStart twoShares 2 "1M").Constant := by
    unfold Book.Constant
    decide +kernel
  have hTwo : 2 ≤ (performanceBook .ascii lateStart twoShares 2 "1M").startedDays.card := by
    decide +kernel
  have hStarted : 1 ∈ (performanceBook .ascii lateStart twoShares 2 "1M").startedDays := by
    decide +kernel
  have hLate : (performanceBook .ascii lateStart twoShares 2 "1M").lateWorth 1 = 50 := by
    decide +kernel
  have hZero := ((performance_iff rfl).mp h.performance hConst hTwo).1 1 hStarted
  rw [hLate] at hZero
  exact absurd hZero (by decide)

end AsetPlatform.Portfolio.Chat
