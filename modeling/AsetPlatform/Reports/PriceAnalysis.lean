import AsetPlatform.Reports.Readers

/-!
# The price analysis report

`_generate_summary_stats` and the report of `analyse_stock_price`, from the frame that
`_calculate_technical_indicators` returns: its closes by day, and the last row of the indicators. What
`_analyse_price_movement` returns is an argument.

`report_ok_iff`: the report is written exactly when the closes of two consecutive calendar months, and
of two consecutive calendar years, have a return; otherwise a missing return reaches a number format,
which raises. `parseAnalysis_report`: a report that is written is read back field by field.
-/

set_option autoImplicit false

namespace AsetPlatform.Reports

open Library

/-! ## The frame -/

/-- The closes of a ticker by day, as `_load_ohlcv` sorts them. -/
structure Closes where
  rows : List (Nat × PyFloat)
  nonempty : rows ≠ []
  sorted : rows.Pairwise fun r r' => r.1 ≤ r'.1

namespace Closes

def first (closes : Closes) : Nat × PyFloat := closes.rows.head closes.nonempty

def last (closes : Closes) : Nat × PyFloat := closes.rows.getLast closes.nonempty

/-- The last close of a period that is not NaN, or NaN: `.last()` of a group. -/
def lastClose (closes : Closes) (period : Nat → Nat) (p : Nat) : PyFloat :=
  match (closes.rows.filter fun r => period r.1 = p ∧ r.2.isNaN = false).getLast? with
  | some r => r.2
  | none => .nan

/-- `close.resample(…).last()`: one value for each period from the first to the last. -/
def resample (closes : Closes) (period : Nat → Nat) : List (Nat × PyFloat) :=
  (List.range' (period closes.first.1) (period closes.last.1 - period closes.first.1 + 1)).map
    fun p => (p, closes.lastClose period p)

/-- `.pct_change().dropna()`. -/
def returns (closes : Closes) (period : Nat → Nat) : List (Nat × PyFloat) :=
  let xs := closes.resample period
  ((xs.zip xs.tail).map fun e => (e.2.1, PyFloat.sub (PyFloat.div e.2.2 e.1.2) (.number 1))).filter
    fun r => !r.2.isNaN

end Closes

/-- The calendar year of a day, counted from 1970. -/
def yearOf (day : Nat) : Nat := monthOf day / 12

/-- The first row with the greatest value by an order, of rows without NaN. -/
def firstBest (better : PyFloat → PyFloat → Bool) :
    List (Nat × PyFloat) → Option (Nat × PyFloat)
  | [] => none
  | r :: rows => some (rows.foldl (fun best r' => if better r'.2 best.2 then r' else best) r)

/-- The row of `idxmax` and `max`. -/
def maxRow : List (Nat × PyFloat) → Option (Nat × PyFloat) := firstBest fun x y => PyFloat.lt y x

/-- The row of `idxmin` and `min`. -/
def minRow : List (Nat × PyFloat) → Option (Nat × PyFloat) := firstBest PyFloat.lt

/-- `.mean()`, of values without NaN. -/
def mean (xs : List PyFloat) : PyFloat :=
  PyFloat.div (xs.foldl PyFloat.add (.number 0)) (.number xs.length)

/-- The last row of the indicators; a value is absent when its column is. -/
structure Indicators where
  sma50 : Option PyFloat
  sma200 : Option PyFloat
  rsi14 : Option PyFloat
  macd : Option PyFloat
  macdSignal : Option PyFloat

/-! ## Summary statistics -/

/-- What `_generate_summary_stats` returns. -/
structure SummaryStats where
  currentPrice : PyFloat
  allTimeHigh : PyFloat
  allTimeHighDate : Nat
  allTimeLow : PyFloat
  allTimeLowDate : Nat
  totalReturnPct : PyFloat
  avgAnnualReturnPct : PyFloat
  bestMonth : Option Nat
  bestMonthReturnPct : Option PyFloat
  worstMonth : Option Nat
  worstMonthReturnPct : Option PyFloat
  bestYear : Option Nat
  bestYearReturnPct : Option PyFloat
  worstYear : Option Nat
  worstYearReturnPct : Option PyFloat
  sma50 : Option PyFloat
  sma50Signal : String
  sma200 : Option PyFloat
  sma200Signal : String
  rsi14 : Option PyFloat
  rsiSignal : List Char
  macdSignal : String

def returnPct (x : PyFloat) : PyFloat := (PyFloat.mul x (.number 100)).round 2

/-- The signal of a moving average; an average of zero counts as none. -/
def smaSignal (currentPrice : PyFloat) (sma : Option PyFloat) : String :=
  match sma with
  | none => "N/A"
  | some x => if x.isZero then "N/A" else if PyFloat.lt x currentPrice then "Above" else "Below"

def rsiLabel (rsi : PyFloat) : String :=
  if PyFloat.le (.number 70) rsi then "Overbought"
  else if PyFloat.le rsi (.number 30) then "Oversold"
  else "Neutral"

def rsiSignal (fmt : Formats) (rsi : Option PyFloat) : List Char :=
  match rsi with
  | none => "N/A".toList
  | some x => (rsiLabel x).toList ++ (" (RSI".toList ++ ':' :: ' ' :: (fmt.fixed 1 x ++ ")".toList))

def macdSignalText (macd macdSignal : Option PyFloat) : String :=
  match macd, macdSignal with
  | some x, some y => if PyFloat.lt y x then "Bullish" else "Bearish"
  | _, _ => "N/A"

/-- `_generate_summary_stats`. `idxmax` raises when every close is NaN. -/
def generateSummaryStats (fmt : Formats) (closes : Closes) (last : Indicators) :
    Except String SummaryStats :=
  let numbers := closes.rows.filter fun r => !r.2.isNaN
  match maxRow numbers, minRow numbers with
  | some high, some low =>
      let monthly := closes.returns monthOf
      let annual := closes.returns yearOf
      let currentPrice := closes.last.2
      .ok
        { currentPrice := currentPrice.round 2
          allTimeHigh := high.2.round 2
          allTimeHighDate := high.1
          allTimeLow := low.2.round 2
          allTimeLowDate := low.1
          totalReturnPct :=
            returnPct (PyFloat.sub (PyFloat.div currentPrice closes.first.2) (.number 1))
          avgAnnualReturnPct :=
            if annual.isEmpty then PyFloat.number 0 else returnPct (mean (annual.map Prod.snd))
          bestMonth := (maxRow monthly).map Prod.fst
          bestMonthReturnPct := (maxRow monthly).map fun r => returnPct r.2
          worstMonth := (minRow monthly).map Prod.fst
          worstMonthReturnPct := (minRow monthly).map fun r => returnPct r.2
          bestYear := (maxRow annual).map Prod.fst
          bestYearReturnPct := (maxRow annual).map fun r => returnPct r.2
          worstYear := (minRow annual).map Prod.fst
          worstYearReturnPct := (minRow annual).map fun r => returnPct r.2
          sma50 := last.sma50.map (PyFloat.round 2)
          sma50Signal := smaSignal currentPrice last.sma50
          sma200 := last.sma200.map (PyFloat.round 2)
          sma200Signal := smaSignal currentPrice last.sma200
          rsi14 := last.rsi14.map (PyFloat.round 1)
          rsiSignal := rsiSignal fmt last.rsi14
          macdSignal := macdSignalText last.macd last.macdSignal }
  | _, _ => .error "Encountered all NA values"

/-! ## The report -/

/-- What `_analyse_price_movement` returns, as far as the report shows it. -/
structure Movement where
  bullPhasePct : PyFloat
  bearPhasePct : PyFloat
  maxDrawdownPct : PyFloat
  maxDrawdownDurationDays : Nat
  supportLevels : List PyFloat
  resistanceLevels : List PyFloat
  annualizedVolatilityPct : PyFloat
  sharpeRatio : PyFloat

/-- The names of the months, as `%b` writes them. -/
def monthNames : List String :=
  ["Jan", "Feb", "Mar", "Apr", "May", "Jun", "Jul", "Aug", "Sep", "Oct", "Nov", "Dec"]

/-- `strftime("%b %Y")`, or `"N/A"`. -/
def monthLabel : Option Nat → List Char
  | none => "N/A".toList
  | some m => (monthNames.getD (m % 12) "Jan").toList ++
      (" ".toList ++ (toString (1970 + m / 12)).toList)

/-- The text of a year, or `"N/A"`. -/
def yearLabel : Option Nat → List Char
  | none => "N/A".toList
  | some y => (toString (1970 + y)).toList

/-- A number, or `"N/A"`. -/
def numberOrNA (fmt : Formats) : Option PyFloat → List Char
  | none => "N/A".toList
  | some x => fmt.str x

/-- `str` of a list of floats. -/
def listText (fmt : Formats) (xs : List PyFloat) : List Char :=
  "[".toList ++ (List.intercalate ", ".toList (xs.map fmt.str) ++ "]".toList)

/-- `{x:+.1f}`, which raises when there is no number. -/
def signedOrRaise (fmt : Formats) : Option PyFloat → Except String (List Char)
  | none => .error "unsupported format string passed to NoneType.__format__"
  | some x => .ok (fmt.signed 1 x)

/-- A line of the report: the key of the reader for it, the name before the colon, and the value. -/
structure ReportLine where
  key : String
  name : String
  value : List Char

def ReportLine.entry (line : ReportLine) : TextEntry := .field line.name.toList line.value

def priceSummaryLines (fmt : Formats) (sym : List Char) (stats : SummaryStats) : List ReportLine :=
  [⟨"current_price", "  Current Price   ", sym ++ fmt.str stats.currentPrice⟩,
    ⟨"all_time_high", "  All Time High   ", sym ++ fmt.str stats.allTimeHigh ++
      (" ".toList ++ ("(".toList ++ isoDate stats.allTimeHighDate ++ ")".toList))⟩,
    ⟨"all_time_low", "  All Time Low    ", sym ++ fmt.str stats.allTimeLow ++
      (" ".toList ++ ("(".toList ++ isoDate stats.allTimeLowDate ++ ")".toList))⟩,
    ⟨"total_return", "  10Y Total Return", fmt.signed 1 stats.totalReturnPct ++ "%".toList⟩,
    ⟨"avg_annual_return", "  Avg Annual Ret  ", fmt.signed 1 stats.avgAnnualReturnPct ++ "%".toList⟩]

def technicalLines (fmt : Formats) (sym : List Char) (stats : SummaryStats) (movement : Movement) :
    List ReportLine :=
  [⟨"sma_50", "  SMA 50          ", sym ++ numberOrNA fmt stats.sma50 ++
      (" ".toList ++ ("(".toList ++ stats.sma50Signal.toList ++ ")".toList))⟩,
    ⟨"sma_200", "  SMA 200         ", sym ++ numberOrNA fmt stats.sma200 ++
      (" ".toList ++ ("(".toList ++ stats.sma200Signal.toList ++ ")".toList))⟩,
    ⟨"rsi", "  RSI (14)        ", numberOrNA fmt stats.rsi14 ++ (" — ".toList ++ stats.rsiSignal)⟩,
    ⟨"macd", "  MACD            ", stats.macdSignal.toList⟩,
    ⟨"volatility", "  Volatility      ",
      fmt.str movement.annualizedVolatilityPct ++ "%".toList ++ (" ".toList ++ "annualised".toList)⟩,
    ⟨"sharpe", "  Sharpe Ratio    ", fmt.str movement.sharpeRatio⟩]

def phaseLines (fmt : Formats) (movement : Movement) : List ReportLine :=
  [⟨"bull_phase", "  Bull phase      ",
      fmt.str movement.bullPhasePct ++ "%".toList ++ (" of ".toList ++ "time".toList)⟩,
    ⟨"bear_phase", "  Bear phase      ",
      fmt.str movement.bearPhasePct ++ "%".toList ++ (" of ".toList ++ "time".toList)⟩]

def drawdownLines (fmt : Formats) (movement : Movement) : List ReportLine :=
  [⟨"max_drawdown", "  Max Drawdown    ", fmt.fixed 1 movement.maxDrawdownPct ++ "%".toList⟩,
    ⟨"max_dd_duration", "  Max DD Duration ",
      (toString movement.maxDrawdownDurationDays).toList ++ (" trading ".toList ++ "days".toList)⟩]

def levelLines (fmt : Formats) (movement : Movement) : List ReportLine :=
  [⟨"support", "  Support         ", listText fmt movement.supportLevels⟩,
    ⟨"resistance", "  Resistance      ", listText fmt movement.resistanceLevels⟩]

/-- The lines of the calendar, of the returns as the format has written them. -/
def calendarLines (stats : SummaryStats) (bmr wmr byr wyr : List Char) : List ReportLine :=
  [⟨"best_month", "  Best Month      ",
      monthLabel stats.bestMonth ++ (" ".toList ++ ("(".toList ++ bmr ++ "%)".toList))⟩,
    ⟨"worst_month", "  Worst Month     ",
      monthLabel stats.worstMonth ++ (" ".toList ++ ("(".toList ++ wmr ++ "%)".toList))⟩,
    ⟨"best_year", "  Best Year       ",
      yearLabel stats.bestYear ++ (" ".toList ++ ("(".toList ++ byr ++ "%)".toList))⟩,
    ⟨"worst_year", "  Worst Year      ",
      yearLabel stats.worstYear ++ (" ".toList ++ ("(".toList ++ wyr ++ "%)".toList))⟩]

/-- The report of `analyse_stock_price`, and the fields it prints. -/
structure AnalysisReport where
  ticker : Ticker
  priceSummary : List ReportLine
  technical : List ReportLine
  phases : List ReportLine
  drawdown : List ReportLine
  levels : List ReportLine
  calendar : List ReportLine

namespace AnalysisReport

def lines (r : AnalysisReport) : List ReportLine :=
  r.priceSummary ++ (r.technical ++ (r.phases ++ (r.drawdown ++ (r.levels ++ r.calendar))))

def entries (r : AnalysisReport) : List TextEntry :=
  ([.field "=== PRICE ANALYSIS".toList (r.ticker.text ++ (" ".toList ++ "===".toList)),
    .plain [], .plain "PRICE SUMMARY".toList] : List TextEntry) ++
  (r.priceSummary.map ReportLine.entry ++
  (([.plain [], .plain "TECHNICAL INDICATORS".toList] : List TextEntry) ++
  (r.technical.map ReportLine.entry ++
  (([.plain [], .plain "MARKET PHASES (vs SMA 200)".toList] : List TextEntry) ++
  (r.phases.map ReportLine.entry ++
  (([.plain [], .plain "DRAWDOWN".toList] : List TextEntry) ++
  (r.drawdown.map ReportLine.entry ++
  (([.plain [], .plain "KEY LEVELS (last 252 days)".toList] : List TextEntry) ++
  (r.levels.map ReportLine.entry ++
  (([.plain [], .plain "CALENDAR PERFORMANCE".toList] : List TextEntry) ++
  r.calendar.map ReportLine.entry))))))))))

def text (r : AnalysisReport) : List Char := renderEntries r.entries

end AnalysisReport

/-- The report, of the statistics and of the returns of the calendar as they are written. -/
def reportOf (fmt : Formats) (sym : List Char) (ticker : Ticker) (stats : SummaryStats)
    (movement : Movement) (bmr wmr byr wyr : List Char) : AnalysisReport where
  ticker := ticker
  priceSummary := priceSummaryLines fmt sym stats
  technical := technicalLines fmt sym stats movement
  phases := phaseLines fmt movement
  drawdown := drawdownLines fmt movement
  levels := levelLines fmt movement
  calendar := calendarLines stats bmr wmr byr wyr

/-- The report, from the statistics: a missing return raises in its format. -/
def formatReport (fmt : Formats) (sym : List Char) (ticker : Ticker) (stats : SummaryStats)
    (movement : Movement) : Except String AnalysisReport := do
  let bmr ← signedOrRaise fmt stats.bestMonthReturnPct
  let wmr ← signedOrRaise fmt stats.worstMonthReturnPct
  let byr ← signedOrRaise fmt stats.bestYearReturnPct
  let wyr ← signedOrRaise fmt stats.worstYearReturnPct
  return reportOf fmt sym ticker stats movement bmr wmr byr wyr

/-- `analyse_stock_price` past its freshness gate: the report, or what was raised, which it answers as
`Error analysing '…': …`. -/
def analyseStockPrice (fmt : Formats) (code : CurrencyCode) (ticker : Ticker) (closes : Closes)
    (last : Indicators) (movement : Movement) : Except String AnalysisReport := do
  let stats ← generateSummaryStats fmt closes last
  formatReport fmt (currencySymbol code) ticker stats movement

/-! ## Reading the report back -/

/-- The names of the lines of the report. -/
def analysisLineNames : List String :=
  ["  Current Price   ", "  All Time High   ", "  All Time Low    ", "  10Y Total Return",
    "  Avg Annual Ret  ", "  SMA 50          ", "  SMA 200         ", "  RSI (14)        ",
    "  MACD            ", "  Volatility      ", "  Sharpe Ratio    ", "  Bull phase      ",
    "  Bear phase      ", "  Max Drawdown    ", "  Max DD Duration ", "  Support         ",
    "  Resistance      ", "  Best Month      ", "  Worst Month     ", "  Best Year       ",
    "  Worst Year      "]

/-- The names of its fields, the headline first. -/
def analysisNames : List (List Char) :=
  "=== PRICE ANALYSIS".toList :: analysisLineNames.map String.toList

theorem wellLabelled_analysis : ∀ e ∈ analysisLabels, WellLabelled e.2.toList := by
  simp only [analysisLabels, List.forall_mem_cons]
  repeat rw [String.toList_ofList]
  decide +kernel

/-- Each label ends the name of its own line and of none before it. -/
theorem findIdx?_analysisNames :
    (analysisLabels.map fun e => analysisNames.findIdx? fun name =>
      prefixTest e.2.toList.reverse (ending whiteSpace name) = some true) =
      (List.range' 1 21).map some := by
  simp only [analysisLabels, analysisNames, analysisLineNames, List.map]
  repeat rw [String.toList_ofList]
  decide +kernel

theorem isSome_prefixTest_analysisNames :
    ∀ e ∈ analysisLabels, ∀ name ∈ analysisNames,
      (prefixTest e.2.toList.reverse (ending whiteSpace name)).isSome := by
  have hAll : ∀ l ∈ analysisLabels.map fun e => e.2.toList, ∀ name ∈ analysisNames,
      (prefixTest l.reverse (ending whiteSpace name)).isSome := by
    simp only [analysisLabels, analysisNames, analysisLineNames, List.map]
    repeat rw [String.toList_ofList]
    decide +kernel
  exact fun e he => hAll _ (List.mem_map_of_mem he)

theorem colon_notMem_analysisNames : ∀ name ∈ analysisNames, ':' ∉ name := by
  simp only [analysisNames, analysisLineNames, List.map]
  repeat rw [String.toList_ofList]
  decide

theorem prefixTest_rsi :
    ∀ e ∈ analysisLabels,
      prefixTest e.2.toList.reverse (ending whiteSpace " (RSI".toList) = some false := by
  simp only [analysisLabels, List.forall_mem_cons]
  repeat rw [String.toList_ofList]
  decide +kernel

section Printed

variable (fmt : Formats)

theorem word_numberOrNA (x : Option PyFloat) : Word (numberOrNA fmt x) := by
  cases x with
  | none =>
      have hNA : Word "N/A".toList := by decide
      exact hNA
  | some x => exact word_numeral (fmt.numeral_str x)

theorem word_smaSignal (price : PyFloat) (sma : Option PyFloat) :
    Word (smaSignal price sma).toList := by
  unfold smaSignal
  split
  · decide
  · split
    · decide
    · split <;> decide

theorem word_macdSignalText (macd signal : Option PyFloat) :
    Word (macdSignalText macd signal).toList := by
  unfold macdSignalText
  split
  · split <;> decide
  · decide

theorem word_rsiLabel (rsi : PyFloat) : Word (rsiLabel rsi).toList := by
  unfold rsiLabel
  split
  · decide
  · split <;> decide

theorem cell_monthLabel (m : Option Nat) : Cell (monthLabel m) := by
  cases m with
  | none =>
      have hNA : Word "N/A".toList := by decide
      exact hNA.cell
  | some m =>
      have hNames : ∀ n < 12, Word (monthNames.getD n "Jan").toList := by decide
      exact (hNames _ (Nat.mod_lt m (by omega))).cell.blank (cell_numeral (numeral_toString _))

theorem cell_yearLabel (y : Option Nat) : Cell (yearLabel y) := by
  cases y with
  | none =>
      have hNA : Word "N/A".toList := by decide
      exact hNA.cell
  | some y => exact cell_numeral (numeral_toString _)

theorem mem_intercalate {α : Type*} {sep : List α} {xs : List (List α)} {c : α}
    (h : c ∈ List.intercalate sep xs) : c ∈ sep ∨ ∃ x ∈ xs, c ∈ x := by
  induction xs with
  | nil => exact absurd h List.not_mem_nil
  | cons x xs ih =>
      cases xs with
      | nil => exact .inr ⟨x, List.mem_cons_self, by simpa [List.intercalate] using h⟩
      | cons y ys =>
          rw [List.intercalate_cons_cons] at h
          rcases List.mem_append.mp h with h | h
          · rcases List.mem_append.mp h with h | h
            · exact .inr ⟨x, List.mem_cons_self, h⟩
            · exact .inl h
          · rcases ih h with h | ⟨z, hz, h⟩
            · exact .inl h
            · exact .inr ⟨z, List.mem_cons_of_mem x hz, h⟩

theorem cell_listText (xs : List PyFloat) : Cell (listText fmt xs) := by
  have hMiddle : ∀ c ∈ List.intercalate ", ".toList (xs.map fmt.str), c ≠ '\n' ∧ c ≠ ':' := by
    intro c hc
    rcases mem_intercalate hc with hSep | ⟨x, hx, hc⟩
    · have hAll : ∀ c ∈ ", ".toList, c ≠ '\n' ∧ c ≠ ':' := by decide
      exact hAll c hSep
    · obtain ⟨v, -, rfl⟩ := List.mem_map.mp hx
      have hCell := cell_numeral (fmt.numeral_str v)
      exact ⟨fun h => hCell.tidy.line (h ▸ hc), fun h => hCell.colon (h ▸ hc)⟩
  exact (cell_word (by decide)).join (fun h => (hMiddle _ h).1 rfl) (fun h => (hMiddle _ h).2 rfl)
    (cell_word (by decide))

end Printed

/-- The texts of the statistics that are not numbers, as the report needs them. -/
structure SummaryStats.Worded (fmt : Formats) (stats : SummaryStats) : Prop where
  sma50 : Word stats.sma50Signal.toList
  sma200 : Word stats.sma200Signal.toList
  macd : Word stats.macdSignal.toList
  rsi : ∃ x, stats.rsiSignal = Reports.rsiSignal fmt x

theorem worded_generateSummaryStats {fmt : Formats} {closes : Closes} {last : Indicators}
    {stats : SummaryStats} (h : generateSummaryStats fmt closes last = .ok stats) :
    stats.Worded fmt := by
  unfold generateSummaryStats at h
  dsimp only at h
  split at h
  · cases h
    exact ⟨word_smaSignal _ _, word_smaSignal _ _, word_macdSignalText _ _, last.rsi14, rfl⟩
  · cases h

/-- A label of the report: what every value has to be for it. -/
def Readable (l : String) (value : List Char) : Prop :=
  ∀ h : WellLabelled l.toList, Tidy whiteSpace value ∧ Quiet (labelOf h) value

theorem Cell.readable {value : List Char} (h : Cell value) (l : String) : Readable l value :=
  fun _ => ⟨h.tidy, quiet_of_notMem h.colon⟩

theorem readable_rsi {fmt : Formats} {l : String × String} (hl : l ∈ analysisLabels)
    (rsi x : Option PyFloat) :
    Readable l.2 (numberOrNA fmt rsi ++ (" — ".toList ++ rsiSignal fmt x)) := by
  have hNumber := (word_numberOrNA fmt rsi).cell
  cases x with
  | none =>
      have hNA : Word "N/A".toList := by decide
      exact (hNumber.join (by decide) (by decide) hNA.cell).readable l.2
  | some x =>
      intro h
      have hLabel := (word_rsiLabel x).cell
      have hValue := cell_numeral (fmt.numeral_fixed 1 x)
      have hClose : Cell ")".toList := cell_word (by decide)
      constructor
      · refine hNumber.tidy.join (by decide) (hLabel.tidy.join (m := " (RSI: ".toList) (by decide) ?_)
        exact (hValue.append hClose).tidy
      · have hBefore := hNumber.join (m := " — ".toList) (by decide) (by decide) hLabel
        have hBehind : ':' ∉ ' ' :: (fmt.fixed 1 x ++ ")".toList) := by
          rw [List.mem_cons, not_or]
          exact ⟨by decide, (hValue.append hClose).colon⟩
        have hQuiet := quiet_of_colon (L := labelOf h) hBefore.colon (by decide)
          (prefixTest_rsi l hl) (quiet_of_notMem hBehind)
        simpa only [rsiSignal, List.append_assoc] using hQuiet

section Reading

variable {fmt : Formats} {sym : List Char} {stats : SummaryStats}

/-- Every value of the report can be read under every label. -/
theorem readable_reportOf (hSym : Inline sym) (hStats : stats.Worded fmt) (ticker : Ticker)
    (movement : Movement) (bmr wmr byr wyr : PyFloat) {l : String × String}
    (hl : l ∈ analysisLabels) :
    ∀ line ∈ (reportOf fmt sym ticker stats movement (fmt.signed 1 bmr) (fmt.signed 1 wmr)
      (fmt.signed 1 byr) (fmt.signed 1 wyr)).lines, Readable l.2 line.value := by
  have hMoney : ∀ x, Cell (sym ++ fmt.str x) := fun x =>
    (hSym.word (word_numeral (fmt.numeral_str x))).cell
  have hDate : ∀ day, Cell ("(".toList ++ isoDate day ++ ")".toList) := fun day =>
    (cell_numeral (numeral_isoDate day)).parens
  have hSma : ∀ x, Cell (sym ++ numberOrNA fmt x) := fun x =>
    (hSym.word (word_numberOrNA fmt x)).cell
  have hSigned : ∀ x, Cell (fmt.signed 1 x) := fun x => cell_numeral (fmt.numeral_signed 1 x)
  have hStr : ∀ x, Cell (fmt.str x) := fun x => cell_numeral (fmt.numeral_str x)
  have hReturn : ∀ x, Cell ("(".toList ++ fmt.signed 1 x ++ "%)".toList) := fun x =>
    ((cell_word (by decide)).append (hSigned x)).append (cell_word (by decide))
  obtain ⟨x, hRsi⟩ := hStats.rsi
  intro line hLine
  simp only [reportOf, AnalysisReport.lines, priceSummaryLines, technicalLines, phaseLines,
    drawdownLines, levelLines, calendarLines, List.cons_append, List.nil_append, List.mem_cons,
    List.not_mem_nil, or_false] at hLine
  rcases hLine with rfl | rfl | rfl | rfl | rfl | rfl | rfl | rfl | rfl | rfl | rfl | rfl | rfl | rfl |
    rfl | rfl | rfl | rfl | rfl | rfl | rfl
  · exact (hMoney _).readable l.2
  · exact ((hMoney _).blank (hDate _)).readable l.2
  · exact ((hMoney _).blank (hDate _)).readable l.2
  · exact (hSigned _).percent.readable l.2
  · exact (hSigned _).percent.readable l.2
  · exact ((hSma _).blank hStats.sma50.cell.parens).readable l.2
  · exact ((hSma _).blank hStats.sma200.cell.parens).readable l.2
  · simp only [hRsi]
    exact readable_rsi hl stats.rsi14 x
  · exact hStats.macd.cell.readable l.2
  · exact ((hStr _).percent.blank (cell_word (by decide))).readable l.2
  · exact (hStr _).readable l.2
  · exact ((hStr _).percent.join (by decide) (by decide) (cell_word (by decide))).readable l.2
  · exact ((hStr _).percent.join (by decide) (by decide) (cell_word (by decide))).readable l.2
  · exact (cell_numeral (fmt.numeral_fixed 1 _)).percent.readable l.2
  · exact ((cell_numeral (numeral_toString _)).join (by decide) (by decide)
      (cell_word (by decide))).readable l.2
  · exact (cell_listText fmt _).readable l.2
  · exact (cell_listText fmt _).readable l.2
  · exact ((cell_monthLabel _).blank (hReturn _)).readable l.2
  · exact ((cell_monthLabel _).blank (hReturn _)).readable l.2
  · exact ((cell_yearLabel _).blank (hReturn _)).readable l.2
  · exact ((cell_yearLabel _).blank (hReturn _)).readable l.2

/-- The headline, as a field. -/
def AnalysisReport.headline (r : AnalysisReport) : List Char × List Char :=
  ("=== PRICE ANALYSIS".toList, r.ticker.text ++ (" ".toList ++ "===".toList))

theorem pairs_entries (r : AnalysisReport) :
    r.entries.filterMap TextEntry.pair =
      r.headline :: r.lines.map fun line => (line.name.toList, line.value) := by
  have hLines : ∀ lines : List ReportLine, (lines.map ReportLine.entry).filterMap TextEntry.pair =
      lines.map fun line => (line.name.toList, line.value) := by
    intro lines
    rw [List.filterMap_map, ← List.filterMap_eq_map]
    rfl
  simp only [AnalysisReport.entries, AnalysisReport.lines, List.filterMap_append, hLines,
    List.map_append]
  rfl

theorem colon_notMem_plain {r : AnalysisReport} {text : List Char} (h : .plain text ∈ r.entries) :
    ':' ∉ text := by
  have hLines : ∀ lines : List ReportLine, .plain text ∉ lines.map ReportLine.entry := by
    intro lines hMem
    obtain ⟨line, -, hEntry⟩ := List.mem_map.mp hMem
    exact TextEntry.noConfusion hEntry
  simp only [AnalysisReport.entries, List.mem_append, hLines, false_or, or_false, List.mem_cons,
    List.not_mem_nil, reduceCtorEq, TextEntry.plain.injEq] at h
  rcases h with (rfl | rfl) | (rfl | rfl) | (rfl | rfl) | (rfl | rfl) | (rfl | rfl) | (rfl | rfl)
  all_goals decide

/-- A written report is read back field by field. -/
theorem parseAnalysis_report (hSym : Inline sym) (hStats : stats.Worded fmt) (ticker : Ticker)
    (movement : Movement) (bmr wmr byr wyr : PyFloat) (r : AnalysisReport)
    (hr : r = reportOf fmt sym ticker stats movement (fmt.signed 1 bmr) (fmt.signed 1 wmr)
      (fmt.signed 1 byr) (fmt.signed 1 wyr)) :
    parseAnalysis (some r.text) = r.lines.map fun line => (line.key, some line.value) := by
  have hReadable : ∀ l ∈ analysisLabels, ∀ line ∈ r.lines, Readable l.2 line.value := by
    intro l hl
    rw [hr]
    exact readable_reportOf hSym hStats ticker movement bmr wmr byr wyr hl
  have hKeys : r.lines.map ReportLine.key = analysisLabels.map Prod.fst := by
    rw [hr]
    rfl
  have hLineNames : r.lines.map ReportLine.name = analysisLineNames := by
    rw [hr]
    rfl
  have hNames : (r.entries.filterMap TextEntry.pair).map Prod.fst = analysisNames := by
    rw [pairs_entries, analysisNames, ← hLineNames, List.map_cons, List.map_map, List.map_map]
    rfl
  have hClear : ∀ (l : String × String) (hl : l ∈ analysisLabels), ∀ e ∈ r.entries,
      e.Clear (labelOf (wellLabelled_analysis l hl)) := by
    intro l hl e he
    cases e with
    | plain text => exact quiet_of_notMem (colon_notMem_plain he)
    | field name value =>
        have hPair : (name, value) ∈ r.entries.filterMap TextEntry.pair :=
          List.mem_filterMap.mpr ⟨_, he, rfl⟩
        have hName : name ∈ analysisNames := hNames ▸ List.mem_map.mpr ⟨_, hPair, rfl⟩
        have hTest := isSome_prefixTest_analysisNames l hl name hName
        have hValue : Tidy whiteSpace value ∧ Quiet (labelOf (wellLabelled_analysis l hl)) value := by
          rw [pairs_entries] at hPair
          rcases List.mem_cons.mp hPair with hHead | hLine
          · cases hHead
            have hTicker : Cell r.ticker.text := r.ticker.inline.cell r.ticker.nonempty
            have hValue := hTicker.blank (t := "===".toList) (cell_word (by decide))
            exact ⟨hValue.tidy, quiet_of_notMem hValue.colon⟩
          · obtain ⟨line, hMem, hSame⟩ := List.mem_map.mp hLine
            cases hSame
            exact hReadable l hl line hMem _
        exact ⟨colon_notMem_analysisNames name hName, hTest, hValue.1, hValue.2⟩
  have hText : renderEntries r.entries ++ [] ≠ [] := by
    simp [renderEntries, AnalysisReport.entries, TextEntry.render]
  have hLength : r.lines.length = analysisLabels.length := by
    rw [← List.length_map (f := ReportLine.key), hKeys, List.length_map]
  rw [parseAnalysis]
  apply List.ext_getElem
  · rw [List.length_map, List.length_map, hLength]
  · intro i hi hi'
    rw [List.length_map] at hi hi'
    have hl : analysisLabels[i] ∈ analysisLabels := List.getElem_mem hi
    -- the label of this line is found in its name and in none before it
    have hFirst : analysisNames.findIdx? (fun name => prefixTest analysisLabels[i].2.toList.reverse
        (ending whiteSpace name) = some true) = some (i + 1) := by
      have hRange := congrArg (·[i]?) findIdx?_analysisNames
      rw [hLength] at hi'
      have hi'' : i < 21 := hi'
      simpa [hi, List.getElem?_range', hi'', Nat.add_comm] using hRange
    have hRead := extract_render (wellLabelled_analysis _ hl) hText (hClear _ hl)
      (quiet_of_notMem List.not_mem_nil)
    rw [List.append_nil, findSome?_read (L := labelOf (wellLabelled_analysis _ hl)) (i := i + 1)
      (by rw [hNames]; exact hFirst), pairs_entries, List.getElem?_cons_succ,
      List.getElem?_map, List.getElem?_eq_getElem hi'] at hRead
    have hKey : analysisLabels[i].1 = r.lines[i].key := by
      have hSame := congrArg (·[i]?) hKeys
      simpa [hi, hi'] using hSame.symm
    rw [List.getElem_map, List.getElem_map, hKey]
    exact congrArg (Prod.mk _) hRead

end Reading

/-! ## When the report is written -/

namespace Closes

variable (closes : Closes)

theorem first_le {r : Nat × PyFloat} (hr : r ∈ closes.rows) : closes.first.1 ≤ r.1 := by
  obtain ⟨i, hi, rfl⟩ := List.mem_iff_getElem.mp hr
  rw [first, List.head_eq_getElem]
  rcases Nat.eq_zero_or_pos i with rfl | hPos
  · exact le_rfl
  · exact List.pairwise_iff_getElem.mp closes.sorted 0 i _ hi hPos

theorem le_last {r : Nat × PyFloat} (hr : r ∈ closes.rows) : r.1 ≤ closes.last.1 := by
  obtain ⟨i, hi, rfl⟩ := List.mem_iff_getElem.mp hr
  rw [last, List.getLast_eq_getElem]
  rcases Nat.lt_or_ge i (closes.rows.length - 1) with hLess | hLast
  · exact List.pairwise_iff_getElem.mp closes.sorted i _ hi _ hLess
  · have hSame : i = closes.rows.length - 1 := by omega
    subst hSame
    exact le_rfl

theorem exists_of_lastClose {period : Nat → Nat} {p : Nat}
    (h : (closes.lastClose period p).isNaN = false) :
    ∃ r ∈ closes.rows, period r.1 = p ∧ r.2.isNaN = false := by
  unfold lastClose at h
  split at h
  · rename_i r hLast
    obtain ⟨hMem, hRow⟩ := List.mem_filter.mp (List.mem_of_getLast? hLast)
    exact ⟨r, hMem, of_decide_eq_true hRow⟩
  · exact absurd h Bool.noConfusion

/-- Two consecutive periods have closes with a return: neither is NaN, they are not both zero and not
both infinite. -/
def HasReturn (period : Nat → Nat) : Prop :=
  ∃ p, (closes.lastClose period p).isNaN = false ∧ (closes.lastClose period (p + 1)).isNaN = false ∧
    ¬ ((closes.lastClose period p).isZero = true ∧ (closes.lastClose period (p + 1)).isZero = true) ∧
    ¬ ((closes.lastClose period p).isFinite = false ∧
      (closes.lastClose period (p + 1)).isFinite = false)

theorem mem_zip_tail_iff {α : Type*} {xs : List α} {e : α × α} :
    e ∈ xs.zip xs.tail ↔ ∃ i, xs[i]? = some e.1 ∧ xs[i + 1]? = some e.2 := by
  rw [List.mem_iff_getElem?]
  refine exists_congr fun i => ?_
  rw [List.getElem?_zip_eq_some, List.getElem?_tail]

theorem getElem?_resample {period : Nat → Nat} {i : Nat} {r : Nat × PyFloat} :
    (closes.resample period)[i]? = some r ↔
      i < period closes.last.1 - period closes.first.1 + 1 ∧
        (period closes.first.1 + i, closes.lastClose period (period closes.first.1 + i)) = r := by
  rw [resample, List.getElem?_map, Option.map_eq_some_iff]
  constructor
  · rintro ⟨p, hp, rfl⟩
    obtain ⟨hi, rfl⟩ := List.getElem?_eq_some_iff.mp hp
    rw [List.length_range'] at hi
    exact ⟨hi, by rw [List.getElem_range', Nat.one_mul]⟩
  · rintro ⟨hi, rfl⟩
    exact ⟨_, by rw [List.getElem?_range' hi, Nat.one_mul], rfl⟩

theorem isNaN_return_iff (x y : PyFloat) :
    (PyFloat.sub (PyFloat.div y x) (.number 1)).isNaN = false ↔
      x.isNaN = false ∧ y.isNaN = false ∧ ¬ (x.isZero = true ∧ y.isZero = true) ∧
        ¬ (x.isFinite = false ∧ y.isFinite = false) := by
  rw [PyFloat.isNaN_sub_number, ← Bool.not_eq_true, PyFloat.isNaN_div_iff]
  simp only [not_or, Bool.not_eq_true]
  constructor
  · rintro ⟨hy, hx, hZero, hFinite⟩
    exact ⟨hx, hy, fun h => hZero h.symm, fun h => hFinite h.symm⟩
  · rintro ⟨hx, hy, hZero, hFinite⟩
    exact ⟨hy, hx, fun h => hZero h.symm, fun h => hFinite h.symm⟩

theorem returns_ne_nil_iff {period : Nat → Nat} (hPeriod : Monotone period) :
    closes.returns period ≠ [] ↔ closes.HasReturn period := by
  rw [returns, Ne, List.filter_eq_nil_iff]
  push Not
  constructor
  · rintro ⟨r, hr, hNumber⟩
    obtain ⟨e, he, rfl⟩ := List.mem_map.mp hr
    obtain ⟨i, hFirst, hSecond⟩ := mem_zip_tail_iff.mp he
    obtain ⟨-, hFirst⟩ := closes.getElem?_resample.mp hFirst
    obtain ⟨-, hSecond⟩ := closes.getElem?_resample.mp hSecond
    refine ⟨period closes.first.1 + i, ?_⟩
    have hReturn := (isNaN_return_iff e.1.2 e.2.2).mp (by simpa using hNumber)
    rwa [← hFirst, ← hSecond] at hReturn
  · rintro ⟨p, hReturn⟩
    obtain ⟨r, hr, hp, -⟩ := closes.exists_of_lastClose hReturn.1
    obtain ⟨r', hr', hp', -⟩ := closes.exists_of_lastClose hReturn.2.1
    have hStart : period closes.first.1 ≤ p := hp ▸ hPeriod (closes.first_le hr)
    have hStop : p + 1 ≤ period closes.last.1 := hp' ▸ hPeriod (closes.le_last hr')
    obtain ⟨i, rfl⟩ := Nat.exists_eq_add_of_le hStart
    have hMem : (((period closes.first.1 + i, closes.lastClose period (period closes.first.1 + i)),
        (period closes.first.1 + (i + 1),
          closes.lastClose period (period closes.first.1 + (i + 1)))) :
          (Nat × PyFloat) × (Nat × PyFloat)) ∈
        (closes.resample period).zip (closes.resample period).tail :=
      mem_zip_tail_iff.mpr ⟨i, closes.getElem?_resample.mpr ⟨by omega, rfl⟩,
        closes.getElem?_resample.mpr ⟨by omega, rfl⟩⟩
    refine ⟨_, List.mem_map.mpr ⟨_, hMem, rfl⟩, ?_⟩
    have hNumber := (isNaN_return_iff _ _).mpr hReturn
    simpa [Nat.add_assoc] using hNumber

end Closes

theorem monotone_yearOf : Monotone yearOf := fun _ _ h => Nat.div_le_div_right (monthOf_mono h)

theorem maxRow_eq_none_iff {rows : List (Nat × PyFloat)} : maxRow rows = none ↔ rows = [] := by
  cases rows with
  | nil => exact iff_of_true rfl rfl
  | cons r rows => exact iff_of_false (Option.some_ne_none _) (List.cons_ne_nil r rows)

theorem minRow_eq_none_iff {rows : List (Nat × PyFloat)} : minRow rows = none ↔ rows = [] := by
  cases rows with
  | nil => exact iff_of_true rfl rfl
  | cons r rows => exact iff_of_false (Option.some_ne_none _) (List.cons_ne_nil r rows)

theorem generateSummaryStats_of_returns (fmt : Formats) {closes : Closes} (last : Indicators)
    (h : closes.HasReturn monthOf) :
    ∃ stats, generateSummaryStats fmt closes last = .ok stats := by
  obtain ⟨p, hNumber, -⟩ := h
  obtain ⟨r, hr, -, hRow⟩ := closes.exists_of_lastClose hNumber
  have hNumbers : closes.rows.filter (fun r => !r.2.isNaN) ≠ [] := by
    intro hNil
    have hMem : r ∈ closes.rows.filter fun r => !r.2.isNaN :=
      List.mem_filter.mpr ⟨hr, by rw [hRow]; rfl⟩
    rw [hNil] at hMem
    exact List.not_mem_nil hMem
  unfold generateSummaryStats
  dsimp only
  cases hHigh : maxRow (closes.rows.filter fun r => !r.2.isNaN) with
  | none => exact absurd (maxRow_eq_none_iff.mp hHigh) hNumbers
  | some high =>
      cases hLow : minRow (closes.rows.filter fun r => !r.2.isNaN) with
      | none => exact absurd (minRow_eq_none_iff.mp hLow) hNumbers
      | some low => exact ⟨_, rfl⟩

/-- The four returns of the calendar, of statistics that exist. -/
theorem calendar_of_generateSummaryStats {fmt : Formats} {closes : Closes} {last : Indicators}
    {stats : SummaryStats} (h : generateSummaryStats fmt closes last = .ok stats) :
    (stats.bestMonthReturnPct = (maxRow (closes.returns monthOf)).map fun r => returnPct r.2) ∧
      (stats.worstMonthReturnPct = (minRow (closes.returns monthOf)).map fun r => returnPct r.2) ∧
      (stats.bestYearReturnPct = (maxRow (closes.returns yearOf)).map fun r => returnPct r.2) ∧
      stats.worstYearReturnPct = (minRow (closes.returns yearOf)).map fun r => returnPct r.2 := by
  unfold generateSummaryStats at h
  dsimp only at h
  split at h
  · cases h
    exact ⟨rfl, rfl, rfl, rfl⟩
  · cases h

/-- The answer is a report, and reading it yields for each line the value it prints. -/
def AnalysisRoundTrips (answer : Except String AnalysisReport) : Prop :=
  ∃ r, answer = .ok r ∧
    parseAnalysis (some r.text) = r.lines.map fun line => (line.key, some line.value)

theorem analysisRoundTrips_iff (fmt : Formats) (code : CurrencyCode) (ticker : Ticker)
    (closes : Closes) (last : Indicators) (movement : Movement) :
    AnalysisRoundTrips (analyseStockPrice fmt code ticker closes last movement) ↔
      closes.HasReturn monthOf ∧ closes.HasReturn yearOf := by
  have hSym := inline_currencySymbol code
  constructor
  · rintro ⟨r, hReport, -⟩
    rw [← closes.returns_ne_nil_iff fun _ _ => monthOf_mono,
      ← closes.returns_ne_nil_iff monotone_yearOf]
    cases hStats : generateSummaryStats fmt closes last with
    | error e =>
        rw [analyseStockPrice, hStats] at hReport
        cases hReport
    | ok stats =>
        obtain ⟨hBestMonth, -, hBestYear, -⟩ := calendar_of_generateSummaryStats hStats
        rw [analyseStockPrice, hStats] at hReport
        change formatReport fmt (currencySymbol code) ticker stats movement = .ok r at hReport
        constructor
        · intro hNil
          rw [hNil] at hBestMonth
          rw [formatReport, hBestMonth] at hReport
          cases hReport
        · intro hNil
          rw [hNil] at hBestYear
          rw [formatReport, hBestYear] at hReport
          -- the months may or may not have raised before
          cases hMonth : signedOrRaise fmt stats.bestMonthReturnPct with
          | error e =>
              rw [hMonth] at hReport
              cases hReport
          | ok bmr =>
              cases hWorst : signedOrRaise fmt stats.worstMonthReturnPct with
              | error e =>
                  rw [hMonth, hWorst] at hReport
                  cases hReport
              | ok wmr =>
                  rw [hMonth, hWorst] at hReport
                  cases hReport
  · rintro ⟨hMonth, hYear⟩
    obtain ⟨stats, hStats⟩ := generateSummaryStats_of_returns fmt last hMonth
    obtain ⟨hBestMonth, hWorstMonth, hBestYear, hWorstYear⟩ := calendar_of_generateSummaryStats hStats
    have hMonths := (closes.returns_ne_nil_iff fun _ _ => monthOf_mono).mpr hMonth
    have hYears := (closes.returns_ne_nil_iff monotone_yearOf).mpr hYear
    obtain ⟨bm, hbm⟩ := Option.ne_none_iff_exists'.mp (mt maxRow_eq_none_iff.mp hMonths)
    obtain ⟨wm, hwm⟩ := Option.ne_none_iff_exists'.mp (mt minRow_eq_none_iff.mp hMonths)
    obtain ⟨bestY, hby⟩ := Option.ne_none_iff_exists'.mp (mt maxRow_eq_none_iff.mp hYears)
    obtain ⟨wy, hwy⟩ := Option.ne_none_iff_exists'.mp (mt minRow_eq_none_iff.mp hYears)
    rw [hbm] at hBestMonth
    rw [hwm] at hWorstMonth
    rw [hby] at hBestYear
    rw [hwy] at hWorstYear
    refine ⟨_, ?_, parseAnalysis_report hSym (worded_generateSummaryStats hStats) ticker movement
      (returnPct bm.2) (returnPct wm.2) (returnPct bestY.2) (returnPct wy.2) _ rfl⟩
    rw [analyseStockPrice, hStats]
    change formatReport fmt (currencySymbol code) ticker stats movement = _
    rw [formatReport, hBestMonth, hWorstMonth, hBestYear, hWorstYear]
    rfl

end AsetPlatform.Reports
