import AsetPlatform.Library.Floats
import AsetPlatform.Library.Frames
import AsetPlatform.Library.Text
import Mathlib.Data.Int.ConditionallyCompleteOrder

/-!
# Readers of the latest rows

The readers of `stocks/repository.py` and `backend/insights_routes.py` that pick the latest row of a
ticker: the single-ticker, batch, all-tickers and insights readers of `company_info`, and the
single-ticker and all-tickers readers of `analysis_summary` and `forecast_runs`. They sort by different
columns, take a first or a last row, or the first value of each column. They agree whichever way the
sorting leaves equal stamps exactly when one row of the ticker is behind all of these
(`readersAgree_iff`).
-/

set_option autoImplicit false

namespace AsetPlatform.StockData.LatestReaders

open AsetPlatform.Library

/-! ## Frames of cells -/

inductive Cell where
  | text (s : String)
  | number (x : ℚ)
  | stamp (t : Int)
  deriving DecidableEq

/-- A row by the names of its columns. -/
abbrev Row := String → Option Cell

def textOf (column : String) (r : Row) : Option String :=
  match r column with
  | some (.text s) => some s
  | _ => none

def stampOf (column : String) (r : Row) : Option Int :=
  match r column with
  | some (.stamp t) => some t
  | _ => none

def ticker (r : Row) : Option String := textOf "ticker" r

/-- The place of a stamp among those in descending order, where a missing one comes last. -/
def downRank (column : String) (r : Row) : WithBot Int := stampOf column r

/-- The place of a stamp among those in ascending order, where a missing one comes last too. -/
def upRank (column : String) (r : Row) : WithTop Int := stampOf column r

/-- `df.sort_values(column)` in both directions. -/
structure SortValues where
  descending : String → List Row → List Row
  ascending : String → List Row → List Row
  sortsDown : ∀ column, SortsDown (downRank column) (descending column)
  sortsUp : ∀ column, SortsUp (upRank column) (ascending column)

def SortValues.insertion : SortValues where
  descending column := List.insertionSort fun a b => downRank column b ≤ downRank column a
  ascending column := List.insertionSort fun a b => upRank column a ≤ upRank column b
  sortsDown column :=
    have : IsTrans Row fun a b => downRank column b ≤ downRank column a :=
      ⟨fun _ _ _ hab hbc => le_trans hbc hab⟩
    have : Std.Total fun a b : Row => downRank column b ≤ downRank column a :=
      ⟨fun a b => le_total (downRank column b) (downRank column a)⟩
    ⟨List.perm_insertionSort _, List.pairwise_insertionSort _⟩
  sortsUp column :=
    have : IsTrans Row fun a b => upRank column a ≤ upRank column b :=
      ⟨fun _ _ _ => le_trans⟩
    have : Std.Total fun a b : Row => upRank column a ≤ upRank column b :=
      ⟨fun a b => le_total (upRank column a) (upRank column b)⟩
    ⟨List.perm_insertionSort _, List.pairwise_insertionSort _⟩

/-- Another order of the rows with equal stamps, in one direction of one column. -/
def SortValues.setDown (S : SortValues) (column : String) (sort : List Row → List Row)
    (h : SortsDown (downRank column) sort) : SortValues where
  descending c := if c = column then sort else S.descending c
  ascending := S.ascending
  sortsDown c := by
    split
    · rename_i hc
      exact hc ▸ h
    · exact S.sortsDown c
  sortsUp := S.sortsUp

def SortValues.setUp (S : SortValues) (column : String) (sort : List Row → List Row)
    (h : SortsUp (upRank column) sort) : SortValues where
  descending := S.descending
  ascending c := if c = column then sort else S.ascending c
  sortsDown := S.sortsDown
  sortsUp c := by
    split
    · rename_i hc
      exact hc ▸ h
    · exact S.sortsUp c

/-- `.groupby("ticker", as_index=False).first()`; rows without a ticker are in no group. -/
def groupbyFirst (rows : List Row) : List Row :=
  ((rows.filterMap ticker).dedup.insertionSort (· ≤ ·)).map fun t =>
    firstPresent (rows.filter fun r => ticker r = some t)

/-- The rows from `offset` on, `limit` at most. -/
def page (limit : Option Nat) (offset : Nat) (rows : List Row) : List Row :=
  match limit with
  | none => rows.drop offset
  | some n => (rows.drop offset).take n

def upper (T : CharTables) (t : String) : String := String.ofList (T.upper t.toList)

/-! ## The readers -/

section Readers

variable (S : SortValues) (T : CharTables) (table : List Row)

/-- `_scan_ticker` -/
def scanTicker (t : String) : List Row := table.filter fun r => ticker r = some t

/-- `_scan_tickers` -/
def scanTickers (tickers : List String) : List Row :=
  table.filter fun r => (ticker r).any fun t => t ∈ tickers

/-- `get_latest_company_info` -/
def getLatestCompanyInfo (t : String) : Option Row :=
  (S.descending "fetched_at" (scanTicker table (upper T t))).head?

/-- `get_company_info_batch` -/
def getCompanyInfoBatch (tickers : List String) : List Row :=
  lastPerKey ticker (S.ascending "fetched_at" (scanTickers table (tickers.map (upper T))))

/-- `get_all_latest_company_info` -/
def getAllLatestCompanyInfo (limit : Option Nat) (offset : Nat) : List Row :=
  page limit offset (groupbyFirst (S.descending "fetched_at" table))

/-- `_safe` of a column of numbers. -/
def safe : Option Cell → Option ℚ
  | some (.number x) => some (round4 x)
  | _ => none

/-- `_safe_str` of a column of texts. -/
def safeStr : Option Cell → Option String
  | some (.text s) => some s
  | _ => none

/-- The columns of the screener. -/
structure CompanyInfo where
  companyName : Option String
  industry : Option String
  currency : Option String
  marketCap : Option ℚ
  peRatio : Option ℚ
  priceToBook : Option ℚ
  dividendYield : Option ℚ
  beta : Option ℚ
  earningsGrowth : Option ℚ
  revenueGrowth : Option ℚ
  profitMargins : Option ℚ
  currentPrice : Option ℚ
  week52High : Option ℚ
  week52Low : Option ℚ
  deriving DecidableEq

/-- The columns of the screener as a row has them. -/
def infoOf (row : Row) : CompanyInfo where
  companyName := safeStr (row "company_name")
  industry := safeStr (row "industry")
  currency := safeStr (row "currency")
  marketCap := safe (row "market_cap")
  peRatio := safe (row "pe_ratio")
  priceToBook := safe (row "price_to_book")
  dividendYield := safe (row "dividend_yield")
  beta := safe (row "beta")
  earningsGrowth := safe (row "earnings_growth")
  revenueGrowth := safe (row "revenue_growth")
  profitMargins := safe (row "profit_margins")
  currentPrice := safe (row "current_price")
  week52High := safe (row "week_52_high")
  week52Low := safe (row "week_52_low")

/-- `_get_company_info_df` -/
def getCompanyInfoDf (tickers : List String) : List Row :=
  if tickers = [] then table else scanTickers table tickers

/-- `_company_info_for_ticker` -/
def companyInfoForTicker (t : String) (companyDf : List Row) : CompanyInfo :=
  match (companyDf.filter fun r => ticker r = some t).getLast? with
  | none => infoOf fun _ => none
  | some row => infoOf row

/-- `get_latest_analysis_summary` -/
def getLatestAnalysisSummary (t : String) : Option Row :=
  (S.descending "computed_at" (scanTicker table (upper T t))).head?

/-- `get_all_latest_analysis_summary` -/
def getAllLatestAnalysisSummary (limit : Option Nat) (offset : Nat) : List Row :=
  page limit offset (groupbyFirst (S.descending "analysis_date" table))

def ofHorizon (horizonMonths : Int) : List Row :=
  table.filter fun r => r "horizon_months" = some (.number horizonMonths)

/-- `get_latest_forecast_run` -/
def getLatestForecastRun (t : String) (horizonMonths : Int) : Option Row :=
  (S.descending "computed_at" (scanTicker (ofHorizon table horizonMonths) (upper T t))).head?

/-- `get_all_latest_forecast_runs` -/
def getAllLatestForecastRuns (horizonMonths : Int) : List Row :=
  groupbyFirst (S.descending "run_date" (ofHorizon table horizonMonths))

def rowFor (t : String) (frame : List Row) : Option Row := frame.find? fun r => ticker r = some t

end Readers

/-! ## What the readers agree on -/

/-- The three tables. -/
structure Tables where
  companyInfo : List Row
  analysisSummary : List Row
  forecastRuns : List Row

def Latest (column t : String) (table : List Row) (r : Row) : Prop :=
  Greatest (downRank column) (fun r => ticker r = some t) table r

/-- For each ticker all readers return one row, and a latest one. -/
structure ReadersAgree (S : SortValues) (T : CharTables) (tables : Tables) : Prop where
  companyInfo : ∀ t ∈ tables.companyInfo.filterMap ticker, ∃ r,
    Latest "fetched_at" t tables.companyInfo r ∧
    getLatestCompanyInfo S T tables.companyInfo t = some r ∧
    (∀ tickers, t ∈ tickers →
      rowFor t (getCompanyInfoBatch S T tables.companyInfo tickers) = some r) ∧
    rowFor t (getAllLatestCompanyInfo S tables.companyInfo none 0) = some r ∧
    ∀ tickers, (tickers = [] ∨ t ∈ tickers) →
      companyInfoForTicker t (getCompanyInfoDf tables.companyInfo tickers) = infoOf r
  analysisSummary : ∀ t ∈ tables.analysisSummary.filterMap ticker, ∃ r,
    Latest "computed_at" t tables.analysisSummary r ∧
    getLatestAnalysisSummary S T tables.analysisSummary t = some r ∧
    rowFor t (getAllLatestAnalysisSummary S tables.analysisSummary none 0) = some r
  forecastRuns : ∀ horizonMonths, ∀ t ∈ (ofHorizon tables.forecastRuns horizonMonths).filterMap ticker,
    ∃ r, Latest "computed_at" t (ofHorizon tables.forecastRuns horizonMonths) r ∧
      getLatestForecastRun S T tables.forecastRuns t horizonMonths = some r ∧
      rowFor t (getAllLatestForecastRuns S tables.forecastRuns horizonMonths) = some r

/-- One row of the ticker has the latest `column`, and no other row a later or the same one; and in
each column, what the rows with the latest `grouped` among those with a value have is what it has. -/
def OneRow (column grouped t : String) (table : List Row) (r : Row) : Prop :=
  OnlyGreatest (downRank column) (fun r => ticker r = some t) table r ∧
    ColumnsFrom (downRank grouped) (fun r => ticker r = some t) table r

/-- The tables in which the readers cannot differ. -/
structure Unambiguous (T : CharTables) (tables : Tables) : Prop where
  companyInfo : ∀ t ∈ tables.companyInfo.filterMap ticker, upper T t = t ∧ ∃ r,
    OneRow "fetched_at" "fetched_at" t tables.companyInfo r ∧
    (∀ r' ∈ scanTicker tables.companyInfo t, r' = r ∨ (stampOf "fetched_at" r').isSome) ∧
    ∀ last, (scanTicker tables.companyInfo t).getLast? = some last → infoOf last = infoOf r
  analysisSummary : ∀ t ∈ tables.analysisSummary.filterMap ticker, upper T t = t ∧ ∃ r,
    OneRow "computed_at" "analysis_date" t tables.analysisSummary r
  forecastRuns : ∀ horizonMonths, ∀ t ∈ (ofHorizon tables.forecastRuns horizonMonths).filterMap ticker,
    upper T t = t ∧ ∃ r,
      OneRow "computed_at" "run_date" t (ofHorizon tables.forecastRuns horizonMonths) r

/-! ## One ticker -/

section Ticker

variable {S : SortValues} {T : CharTables} {table : List Row} {t column : String} {r : Row}

theorem mem_tickers : t ∈ table.filterMap ticker ↔ ∃ r ∈ table, ticker r = some t :=
  List.mem_filterMap

theorem ticker_firstPresent {rows : List Row} (hMem : r ∈ rows) (hTicker : ticker r = some t) :
    ticker (firstPresent (rows.filter fun r => ticker r = some t)) = some t := by
  have hCell : ∀ x : Row, ticker x = some t ↔ x "ticker" = some (.text t) := by
    intro x
    unfold ticker textOf
    split
    · rename_i s hs
      rw [hs]
      simp
    · rename_i hNo
      constructor
      · intro h
        cases h
      · intro h
        exact absurd h (hNo t)
  have hFirst := firstPresent_filter rows (fun r => ticker r = some t) "ticker"
  cases hFind : rows.find? fun x => decide (ticker x = some t) && (x "ticker").isSome with
  | none =>
      have hNot := List.find?_eq_none.mp hFind r hMem
      rw [(hCell r).mp hTicker] at hNot
      simp [hTicker] at hNot
  | some x =>
      have hx := List.find?_some hFind
      rw [Bool.and_eq_true, decide_eq_true_eq] at hx
      rw [hFind, Option.bind_some, (hCell x).mp hx.1] at hFirst
      exact (hCell _).mpr hFirst

theorem rowFor_groupbyFirst {rows : List Row} (hMem : r ∈ rows) (hTicker : ticker r = some t) :
    rowFor t (groupbyFirst rows) =
      some (firstPresent (rows.filter fun r => ticker r = some t)) := by
  have hKeys : ∀ k ∈ (rows.filterMap ticker).dedup.insertionSort (· ≤ ·),
      ticker (firstPresent (rows.filter fun r => ticker r = some k)) = some k := by
    intro k hk
    obtain ⟨x, hx, hKey⟩ :=
      List.mem_filterMap.mp (List.mem_dedup.mp ((List.mem_insertionSort _).mp hk))
    exact ticker_firstPresent hx hKey
  have hIn : t ∈ (rows.filterMap ticker).dedup.insertionSort (· ≤ ·) :=
    (List.mem_insertionSort _).mpr (List.mem_dedup.mpr (List.mem_filterMap.mpr ⟨r, hMem, hTicker⟩))
  unfold rowFor groupbyFirst
  generalize (rows.filterMap ticker).dedup.insertionSort (· ≤ ·) = keys at hKeys hIn
  induction keys with
  | nil => cases hIn
  | cons k keys ih =>
      obtain ⟨hHead, hTail⟩ := List.forall_mem_cons.mp hKeys
      rw [List.map_cons]
      by_cases hKey : k = t
      · subst hKey
        rw [List.find?_cons_of_pos (by simpa using hHead)]
      · rw [List.find?_cons_of_neg (by simpa [hHead] using hKey)]
        exact ih hTail ((List.mem_cons.mp hIn).resolve_left (Ne.symm hKey))

theorem head?_scan (S : SortValues) (column : String) (table : List Row) (t : String) :
    (S.descending column (scanTicker table t)).head? =
      (S.descending column (scanTicker table t)).find? fun r => ticker r = some t := by
  refine head?_eq_find? fun r hr => ?_
  exact (List.mem_filter.mp (((S.sortsDown column).perm _).subset hr)).2

theorem latest_of_head? (h : (S.descending column (scanTicker table t)).head? = some r) :
    Latest column t table r := by
  rw [head?_scan] at h
  exact (greatest_filter fun _ _ hp => hp).mp ((S.sortsDown column).find?_max h)

theorem head?_of_onlyGreatest
    (h : OnlyGreatest (downRank column) (fun r => ticker r = some t) table r) :
    (S.descending column (scanTicker table t)).head? = some r := by
  rw [head?_scan]
  exact (onlyGreatest_filter (fun _ _ hp => hp) h).find? (S.sortsDown column)

theorem rowFor_of_columnsFrom (hMem : r ∈ table) (hTicker : ticker r = some t)
    (h : ColumnsFrom (downRank column) (fun r => ticker r = some t) table r) :
    rowFor t (groupbyFirst (S.descending column table)) = some r := by
  have hSort := S.sortsDown column
  rw [rowFor_groupbyFirst ((hSort.perm table).symm.subset hMem) hTicker,
    h.firstPresent hMem (decide_eq_true hTicker) hSort]

/-- The row of a ticker among those of several. -/
theorem rowFor_batch (S : SortValues) (T : CharTables) (table : List Row) (tickers : List String)
    (t : String) : rowFor t (getCompanyInfoBatch S T table tickers) =
      (S.ascending "fetched_at" (scanTickers table (tickers.map (upper T)))).reverse.find?
        fun r => ticker r = some t :=
  find?_lastPerKey ticker _ (some t)

theorem scanned_of_mem {tickers : List String} (hUpper : upper T t = t) (hMem : t ∈ tickers) :
    ∀ r ∈ table, decide (ticker r = some t) = true →
      ((ticker r).any fun t => t ∈ tickers.map (upper T)) = true := by
  intro r _ hTicker
  rw [of_decide_eq_true hTicker, Option.any_some, decide_eq_true_eq]
  exact List.mem_map.mpr ⟨t, hMem, hUpper⟩

theorem scanTicker_getCompanyInfoDf {tickers : List String} (h : tickers = [] ∨ t ∈ tickers) :
    (getCompanyInfoDf table tickers).filter (fun r => ticker r = some t) = scanTicker table t := by
  unfold getCompanyInfoDf
  split
  · rfl
  · rename_i hTickers
    rw [scanTickers, List.filter_filter]
    refine List.filter_congr fun r _ => ?_
    by_cases hTicker : ticker r = some t
    · simp [hTicker, h.resolve_left hTickers]
    · simp [hTicker]

/-- The single-ticker and the all-tickers reader, when one row of the ticker is behind both. -/
theorem agree_of_oneRow {grouped : String} (hUpper : upper T t = t)
    (h : OneRow column grouped t table r) :
    Latest column t table r ∧
      (S.descending column (scanTicker table (upper T t))).head? = some r ∧
      rowFor t (groupbyFirst (S.descending grouped table)) = some r := by
  obtain ⟨hOnly, hColumns⟩ := h
  refine ⟨hOnly.greatest, ?_, rowFor_of_columnsFrom hOnly.1 (of_decide_eq_true hOnly.2.1) hColumns⟩
  rw [hUpper]
  exact head?_of_onlyGreatest hOnly

theorem upper_of_latest (hLatest : Latest column t table r)
    (hHead : (S.descending column (scanTicker table (upper T t))).head? = some r) :
    upper T t = t := by
  have hRow := (latest_of_head? hHead).2.1
  rw [decide_eq_true_eq] at hRow
  exact Option.some.inj (hRow.symm.trans (of_decide_eq_true hLatest.2.1))

/-- What the all-tickers reader returns in every order comes from one row. -/
theorem columnsFrom_of_rowFor {grouped : String} (hMem : r ∈ table) (hTicker : ticker r = some t)
    (h : ∀ sort, ∀ hSort : SortsDown (downRank grouped) sort,
      rowFor t (groupbyFirst (sort table)) = some r) :
    ColumnsFrom (downRank grouped) (fun r => ticker r = some t) table r := by
  refine columnsFrom_of_forall fun sort hSort => ?_
  have hRow := h sort hSort
  rw [rowFor_groupbyFirst ((hSort.perm table).symm.subset hMem) hTicker] at hRow
  exact Option.some.inj hRow

/-- Readers that sort by different columns and agree in every order return one row. -/
theorem oneRow_of_agree {grouped : String} (hColumns : column ≠ grouped)
    (h : ∀ S : SortValues, ∃ r, Latest column t table r ∧
      (S.descending column (scanTicker table (upper T t))).head? = some r ∧
      rowFor t (groupbyFirst (S.descending grouped table)) = some r) :
    upper T t = t ∧ ∃ r, OneRow column grouped t table r := by
  obtain ⟨r, hLatest, hHead, hRow⟩ := h .insertion
  have hUpper := upper_of_latest hLatest hHead
  rw [hUpper] at h hHead
  refine ⟨hUpper, r, onlyGreatest_of_unique hLatest fun x hx => ?_, ?_⟩
  · -- an order in which the single-ticker reader returns the other latest row
    obtain ⟨sort, hSort, hFirst⟩ := exists_sortsDown (downRank column) x
    obtain ⟨r', -, hHead', hRow'⟩ := h (SortValues.insertion.setDown column sort hSort)
    rw [head?_scan] at hHead'
    simp only [SortValues.setDown, if_true, if_neg hColumns.symm] at hHead' hRow'
    have hScan : Greatest (downRank column) (fun r => ticker r = some t) (scanTicker table t) x :=
      (greatest_filter fun _ _ hp => hp).mpr hx
    rw [hFirst _ _ hScan] at hHead'
    rw [hRow] at hRow'
    exact (Option.some.inj hHead').trans (Option.some.inj hRow').symm
  · refine columnsFrom_of_rowFor hLatest.1 (of_decide_eq_true hLatest.2.1) fun sort hSort => ?_
    obtain ⟨r', -, hHead', hRow'⟩ := h (SortValues.insertion.setDown grouped sort hSort)
    simp only [SortValues.setDown, if_true, if_neg hColumns] at hHead' hRow'
    rw [hHead] at hHead'
    rw [hRow', Option.some.inj hHead']

end Ticker

/-! ## The readers of company info -/

section CompanyInfo

variable {S : SortValues} {T : CharTables} {table : List Row} {t : String} {r : Row}

theorem upGreatest_of_rowFor (hUpper : upper T t = t) {tickers : List String} (hMem : t ∈ tickers)
    (h : rowFor t (getCompanyInfoBatch S T table tickers) = some r) :
    Greatest (upRank "fetched_at") (fun r => ticker r = some t) table r := by
  rw [rowFor_batch] at h
  exact (greatest_filter (scanned_of_mem hUpper hMem)).mp
    ((S.sortsUp "fetched_at").reverse.find?_max h)

theorem rowFor_of_onlyGreatest (hUpper : upper T t = t) {tickers : List String} (hMem : t ∈ tickers)
    (h : OnlyGreatest (upRank "fetched_at") (fun r => ticker r = some t) table r) :
    rowFor t (getCompanyInfoBatch S T table tickers) = some r := by
  rw [rowFor_batch]
  exact (onlyGreatest_filter (scanned_of_mem hUpper hMem) h).find? (S.sortsUp "fetched_at").reverse

/-- The latest row comes last in ascending order too, when the stamps of the others are present. -/
theorem onlyGreatest_up_iff
    (h : OnlyGreatest (downRank "fetched_at") (fun r => ticker r = some t) table r) :
    OnlyGreatest (upRank "fetched_at") (fun r => ticker r = some t) table r ↔
      ∀ r' ∈ scanTicker table t, r' = r ∨ (stampOf "fetched_at" r').isSome := by
  have hRank : ∀ r' : Row, downRank "fetched_at" r' < downRank "fetched_at" r →
      (upRank "fetched_at" r' < upRank "fetched_at" r ↔ (stampOf "fetched_at" r').isSome) := by
    intro r' hLt
    unfold downRank at hLt
    unfold upRank
    cases hOwn : stampOf "fetched_at" r with
    | none =>
        rw [hOwn] at hLt
        exact absurd hLt (WithBot.not_lt_bot _)
    | some b =>
        cases hOther : stampOf "fetched_at" r' with
        | none => exact iff_of_false (fun hUp => not_top_lt hUp) Bool.false_ne_true
        | some a =>
            rw [hOwn, hOther] at hLt
            exact iff_of_true (WithTop.coe_lt_coe.mpr (WithBot.coe_lt_coe.mp hLt)) rfl
  constructor
  · intro hUp r' hr'
    obtain ⟨hMem, hTicker⟩ := List.mem_filter.mp hr'
    rcases h.2.2 r' hMem hTicker with hSame | hDown
    · exact Or.inl hSame
    · rcases hUp.2.2 r' hMem hTicker with hSame | hLt
      · exact Or.inl hSame
      · exact Or.inr ((hRank r' hDown).mp hLt)
  · intro hPresent
    refine ⟨h.1, h.2.1, fun r' hMem hTicker => ?_⟩
    rcases h.2.2 r' hMem hTicker with hSame | hDown
    · exact Or.inl hSame
    · rcases hPresent r' (List.mem_filter.mpr ⟨hMem, hTicker⟩) with hSame | hSome
      · exact Or.inl hSame
      · exact Or.inr ((hRank r' hDown).mpr hSome)

theorem companyInfoForTicker_eq {tickers : List String} {last : Row}
    (hTickers : tickers = [] ∨ t ∈ tickers) (hLast : (scanTicker table t).getLast? = some last) :
    companyInfoForTicker t (getCompanyInfoDf table tickers) = infoOf last := by
  rw [companyInfoForTicker, scanTicker_getCompanyInfoDf hTickers, hLast]

/-- The four readers agree on a ticker in every order exactly when one row is behind all of them. -/
theorem companyInfo_iff (hListed : t ∈ table.filterMap ticker) :
    (∀ S : SortValues, ∃ r, Latest "fetched_at" t table r ∧
        getLatestCompanyInfo S T table t = some r ∧
        (∀ tickers, t ∈ tickers → rowFor t (getCompanyInfoBatch S T table tickers) = some r) ∧
        rowFor t (getAllLatestCompanyInfo S table none 0) = some r ∧
        ∀ tickers, (tickers = [] ∨ t ∈ tickers) →
          companyInfoForTicker t (getCompanyInfoDf table tickers) = infoOf r) ↔
      upper T t = t ∧ ∃ r, OneRow "fetched_at" "fetched_at" t table r ∧
        (∀ r' ∈ scanTicker table t, r' = r ∨ (stampOf "fetched_at" r').isSome) ∧
        ∀ last, (scanTicker table t).getLast? = some last → infoOf last = infoOf r := by
  constructor
  · intro h
    obtain ⟨r, hLatest, hHead, hBatch, -, hInfo⟩ := h .insertion
    have hUpper := upper_of_latest hLatest hHead
    have hTicker := of_decide_eq_true hLatest.2.1
    have hOne : t ∈ [t] := List.mem_singleton_self t
    have hBatchRow := hBatch [t] hOne
    rw [getLatestCompanyInfo, hUpper] at hHead
    have hOnly : OnlyGreatest (downRank "fetched_at") (fun r => ticker r = some t) table r := by
      refine onlyGreatest_of_unique hLatest fun x hx => ?_
      -- the other latest row comes first for the single-ticker reader, and the batch stays
      obtain ⟨sort, hSort, hFirst⟩ := exists_sortsDown (downRank "fetched_at") x
      obtain ⟨r', -, hHead', hBatch', -, -⟩ := h (SortValues.insertion.setDown "fetched_at" sort hSort)
      have hScan : Greatest (downRank "fetched_at") (fun r => ticker r = some t)
        (scanTicker table t) x := (greatest_filter fun _ _ hp => hp).mpr hx
      rw [getLatestCompanyInfo, hUpper, head?_scan] at hHead'
      simp only [SortValues.setDown, if_true] at hHead'
      rw [hFirst _ _ hScan] at hHead'
      have hSame : some r' = some r := (hBatch' [t] hOne).symm.trans hBatchRow
      exact (Option.some.inj hHead').trans (Option.some.inj hSame)
    have hUp : OnlyGreatest (upRank "fetched_at") (fun r => ticker r = some t) table r := by
      refine onlyGreatest_of_unique (upGreatest_of_rowFor hUpper hOne hBatchRow) fun y hy => ?_
      -- the other row comes last for the batch reader, and the single row stays
      obtain ⟨sort, hSort, hFirst⟩ := exists_sortsDown (upRank "fetched_at") y
      obtain ⟨r', -, hHead', hBatch', -, -⟩ :=
        h (SortValues.insertion.setUp "fetched_at" _ hSort.reverse)
      rw [getLatestCompanyInfo, hUpper] at hHead'
      have hRow := hBatch' [t] hOne
      rw [rowFor_batch] at hRow
      simp only [SortValues.setUp, if_true, List.reverse_reverse] at hRow
      have hScan : Greatest (upRank "fetched_at") (fun r => ticker r = some t)
          (scanTickers table ([t].map (upper T))) y :=
        (greatest_filter (scanned_of_mem hUpper hOne)).mpr hy
      rw [hFirst _ _ hScan] at hRow
      have hSame : some r' = some r := hHead'.symm.trans hHead
      exact (Option.some.inj hRow).trans (Option.some.inj hSame)
    refine ⟨hUpper, r, ⟨hOnly, ?_⟩, (onlyGreatest_up_iff hOnly).mp hUp, ?_⟩
    · refine columnsFrom_of_rowFor hLatest.1 hTicker fun sort hSort => ?_
      obtain ⟨r', -, -, hBatch', hAll, -⟩ :=
        h (SortValues.insertion.setDown "fetched_at" sort hSort)
      have hSame : some r' = some r := (hBatch' [t] hOne).symm.trans hBatchRow
      rw [getAllLatestCompanyInfo, page] at hAll
      simp only [SortValues.setDown, if_true, List.drop_zero] at hAll
      rw [hAll, hSame]
    · intro last hLast
      rw [← hInfo [t] (Or.inr hOne), companyInfoForTicker_eq (Or.inr hOne) hLast]
  · rintro ⟨hUpper, r, hRow, hPresent, hLast⟩ S
    obtain ⟨hLatest, hHead, hAll⟩ := agree_of_oneRow (S := S) hUpper hRow
    have hUp := (onlyGreatest_up_iff hRow.1).mpr hPresent
    refine ⟨r, hLatest, hHead, fun tickers hMem => rowFor_of_onlyGreatest hUpper hMem hUp, hAll, ?_⟩
    intro tickers hTickers
    obtain ⟨x, hx, hTicker⟩ := mem_tickers.mp hListed
    have hScan : x ∈ scanTicker table t := List.mem_filter.mpr ⟨hx, decide_eq_true hTicker⟩
    have hSome := List.getLast?_eq_some_getLast (List.ne_nil_of_mem hScan)
    rw [companyInfoForTicker_eq hTickers hSome, hLast _ hSome]

end CompanyInfo

/-- **The readers of the latest rows agree in every order of equal stamps exactly when one row of each
ticker is behind all of them.** -/
theorem readersAgree_iff (T : CharTables) (tables : Tables) :
    (∀ S, ReadersAgree S T tables) ↔ Unambiguous T tables := by
  constructor
  · intro h
    refine ⟨fun t ht => ?_, fun t ht => ?_, fun horizonMonths t ht => ?_⟩
    · exact (companyInfo_iff ht).mp fun S => (h S).companyInfo t ht
    · exact oneRow_of_agree (by decide) fun S => (h S).analysisSummary t ht
    · exact oneRow_of_agree (by decide) fun S => (h S).forecastRuns horizonMonths t ht
  · intro h S
    refine ⟨fun t ht => ?_, fun t ht => ?_, fun horizonMonths t ht => ?_⟩
    · exact (companyInfo_iff ht).mpr (h.companyInfo t ht) S
    · obtain ⟨hUpper, r, hRow⟩ := h.analysisSummary t ht
      exact ⟨r, agree_of_oneRow hUpper hRow⟩
    · obtain ⟨hUpper, r, hRow⟩ := h.forecastRuns horizonMonths t ht
      exact ⟨r, agree_of_oneRow hUpper hRow⟩

def rowOf (cells : List (String × Cell)) : Row := fun column => cells.lookup column

/-- Two snapshots of one ticker, the later one without an industry. -/
def gapTables : Tables where
  companyInfo :=
    [rowOf [("ticker", .text "TCS"), ("industry", .text "Software"), ("fetched_at", .stamp 1)],
      rowOf [("ticker", .text "TCS"), ("fetched_at", .stamp 2)]]
  analysisSummary := []
  forecastRuns := []

/-- **A missing value of the latest row is filled from an older one.** -/
theorem gap_filled : ¬ ∀ (S : SortValues) (T : CharTables) (tables : Tables),
    ReadersAgree S T tables := by
  intro h
  obtain ⟨r, -, hHead, -, hAll, -⟩ :=
    (h .insertion .ascii gapTables).companyInfo "TCS" (by decide +kernel)
  have hIndustry : (getLatestCompanyInfo .insertion .ascii gapTables.companyInfo "TCS").map
      (fun r => r "industry") = some none := by decide +kernel
  have hGrouped : (rowFor "TCS" (getAllLatestCompanyInfo .insertion gapTables.companyInfo none 0)).map
      (fun r => r "industry") = some (some (.text "Software")) := by decide +kernel
  rw [hHead] at hIndustry
  rw [hAll] at hGrouped
  cases hIndustry.symm.trans hGrouped

end AsetPlatform.StockData.LatestReaders
