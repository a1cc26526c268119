import AsetPlatform.StockData.InsertOhlcv

/-!
# The tables behind the cached readers

Four tables of `stocks/repository.py` with the methods that write them. A query reads the file that
DuckDB remembers for a table: `_retry_commit` makes it forget the file, and a commit that bypasses it,
or that raises, does not. Which file is remembered is the `snapshot`.
-/

set_option autoImplicit false

namespace AsetPlatform.StockData

universe u

/-! ## Tables -/

structure IcebergTable (ρ : Type u) where
  rows : List ρ
  snapshot : Option (List ρ) := none

namespace IcebergTable

variable {ρ : Type u} (t : IcebergTable ρ)

/-- What a query reads. -/
def visible : List ρ := t.snapshot.getD t.rows

/-- A query remembers the file it has read. -/
def queried : IcebergTable ρ := { t with snapshot := some t.visible }

/-- `_retry_commit`, and whether it raised. -/
def retryCommit (c : Commit) (f : List ρ → List ρ) : IcebergTable ρ × Bool :=
  match c with
  | .done => (⟨f t.rows, none⟩, false)
  | .refused => (t, true)
  | .lost => ({ t with rows := f t.rows }, true)

/-- A commit on the table itself. DuckDB does not hear of it. -/
def directCommit (c : Commit) (f : List ρ → List ρ) : IcebergTable ρ :=
  match c with
  | .refused => t
  | .done | .lost => { t with rows := f t.rows }

theorem visible_queried : t.queried.visible = t.visible := rfl

end IcebergTable

/-- `df.sort_values(stamp, ascending=False).iloc[0]`: the first of the rows with the latest stamp. -/
def latestBy {ρ : Type u} (stamp : ρ → Int) : List ρ → Option ρ
  | [] => none
  | r :: rs =>
      match latestBy stamp rs with
      | some r' => if stamp r < stamp r' then some r' else some r
      | none => some r

/-! ## Rows -/

/-- A row of `stocks.company_info` as far as `get_currency` reads it. -/
structure CompanyRow where
  ticker : String
  currency : Option String
  fetchedAt : Int
  deriving DecidableEq

/-- A row of `stocks.analysis_summary`; `fields` are its other columns. -/
structure AnalysisRow where
  summaryId : String
  ticker : String
  fields : List (String × String)
  computedAt : Int
  deriving DecidableEq

/-- A row of `stocks.forecast_runs`; `fields` are its other columns. -/
structure ForecastRow where
  runId : String
  ticker : String
  horizonMonths : Int
  fields : List (String × String)
  computedAt : Int
  deriving DecidableEq

/-- `value or "USD"` -/
def orUsd : Option String → String
  | some s => if s = "" then "USD" else s
  | none => "USD"

inductive TableName where
  | companyInfo
  | ohlcv
  | analysisSummary
  | forecastRuns
  deriving DecidableEq, Repr

/-- The four tables. -/
structure StockTables (P : Type u) where
  companyInfo : IcebergTable CompanyRow
  ohlcv : IcebergTable (OhlcvRow P)
  analysisSummary : IcebergTable AnalysisRow
  forecastRuns : IcebergTable ForecastRow

/-- The arguments of `_retry_commit`. -/
inductive TableOperation (ρ : Type u) where
  | append (rows : List ρ)
  | overwrite (rows : List ρ)
  | delete (deleteFilter : ρ → Bool)

def TableOperation.apply {ρ : Type u} : TableOperation ρ → List ρ → List ρ
  | .append new, rows => rows ++ new
  | .overwrite new, _ => new
  | .delete p, rows => rows.filter fun r => !p r

inductive TableCommit (P : Type u) where
  | companyInfo (op : TableOperation CompanyRow)
  | ohlcv (op : TableOperation (OhlcvRow P))
  | analysisSummary (op : TableOperation AnalysisRow)
  | forecastRuns (op : TableOperation ForecastRow)

/-! ## The readers and the writers -/

namespace StockTables

variable {P : Type u} (s : StockTables P)

/-- `get_currency`, of a ticker in upper case. -/
def getCurrency (ticker : String) : String :=
  match latestBy CompanyRow.fetchedAt (s.companyInfo.visible.filter (·.ticker = ticker)) with
  | none => "USD"
  | some row => orUsd row.currency

/-- `get_latest_ohlcv_date` -/
def getLatestOhlcvDate (ticker : String) : Option Nat :=
  ((s.ohlcv.visible.filter (·.ticker = ticker)).map OhlcvRow.date).max?

/-- `get_latest_analysis_summary` -/
def getLatestAnalysisSummary (ticker : String) : Option AnalysisRow :=
  latestBy AnalysisRow.computedAt (s.analysisSummary.visible.filter (·.ticker = ticker))

/-- `get_latest_forecast_run` -/
def getLatestForecastRun (ticker : String) (horizonMonths : Int) : Option ForecastRow :=
  latestBy ForecastRow.computedAt (s.forecastRuns.visible.filter fun r =>
    r.ticker = ticker ∧ r.horizonMonths = horizonMonths)

/-- A query of a table. -/
def queried : TableName → StockTables P
  | .companyInfo => { s with companyInfo := s.companyInfo.queried }
  | .ohlcv => { s with ohlcv := s.ohlcv.queried }
  | .analysisSummary => { s with analysisSummary := s.analysisSummary.queried }
  | .forecastRuns => { s with forecastRuns := s.forecastRuns.queried }

/-- `insert_company_info`: the old rows are deleted on the table itself, whether that works or not. -/
def insertCompanyInfo (ticker : String) (currency : Option String) (now : Int)
    (delete append : Commit) : StockTables P × Bool :=
  let cleaned := s.companyInfo.directCommit delete fun rows => rows.filter (·.ticker ≠ ticker)
  let (companyInfo, raised) := cleaned.retryCommit append fun rows =>
    rows ++ [⟨ticker, some (orUsd currency), now⟩]
  ({ s with companyInfo := companyInfo }, raised)

/-- The days that are stored with a close, as the query finds them, or the table when it finds
none. -/
def storedRows (t : IcebergTable (OhlcvRow P)) (ticker : String) : List (OhlcvRow P) :=
  if t.visible.any fun r => r.ticker = ticker && r.close.isSome then t.visible else t.rows

/-- `insert_ohlcv`, with what the read and the two commits come to. -/
def insertOhlcv (ticker : String) (df : List (Nat × Option P)) (readFails : Bool)
    (nullDelete append : Commit) : StockTables P × Bool :=
  if df = [] then (s, false)
  else if readFails then (s, true)
  else
    let read := s.ohlcv.queried
    let new := filtered (storedRows s.ohlcv ticker) ticker df
    if new = [] then ({ s with ohlcv := read }, false)
    else
      let cleaned := (read.retryCommit nullDelete fun rows => preDelete rows new).1
      let (ohlcv, raised) := cleaned.retryCommit append fun rows => rows ++ new
      ({ s with ohlcv := ohlcv }, raised)

/-- `update_ohlcv_adj_close`, of a ticker in upper case: the rows of the ticker are deleted and
appended again when some of them has a new value. Of a row only the adjusted close changes. -/
def updateOhlcvAdjClose (ticker : String) (adjCloseMap : List (Nat × Option P))
    (delete append : Commit) : StockTables P × Bool :=
  if adjCloseMap.isEmpty then (s, false)
  else
    let read := s.ohlcv.queried
    let tickerRows := s.ohlcv.visible.filter (·.ticker = ticker)
    let days := (adjCloseMap.filter (·.2.isSome)).map Prod.fst
    if tickerRows.all fun r => r.date ∉ days then ({ s with ohlcv := read }, false)
    else
      match read.retryCommit delete fun rows => rows.filter (·.ticker ≠ ticker) with
      | (cleaned, true) => ({ s with ohlcv := cleaned }, true)
      | (cleaned, false) =>
          let (ohlcv, raised) := cleaned.retryCommit append fun rows => rows ++ tickerRows
          ({ s with ohlcv := ohlcv }, raised)

/-- `insert_analysis_summary`, with the row it builds; a failed delete is ignored. -/
def insertAnalysisSummary (row : AnalysisRow) (delete append : Commit) : StockTables P × Bool :=
  let cleaned := (s.analysisSummary.retryCommit delete fun rows =>
    rows.filter (·.ticker ≠ row.ticker)).1
  let (analysisSummary, raised) := cleaned.retryCommit append fun rows => rows ++ [row]
  ({ s with analysisSummary := analysisSummary }, raised)

/-- `insert_forecast_run`, with the row it builds. -/
def insertForecastRun (row : ForecastRow) (append : Commit) : StockTables P × Bool :=
  let (forecastRuns, raised) := s.forecastRuns.retryCommit append fun rows => rows ++ [row]
  ({ s with forecastRuns := forecastRuns }, raised)

/-- `insert_forecast_runs_batch`, with the rows it builds. -/
def insertForecastRunsBatch (rows : List ForecastRow) (append : Commit) : StockTables P × Bool :=
  if rows = [] then (s, false)
  else
    let (forecastRuns, raised) := s.forecastRuns.retryCommit append fun old => old ++ rows
    ({ s with forecastRuns := forecastRuns }, raised)

/-- The part of `delete_ticker_data` for one table: nothing is done when the query finds no row, and
an error is ignored. -/
def deleteTicker {ρ : Type u} (t : IcebergTable ρ) (ofTicker : ρ → Bool) (delete : Commit) :
    IcebergTable ρ :=
  if t.visible.any ofTicker then
    (t.queried.retryCommit delete fun rows => rows.filter fun r => !ofTicker r).1
  else t.queried

/-- `delete_ticker_data`, of a ticker in upper case. -/
def deleteTickerData (ticker : String) (delete : TableName → Commit) : StockTables P × Bool :=
  ({ companyInfo := deleteTicker s.companyInfo (·.ticker = ticker) (delete .companyInfo)
     ohlcv := deleteTicker s.ohlcv (·.ticker = ticker) (delete .ohlcv)
     analysisSummary :=
      deleteTicker s.analysisSummary (·.ticker = ticker) (delete .analysisSummary)
     forecastRuns := deleteTicker s.forecastRuns (·.ticker = ticker) (delete .forecastRuns) },
    false)

/-- `_retry_commit`, which `delete_rows`, `_append_rows`, `_overwrite_table` and `_delete_rows` call
with an operation. -/
def commit (c : Commit) : TableCommit P → StockTables P × Bool
  | .companyInfo op =>
      let (t, raised) := s.companyInfo.retryCommit c op.apply
      ({ s with companyInfo := t }, raised)
  | .ohlcv op =>
      let (t, raised) := s.ohlcv.retryCommit c op.apply
      ({ s with ohlcv := t }, raised)
  | .analysisSummary op =>
      let (t, raised) := s.analysisSummary.retryCommit c op.apply
      ({ s with analysisSummary := t }, raised)
  | .forecastRuns op =>
      let (t, raised) := s.forecastRuns.retryCommit c op.apply
      ({ s with forecastRuns := t }, raised)

/-! ## What the writers change -/

variable {s}

theorem orUsd_idem (currency : Option String) : orUsd (some (orUsd currency)) = orUsd currency := by
  cases currency with
  | none => rfl
  | some code =>
      by_cases hEmpty : code = ""
      · rw [hEmpty]
        rfl
      · simp [orUsd, hEmpty]

theorem filter_others {ρ : Type u} (ticker : ρ → String) (a b : String) (rows : List ρ) :
    (rows.filter fun r => ticker r ≠ a).filter (fun r => ticker r = b) =
      if b = a then [] else rows.filter fun r => ticker r = b := by
  rw [List.filter_filter]
  split
  · rename_i hSame
    rw [List.filter_eq_nil_iff, hSame]
    simp
  · rename_i hOther
    refine List.filter_congr fun r _ => ?_
    by_cases hTicker : ticker r = b
    · simp [hTicker, hOther]
    · simp [hTicker]

/-- After company info has replaced that of a ticker, the currency of the ticker is the new one and
the others are what the table says. -/
theorem getCurrency_insertCompanyInfo {ticker other : String} {currency : Option String} {now : Int}
    {delete : Commit} (hDelete : delete ≠ .refused)
    (hFresh : s.companyInfo.visible = s.companyInfo.rows) :
    (s.insertCompanyInfo ticker currency now delete .done).1.getCurrency other =
      if other = ticker then orUsd currency else s.getCurrency other := by
  have hVisible : (s.insertCompanyInfo ticker currency now delete .done).1.companyInfo.visible =
      s.companyInfo.rows.filter (·.ticker ≠ ticker) ++ [⟨ticker, some (orUsd currency), now⟩] := by
    cases delete with
    | refused => exact absurd rfl hDelete
    | done => rfl
    | lost => rfl
  rw [getCurrency, getCurrency, hVisible, hFresh, List.filter_append, filter_others]
  by_cases hOther : other = ticker
  · -- The new row is the only one of its ticker.
    rw [if_pos hOther, if_pos hOther, hOther]
    simp [latestBy, orUsd_idem]
  · rw [if_neg hOther, if_neg hOther]
    simp [Ne.symm hOther]

end StockTables

end AsetPlatform.StockData
