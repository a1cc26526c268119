import AsetPlatform.Library.Frames
import AsetPlatform.Library.IsoDates
import AsetPlatform.StockData.Quarterly

/-!
# Forecast series

`insert_forecast_series`, `insert_forecast_series_batch` and `get_latest_forecast_series` of
`stocks/repository.py`. A single insert replaces the rows of its ticker, horizon and run date; the batch
deletes all rows of its tickers and appends the rows of all its series. The reader returns the rows of
the latest run date that it finds for a ticker and horizon.

`sameSeries_iff` says for which tickers and horizons the reader cannot tell the batch from its series
inserted one by one.
-/

set_option autoImplicit false

namespace AsetPlatform.StockData.ForecastSeries

open AsetPlatform.Library
open AsetPlatform.StockData.Quarterly (Cell)

/-! ## Frames and rows -/

/-- A value of the column `ds`. -/
inductive DateValue where
  | missing
  | datetime (day seconds : Nat)
  | date (day : Nat)
  | text (s : String)
  deriving DecidableEq

/-- `_to_date`; days are ordinals. -/
def toDate : DateValue → Option Nat
  | .missing => none
  | .datetime day _ => some day
  | .date day => some day
  | .text s => fromIsoformat s.toList

/-- A row of a frame of Prophet's output. -/
structure Point where
  ds : DateValue
  yhat : Cell
  yhatLower : Cell
  yhatUpper : Cell
  deriving DecidableEq

/-- A row of `stocks.forecasts`. -/
structure ForecastRow where
  ticker : String
  horizonMonths : Int
  runDate : Nat
  forecastDate : Option Nat
  predictedPrice : Cell
  lowerBound : Cell
  upperBound : Cell
  deriving DecidableEq

/-- The arguments of one insert. -/
structure Series where
  ticker : String
  horizonMonths : Int
  runDate : Nat
  forecastDf : List Point
  deriving DecidableEq

def ForecastRow.key (r : ForecastRow) : String × Int × Nat := (r.ticker, r.horizonMonths, r.runDate)

def Series.key (s : Series) : String × Int × Nat := (s.ticker, s.horizonMonths, s.runDate)

def Series.row (s : Series) (p : Point) : ForecastRow where
  ticker := s.ticker
  horizonMonths := s.horizonMonths
  runDate := s.runDate
  forecastDate := toDate p.ds
  predictedPrice := p.yhat.safeFloat
  lowerBound := p.yhatLower.safeFloat
  upperBound := p.yhatUpper.safeFloat

def Series.rows (s : Series) : List ForecastRow := s.forecastDf.map s.row

/-! ## Inserting -/

section Insert

variable (deleteFails : Bool) (t : List ForecastRow)

def insertForecastSeries (s : Series) : List ForecastRow :=
  if s.forecastDf = [] then t
  else
    -- a failed delete is ignored
    (if deleteFails then t else t.filter (·.key ≠ s.key)) ++ s.rows

def oneByOne (series : List Series) : List ForecastRow := series.foldl (insertForecastSeries deleteFails) t

def insertForecastSeriesBatch (series : List Series) : List ForecastRow :=
  if series = [] then t
  else
    let allRows := series.flatMap Series.rows
    let t' := if deleteFails then t else t.filter (·.ticker ∉ series.map Series.ticker)
    if allRows = [] then t' else t' ++ allRows

end Insert

/-! ## The reader -/

/-- `_scan_two_filters` -/
def scanTwo (t : List ForecastRow) (ticker : String) (horizonMonths : Int) : List ForecastRow :=
  t.filter fun r => r.ticker = ticker ∧ r.horizonMonths = horizonMonths

def latestRun (t : List ForecastRow) (ticker : String) (horizonMonths : Int) : List ForecastRow :=
  let df := scanTwo t ticker horizonMonths
  match (df.map ForecastRow.runDate).max? with
  | none => []
  | some latest => df.filter (·.runDate = latest)

section Reader

variable (upper : String → String) (sort : List ForecastRow → List ForecastRow)

def getLatestForecastSeries (t : List ForecastRow) (ticker : String) (horizonMonths : Int) :
    List ForecastRow :=
  sort (latestRun t (upper ticker) horizonMonths)

end Reader

/-- The place of a row in `sort_values("forecast_date")`, where missing dates come last. -/
def dateRank (r : ForecastRow) : WithTop Nat := r.forecastDate

def runRows (t : List ForecastRow) (ticker : String) (horizonMonths : Int) (runDate : Nat) :
    List ForecastRow :=
  t.filter (·.key = (ticker, horizonMonths, runDate))

section Runs

variable {t t' : List ForecastRow} {ticker : String} {horizonMonths : Int} {m : Nat} {r : ForecastRow}

theorem mem_runRows : r ∈ runRows t ticker horizonMonths m ↔
    r ∈ t ∧ r.ticker = ticker ∧ r.horizonMonths = horizonMonths ∧ r.runDate = m := by
  simp [runRows, ForecastRow.key]

theorem runRows_append : runRows (t ++ t') ticker horizonMonths m =
    runRows t ticker horizonMonths m ++ runRows t' ticker horizonMonths m :=
  List.filter_append _ _

theorem filter_scanTwo :
    (scanTwo t ticker horizonMonths).filter (·.runDate = m) = runRows t ticker horizonMonths m := by
  rw [scanTwo, runRows, List.filter_filter]
  apply List.filter_congr
  intro r _
  rw [← Bool.decide_and, decide_eq_decide, ForecastRow.key, Prod.mk.injEq, Prod.mk.injEq]
  tauto

theorem latestRun_cases (t : List ForecastRow) (ticker : String) (horizonMonths : Int) :
    (latestRun t ticker horizonMonths = [] ∧ ∀ m, runRows t ticker horizonMonths m = []) ∨
      ∃ m, latestRun t ticker horizonMonths = runRows t ticker horizonMonths m ∧
        runRows t ticker horizonMonths m ≠ [] ∧ ∀ m', m < m' → runRows t ticker horizonMonths m' = [] := by
  rw [latestRun]
  simp only [filter_scanTwo]
  cases hMax : ((scanTwo t ticker horizonMonths).map ForecastRow.runDate).max? with
  | none =>
      refine Or.inl ⟨rfl, fun m => ?_⟩
      have hNil := List.map_eq_nil_iff.mp (List.max?_eq_none_iff.mp hMax)
      rw [← filter_scanTwo, hNil, List.filter_nil]
  | some m =>
      refine Or.inr ⟨m, rfl, ?_, ?_⟩
      · obtain ⟨r, hr, hRun⟩ := List.mem_map.mp (List.max?_mem hMax)
        rw [← filter_scanTwo]
        exact List.ne_nil_of_mem (List.mem_filter.mpr ⟨hr, decide_eq_true hRun⟩)
      · intro m' hLater
        rw [← filter_scanTwo, List.filter_eq_nil_iff]
        intro r hr hRun
        have hLe := (List.max?_le_iff hMax).mp (Nat.le_refl m) _ (List.mem_map_of_mem hr)
        rw [of_decide_eq_true hRun] at hLe
        exact absurd hLater (Nat.not_lt.mpr hLe)

theorem latestRun_eq (hRows : runRows t ticker horizonMonths m ≠ [])
    (hLast : ∀ m', m < m' → runRows t ticker horizonMonths m' = []) :
    latestRun t ticker horizonMonths = runRows t ticker horizonMonths m := by
  rcases latestRun_cases t ticker horizonMonths with ⟨-, hNone⟩ | ⟨n, hLatest, hSome, hLater⟩
  · exact absurd (hNone m) hRows
  · rcases lt_trichotomy m n with hLess | hSame | hMore
    · exact absurd (hLast n hLess) hSome
    · rw [hLatest, hSame]
    · exact absurd (hLater m hMore) hRows

theorem latestRun_congr
    (h : ∀ m, runRows t ticker horizonMonths m = runRows t' ticker horizonMonths m) :
    latestRun t ticker horizonMonths = latestRun t' ticker horizonMonths := by
  rcases latestRun_cases t' ticker horizonMonths with ⟨hNil, hNone⟩ | ⟨m, hLatest, hSome, hLater⟩
  · rcases latestRun_cases t ticker horizonMonths with ⟨hNil', -⟩ | ⟨m, -, hSome, -⟩
    · rw [hNil, hNil']
    · exact absurd ((h m).trans (hNone m)) hSome
  · rw [hLatest, ← h m]
    apply latestRun_eq
    · rwa [h m]
    · intro m' hLess
      rw [h m', hLater m' hLess]

end Runs

/-! ## What is stored after the inserts -/

/-- The series that write rows of a run. -/
def writers (series : List Series) (ticker : String) (horizonMonths : Int) (runDate : Nat) : List Series :=
  series.filter fun s => s.key = (ticker, horizonMonths, runDate) ∧ s.forecastDf ≠ []

section Stored

variable {t : List ForecastRow} {series : List Series} {s : Series} {ticker : String} {horizonMonths : Int}
  {m : Nat}

theorem mem_writers : s ∈ writers series ticker horizonMonths m ↔
    s ∈ series ∧ s.key = (ticker, horizonMonths, m) ∧ s.forecastDf ≠ [] := by
  simp [writers]

theorem writers_append_singleton (rest : List Series) (s : Series) :
    writers (rest ++ [s]) ticker horizonMonths m =
      writers rest ticker horizonMonths m ++ writers [s] ticker horizonMonths m :=
  List.filter_append _ _

theorem writers_cons_of_writes {rest : List Series}
    (h : s.key = (ticker, horizonMonths, m) ∧ s.forecastDf ≠ []) :
    writers (s :: rest) ticker horizonMonths m = s :: writers rest ticker horizonMonths m :=
  List.filter_cons_of_pos (by simpa using h)

theorem writers_cons_of_not {rest : List Series}
    (h : ¬(s.key = (ticker, horizonMonths, m) ∧ s.forecastDf ≠ [])) :
    writers (s :: rest) ticker horizonMonths m = writers rest ticker horizonMonths m :=
  List.filter_cons_of_neg (by simpa using h)

theorem rows_eq_nil_iff : s.rows = [] ↔ s.forecastDf = [] := List.map_eq_nil_iff

theorem key_of_mem_rows {r : ForecastRow} (h : r ∈ s.rows) : r.key = s.key := by
  obtain ⟨p, -, rfl⟩ := List.mem_map.mp h
  rfl

theorem runRows_rows (s : Series) :
    runRows s.rows ticker horizonMonths m =
      if s.key = (ticker, horizonMonths, m) then s.rows else [] := by
  rw [runRows]
  split
  · rename_i hKey
    rw [List.filter_eq_self]
    intro r hr
    exact decide_eq_true ((key_of_mem_rows hr).trans hKey)
  · rename_i hKey
    rw [List.filter_eq_nil_iff]
    intro r hr hRun
    exact hKey ((key_of_mem_rows hr).symm.trans (of_decide_eq_true hRun))

theorem runRows_insert :
    runRows (insertForecastSeries false t s) ticker horizonMonths m =
      if s.key = (ticker, horizonMonths, m) ∧ s.forecastDf ≠ [] then s.rows
      else runRows t ticker horizonMonths m := by
  rw [insertForecastSeries]
  by_cases hEmpty : s.forecastDf = []
  · rw [if_pos hEmpty, if_neg fun hBoth => hBoth.2 hEmpty]
  · rw [if_neg hEmpty, if_neg (by decide), runRows_append, runRows_rows, runRows, List.filter_filter]
    by_cases hKey : s.key = (ticker, horizonMonths, m)
    · have hGone : (t.filter fun r => decide (r.key = (ticker, horizonMonths, m)) &&
          decide (r.key ≠ s.key)) = [] := by
        rw [List.filter_eq_nil_iff]
        intro r _ hBoth
        obtain ⟨hRun, hOther⟩ := Bool.and_eq_true_iff.mp hBoth
        exact of_decide_eq_true hOther ((of_decide_eq_true hRun).trans hKey.symm)
      rw [if_pos hKey, if_pos ⟨hKey, hEmpty⟩, hGone, List.nil_append]
    · rw [if_neg hKey, if_neg fun hBoth => hKey hBoth.1, List.append_nil, runRows]
      apply List.filter_congr
      intro r _
      by_cases hRun : r.key = (ticker, horizonMonths, m)
      · have hOther : r.key ≠ s.key := fun hSame => hKey (hSame.symm.trans hRun)
        simp [hRun, hRun ▸ hOther]
      · simp [hRun]

/-- One by one, the last series of a run is what is stored of it. -/
theorem runRows_oneByOne (t : List ForecastRow) (series : List Series) :
    runRows (oneByOne false t series) ticker horizonMonths m =
      match (writers series ticker horizonMonths m).getLast? with
      | some s => s.rows
      | none => runRows t ticker horizonMonths m := by
  induction series using List.reverseRecOn with
  | nil => rfl
  | append_singleton rest s ih =>
      have hFold : oneByOne false t (rest ++ [s]) = insertForecastSeries false (oneByOne false t rest) s := by
        rw [oneByOne, List.foldl_append]
        rfl
      rw [hFold, runRows_insert, writers_append_singleton, List.getLast?_append]
      split
      · rename_i hWrites
        rw [writers_cons_of_writes hWrites]
        rfl
      · rename_i hWrites
        rw [writers_cons_of_not hWrites, ih]
        rfl

theorem runRows_flatMap (series : List Series) :
    runRows (series.flatMap Series.rows) ticker horizonMonths m =
      (writers series ticker horizonMonths m).flatMap Series.rows := by
  induction series with
  | nil => rfl
  | cons s rest ih =>
      rw [List.flatMap_cons, runRows_append, runRows_rows, ih]
      by_cases hKey : s.key = (ticker, horizonMonths, m)
      · rw [if_pos hKey]
        by_cases hEmpty : s.forecastDf = []
        · rw [writers_cons_of_not fun hBoth => hBoth.2 hEmpty, rows_eq_nil_iff.mpr hEmpty]
          rfl
        · rw [writers_cons_of_writes ⟨hKey, hEmpty⟩, List.flatMap_cons]
      · rw [if_neg hKey, writers_cons_of_not fun hBoth => hKey hBoth.1]
        rfl

theorem runRows_batch (hTicker : ticker ∈ series.map Series.ticker) :
    runRows (insertForecastSeriesBatch false t series) ticker horizonMonths m =
      (writers series ticker horizonMonths m).flatMap Series.rows := by
  have hSeries : series ≠ [] := by
    rintro rfl
    exact List.not_mem_nil hTicker
  have hGone : runRows (t.filter (·.ticker ∉ series.map Series.ticker)) ticker horizonMonths m = [] := by
    rw [runRows, List.filter_eq_nil_iff]
    intro r hr hRun
    have hOther := of_decide_eq_true (List.mem_filter.mp hr).2
    rw [show r.ticker = ticker from congrArg Prod.fst (of_decide_eq_true hRun)] at hOther
    exact hOther hTicker
  rw [insertForecastSeriesBatch, if_neg hSeries, ← runRows_flatMap]
  simp only [Bool.false_eq_true, if_false]
  split
  · rename_i hNil
    rw [hNil, hGone]
    rfl
  · rw [runRows_append, hGone, List.nil_append]

theorem ticker_of_mem_writers (h : s ∈ writers series ticker horizonMonths m) :
    ticker ∈ series.map Series.ticker := by
  obtain ⟨hMem, hKey, -⟩ := mem_writers.mp h
  exact List.mem_map.mpr ⟨s, hMem, congrArg Prod.fst hKey⟩

theorem writers_of_other (hTicker : ticker ∉ series.map Series.ticker) :
    writers series ticker horizonMonths m = [] :=
  List.eq_nil_iff_forall_not_mem.mpr fun _ hs => hTicker (ticker_of_mem_writers hs)

theorem runRows_batch_of_other (hTicker : ticker ∉ series.map Series.ticker) :
    runRows (insertForecastSeriesBatch false t series) ticker horizonMonths m =
      runRows t ticker horizonMonths m := by
  rw [insertForecastSeriesBatch]
  split
  · rfl
  · have hStay : runRows (t.filter (·.ticker ∉ series.map Series.ticker)) ticker horizonMonths m =
        runRows t ticker horizonMonths m := by
      rw [runRows, runRows, List.filter_filter]
      apply List.filter_congr
      intro r _
      by_cases hRun : r.key = (ticker, horizonMonths, m)
      · have hSame : r.ticker = ticker := congrArg Prod.fst hRun
        rw [decide_eq_true hRun, decide_eq_true (by rw [hSame]; exact hTicker)]
        rfl
      · rw [decide_eq_false hRun]
        rfl
    have hNone : runRows (series.flatMap Series.rows) ticker horizonMonths m = [] := by
      rw [runRows_flatMap, writers_of_other hTicker]
      rfl
    simp only [Bool.false_eq_true, if_false]
    split
    · exact hStay
    · rw [runRows_append, hStay, hNone, List.append_nil]

end Stored

/-! ## When the reader sees the same series -/

/-- The series of the batch replace what is stored of the ticker and horizon: no stored run is later
than all of theirs, and one series writes their latest run. -/
structure Replaces (t : List ForecastRow) (series : List Series) (ticker : String)
    (horizonMonths : Int) : Prop where
  covers : ∀ r ∈ scanTwo t ticker horizonMonths,
    ∃ m, r.runDate ≤ m ∧ writers series ticker horizonMonths m ≠ []
  once : ∀ m, writers series ticker horizonMonths m ≠ [] →
    (∀ m', m < m' → writers series ticker horizonMonths m' = []) →
    (writers series ticker horizonMonths m).length = 1

section Compare

variable {t : List ForecastRow} {series : List Series} {ticker : String} {horizonMonths : Int} {m : Nat}

theorem flatMap_rows_eq_nil_iff :
    (writers series ticker horizonMonths m).flatMap Series.rows = [] ↔
      writers series ticker horizonMonths m = [] := by
  rw [List.flatMap_eq_nil_iff]
  constructor
  · intro hNone
    apply List.eq_nil_iff_forall_not_mem.mpr
    intro s hs
    exact (mem_writers.mp hs).2.2 (rows_eq_nil_iff.mp (hNone s hs))
  · intro hNil s hs
    rw [hNil] at hs
    exact absurd hs List.not_mem_nil

theorem runRows_oneByOne_of_none (h : writers series ticker horizonMonths m = []) :
    runRows (oneByOne false t series) ticker horizonMonths m = runRows t ticker horizonMonths m := by
  rw [runRows_oneByOne, h]
  rfl

theorem runRows_oneByOne_ne_nil (h : writers series ticker horizonMonths m ≠ []) :
    runRows (oneByOne false t series) ticker horizonMonths m ≠ [] := by
  rw [runRows_oneByOne, List.getLast?_eq_getLast_of_ne_nil h]
  have hLast := List.getLast_mem h
  intro hNil
  exact (mem_writers.mp hLast).2.2 (rows_eq_nil_iff.mp hNil)

theorem runDate_of_perm {t t' : List ForecastRow} {n : Nat}
    (hSome : runRows t ticker horizonMonths m ≠ [])
    (h : (runRows t ticker horizonMonths m).Perm (runRows t' ticker horizonMonths n)) : m = n := by
  obtain ⟨r, hr⟩ := List.exists_mem_of_ne_nil _ hSome
  have hRun := (mem_runRows.mp hr).2.2.2
  have hRun' := (mem_runRows.mp (h.subset hr)).2.2.2
  exact hRun.symm.trans hRun'

/-- With the series in place of what is stored, the last one is read either way. -/
theorem Replaces.latestRun_eq (h : Replaces t series ticker horizonMonths)
    (hTicker : ticker ∈ series.map Series.ticker) :
    latestRun (insertForecastSeriesBatch false t series) ticker horizonMonths =
      latestRun (oneByOne false t series) ticker horizonMonths := by
  have hStored : ∀ m, (∀ m', m ≤ m' → writers series ticker horizonMonths m' = []) →
      runRows (oneByOne false t series) ticker horizonMonths m = [] := by
    intro m hNone
    rw [runRows_oneByOne_of_none (hNone m (Nat.le_refl m))]
    apply List.eq_nil_iff_forall_not_mem.mpr
    intro r hr
    obtain ⟨hMem, hTick, hHorizon, rfl⟩ := mem_runRows.mp hr
    obtain ⟨m', hLe, hSome⟩ := h.covers r (List.mem_filter.mpr ⟨hMem, decide_eq_true ⟨hTick, hHorizon⟩⟩)
    exact hSome (hNone m' hLe)
  rcases latestRun_cases (insertForecastSeriesBatch false t series) ticker horizonMonths with
    ⟨hNil, hNone⟩ | ⟨m, hLatest, hSome, hLater⟩
  · have hWriters : ∀ m, writers series ticker horizonMonths m = [] := by
      intro m
      rw [← flatMap_rows_eq_nil_iff, ← runRows_batch hTicker]
      exact hNone m
    rcases latestRun_cases (oneByOne false t series) ticker horizonMonths with
      ⟨hNil', -⟩ | ⟨m, -, hSome, -⟩
    · rw [hNil, hNil']
    · exact absurd (hStored m fun m' _ => hWriters m') hSome
  · rw [runRows_batch hTicker, ne_eq, flatMap_rows_eq_nil_iff] at hSome
    have hWriters : ∀ m', m < m' → writers series ticker horizonMonths m' = [] := by
      intro m' hLess
      rw [← flatMap_rows_eq_nil_iff, ← runRows_batch hTicker]
      exact hLater m' hLess
    obtain ⟨s, hOne⟩ := List.length_eq_one_iff.mp (h.once m hSome hWriters)
    rw [hLatest, runRows_batch hTicker, ForecastSeries.latestRun_eq (runRows_oneByOne_ne_nil hSome) ?_,
      runRows_oneByOne, hOne]
    · simp
    · intro m' hLess
      exact hStored m' fun n hn => hWriters n (Nat.lt_of_lt_of_le hLess hn)

/-- A reader that sees the same rows has read the last of the series. -/
theorem replaces_of_perm (hTicker : ticker ∈ series.map Series.ticker)
    (hPerm : (latestRun (insertForecastSeriesBatch false t series) ticker horizonMonths).Perm
      (latestRun (oneByOne false t series) ticker horizonMonths)) :
    Replaces t series ticker horizonMonths := by
  rcases latestRun_cases (insertForecastSeriesBatch false t series) ticker horizonMonths with
    ⟨hNil, hNone⟩ | ⟨m, hLatest, hSome, hLater⟩
  · -- nothing is written, so that nothing may be stored
    have hWriters : ∀ m, writers series ticker horizonMonths m = [] := by
      intro m
      rw [← flatMap_rows_eq_nil_iff, ← runRows_batch hTicker]
      exact hNone m
    refine ⟨fun r hr => ?_, fun m hSome => absurd (hWriters m) hSome⟩
    obtain ⟨hMem, hTest⟩ := List.mem_filter.mp hr
    have hRow : r ∈ runRows (oneByOne false t series) ticker horizonMonths r.runDate := by
      rw [runRows_oneByOne_of_none (hWriters _)]
      exact mem_runRows.mpr ⟨hMem, (of_decide_eq_true hTest).1, (of_decide_eq_true hTest).2, rfl⟩
    rw [hNil] at hPerm
    rcases latestRun_cases (oneByOne false t series) ticker horizonMonths with
      ⟨-, hNone'⟩ | ⟨n, hLatest', hSome', -⟩
    · rw [hNone'] at hRow
      exact absurd hRow List.not_mem_nil
    · rw [hLatest'] at hPerm
      exact absurd (List.nil_perm.mp hPerm) hSome'
  · have hWriters : ∀ m', m < m' → writers series ticker horizonMonths m' = [] := by
      intro m' hLess
      rw [← flatMap_rows_eq_nil_iff, ← runRows_batch hTicker]
      exact hLater m' hLess
    rcases latestRun_cases (oneByOne false t series) ticker horizonMonths with
      ⟨hNil', -⟩ | ⟨n, hLatest', hSome', hLater'⟩
    · rw [hNil', hLatest] at hPerm
      exact absurd (List.perm_nil.mp hPerm) hSome
    · rw [hLatest, hLatest'] at hPerm
      obtain rfl := runDate_of_perm hSome hPerm
      rw [runRows_batch hTicker] at hSome hPerm
      have hWrite : writers series ticker horizonMonths m ≠ [] :=
        fun hNil => hSome (flatMap_rows_eq_nil_iff.mpr hNil)
      constructor
      · intro r hr
        obtain ⟨hMem, hTest⟩ := List.mem_filter.mp hr
        by_cases hLe : r.runDate ≤ m
        · exact ⟨m, hLe, hWrite⟩
        · have hNone := hLater' r.runDate (Nat.lt_of_not_le hLe)
          rw [runRows_oneByOne_of_none (hWriters _ (Nat.lt_of_not_le hLe))] at hNone
          have hRow : r ∈ runRows t ticker horizonMonths r.runDate :=
            mem_runRows.mpr ⟨hMem, (of_decide_eq_true hTest).1, (of_decide_eq_true hTest).2, rfl⟩
          rw [hNone] at hRow
          exact absurd hRow List.not_mem_nil
      · intro m' hSome'' hLast
        -- there is one latest run
        have hSame : m' = m := by
          rcases lt_trichotomy m' m with hLess | hSame | hMore
          · exact absurd (hLast m hLess) hWrite
          · exact hSame
          · exact absurd (hWriters m' hMore) hSome''
        subst hSame
        obtain ⟨front, s, hParts⟩ : ∃ front s, writers series ticker horizonMonths m' = front ++ [s] :=
          ⟨_, _, (List.dropLast_append_getLast hWrite).symm⟩
        have hLength := hPerm.length_eq
        rw [runRows_oneByOne, hParts, List.getLast?_concat, List.flatMap_append, List.length_append,
          List.flatMap_singleton] at hLength
        have hNil : front.flatMap Series.rows = [] := by
          apply List.length_eq_zero_iff.mp
          simp only at hLength
          omega
        have hFront : front = [] := by
          apply List.eq_nil_iff_forall_not_mem.mpr
          intro x hx
          have hMem : x ∈ writers series ticker horizonMonths m' := by
            rw [hParts]
            exact List.mem_append_left _ hx
          exact (mem_writers.mp hMem).2.2 (rows_eq_nil_iff.mp (List.flatMap_eq_nil_iff.mp hNil x hx))
        rw [hParts, hFront]
        rfl

end Compare

/-- The reader returns the same series, up to the order of equal dates, after the batch as after its
series one by one if and only if the batch has no series of the ticker, or they replace what is
stored of the ticker and horizon. -/
theorem sameSeries_iff (upper : String → String) {sort : List ForecastRow → List ForecastRow}
    (hSort : SortsUp dateRank sort) (t : List ForecastRow) (series : List Series) (ticker : String)
    (horizonMonths : Int) :
    (getLatestForecastSeries upper sort (insertForecastSeriesBatch false t series) ticker
        horizonMonths).Perm
      (getLatestForecastSeries upper sort (oneByOne false t series) ticker horizonMonths) ↔
      (upper ticker ∈ series.map Series.ticker → Replaces t series (upper ticker) horizonMonths) := by
  have hRead : ∀ t, (getLatestForecastSeries upper sort t ticker horizonMonths).Perm
      (latestRun t (upper ticker) horizonMonths) := fun t => hSort.perm _
  constructor
  · intro hPerm hTicker
    exact replaces_of_perm hTicker ((hRead _).symm.trans (hPerm.trans (hRead _)))
  · intro hReplaces
    refine (hRead _).trans (List.Perm.trans (List.Perm.of_eq ?_) (hRead _).symm)
    by_cases hTicker : upper ticker ∈ series.map Series.ticker
    · exact (hReplaces hTicker).latestRun_eq hTicker
    · apply latestRun_congr
      intro m
      rw [runRows_batch_of_other hTicker, runRows_oneByOne_of_none (writers_of_other hTicker)]

/-! ## A day's batch -/

def sortedByDate : List ForecastRow → List ForecastRow :=
  List.insertionSort fun a b => dateRank a ≤ dateRank b

theorem sortedByDate_sorts : SortsUp dateRank sortedByDate := sortsUp_insertionSort dateRank

def pointAt (day : Nat) (price : ℚ) : Point :=
  ⟨.datetime day 0, .finite price, .finite price, .finite price⟩

/-- The backtest of an earlier day, which is stored for horizon 0. -/
def backtestOverlay : Series := ⟨"AAPL", 0, 100, [pointAt 90 210]⟩

/-- The forecast of a day on which the backtest is not run again. -/
def dailyForecast : Series := ⟨"AAPL", 9, 101, [pointAt 102 215, pointAt 103 216]⟩

/-- Its own horizon is read as after a single insert. -/
theorem dailyForecast_same :
    (getLatestForecastSeries asciiUpper sortedByDate
        (insertForecastSeriesBatch false backtestOverlay.rows [dailyForecast]) "aapl" 9).Perm
      (getLatestForecastSeries asciiUpper sortedByDate
        (oneByOne false backtestOverlay.rows [dailyForecast]) "aapl" 9) := by
  refine (sameSeries_iff asciiUpper sortedByDate_sorts _ _ _ _).mpr fun _ => ⟨?_, ?_⟩
  · have hNone : scanTwo backtestOverlay.rows (asciiUpper "aapl") 9 = [] := by decide
    rw [hNone]
    exact fun r hr => absurd hr List.not_mem_nil
  · intro m hSome _
    by_cases hRun : dailyForecast.key = (asciiUpper "aapl", 9, m)
    · rw [writers_cons_of_writes ⟨hRun, by decide⟩]
      rfl
    · rw [writers_cons_of_not fun hBoth => hRun hBoth.1] at hSome
      exact absurd rfl hSome

/-- The overlay is lost in a batch without a new one, and a run that occurs twice is read twice. -/
theorem overlay_lost_and_run_doubled :
    ¬(getLatestForecastSeries asciiUpper sortedByDate
          (insertForecastSeriesBatch false backtestOverlay.rows [dailyForecast]) "AAPL" 0).Perm
        (getLatestForecastSeries asciiUpper sortedByDate
          (oneByOne false backtestOverlay.rows [dailyForecast]) "AAPL" 0) ∧
      ¬(getLatestForecastSeries asciiUpper sortedByDate
          (insertForecastSeriesBatch false [] [dailyForecast, dailyForecast]) "AAPL" 9).Perm
        (getLatestForecastSeries asciiUpper sortedByDate
          (oneByOne false [] [dailyForecast, dailyForecast]) "AAPL" 9) := by
  constructor
  · intro hPerm
    exact absurd hPerm.length_eq (by decide +kernel)
  · intro hPerm
    exact absurd hPerm.length_eq (by decide +kernel)

end AsetPlatform.StockData.ForecastSeries
