import AsetPlatform.StockData.CachedRepository

/-!
# The freshness gate of the price analysis

`analyse_stock_price` of `backend/tools/price_analysis_tool.py`, with `_load_ohlcv` and `_auto_fetch`
of `backend/tools/_analysis_shared.py`, over the caching repository. The gate answers from the stored
analysis when that is at most seven days old and no stored price is of a later day. `compute` gives the
statistics of the loaded prices, `none` where it raises. Tickers are as the tools have normalised them,
and the commits of a run succeed.

`State.rowsSince` is no part of the program. It counts the rows of one ticker that were added since its
stored analysis was computed.

`upToDate_truthful_iff`: the runs in which an analysis is called up to date only if no row was added
are those in which each insert that adds rows, while the gate may still answer, comes with a later day
than that of the analysis, or finds one.
-/

set_option autoImplicit false

namespace AsetPlatform.StockData.AnalysisFreshness

open AsetPlatform.Library CachedRepository

universe u

variable {P : Type u}

/-! ## The tool -/

/-- The `analysis_date` of a stored analysis; a day is kept as its number. -/
def analysisDate (row : AnalysisRow) : Option Nat :=
  (row.fields.lookup "analysis_date").map fun text => Nat.ofDigitChars 10 text.toList 0

/-- What a call meets: the days on which it loads and stores, as midnight may pass, the prices that a
fetch would bring, and what the new row is given. -/
structure AnalyseCall (P : Type u) where
  ticker : String
  loadDay : Nat
  storeDay : Nat
  fetched : List (Nat × Option P)
  summaryId : String
  computedAt : Int

inductive Reply where
  | upToDate (run : Nat)
  | noData
  | report (stats : List (String × String))
  | error
  deriving DecidableEq

/-- `get_ohlcv`, of a ticker in upper case. -/
def getOhlcv (s : StockTables P) (ticker : String) : List (OhlcvRow P) :=
  s.ohlcv.visible.filter (·.ticker = ticker)

/-- `_is_ohlcv_stale` -/
def isOhlcvStale (df : List (OhlcvRow P)) (today : Nat) : Bool :=
  match (df.map OhlcvRow.date).max? with
  | none => true
  | some latest => latest + 2 < today

/-- The row that `insert_analysis_summary` builds. -/
def summaryRow (call : AnalyseCall P) (stats : List (String × String)) : AnalysisRow where
  summaryId := call.summaryId
  ticker := call.ticker
  fields := ("analysis_date", toString call.storeDay) :: stats
  computedAt := call.computedAt

section Tool

variable (upper : String → String) (compute : List (OhlcvRow P) → Option (List (String × String)))

/-- The day of the stored analysis, when the gate answers from it. -/
def gate (today : Nat) (w : World P) (ticker : String) : Option Nat × World P :=
  match w.read upper (.getLatestAnalysisSummary ticker) with
  | (.analysis (some row), w) =>
      match analysisDate row with
      | some ad =>
          if today ≤ ad + 7 then
            match w.read upper (.getLatestOhlcvDate ticker) with
            | (.ohlcvDate (some latest), w) => (if latest ≤ ad then some ad else none, w)
            | (_, w) => (none, w)
          else (none, w)
      | none => (none, w)
  | (_, w) => (none, w)

/-- `_auto_fetch`; nothing is inserted when the fetch comes back empty. -/
def autoFetch (w : World P) (ticker : String) (fetched : List (Nat × Option P)) : World P :=
  if fetched = [] then w else w.run upper (.insertOhlcv ticker fetched false .done .done)

/-- `_load_ohlcv` -/
def loadOhlcv (w : World P) (call : AnalyseCall P) : List (OhlcvRow P) × World P :=
  let df := getOhlcv w.repo call.ticker
  let w := w.run upper (.query .ohlcv)
  if isOhlcvStale df call.loadDay then
    let w := autoFetch upper w call.ticker call.fetched
    (getOhlcv w.repo call.ticker, w.run upper (.query .ohlcv))
  else (df, w)

/-- What is answered from prices, and the statistics to be stored. -/
def recompute (df : List (OhlcvRow P)) : Reply :=
  if df = [] then .noData
  else match compute df with
    | some stats => .report stats
    | none => .error

/-- `analyse_stock_price` -/
def analyseStockPrice (today : Nat) (w : World P) (call : AnalyseCall P) : Reply × World P :=
  match gate upper today w call.ticker with
  | (some ad, w) => (.upToDate ad, w)
  | (none, w) =>
      let (df, w) := loadOhlcv upper w call
      match recompute compute df with
      | .report stats =>
          (.report stats, w.run upper (.insertAnalysisSummary (summaryRow call stats) .done .done))
      | reply => (reply, w)

end Tool

/-! ## Runs -/

def added (w : World P) (ticker : String) (df : List (Nat × Option P)) : List (OhlcvRow P) :=
  filtered (StockTables.storedRows w.repo.ohlcv ticker) ticker df

structure State (P : Type u) where
  today : Nat
  world : World P
  rowsSince : Nat

/-- An insert, a call of the tool, entries of the cache that vanish, or midnight. -/
inductive Event (P : Type u) where
  | insertOhlcv (ticker : String) (df : List (Nat × Option P))
  | analyse (call : AnalyseCall P)
  | forget (keys : List String)
  | midnight

/-- The tables before anything is stored. -/
def emptyTables : StockTables P := ⟨⟨[], none⟩, ⟨[], none⟩, ⟨[], none⟩, ⟨[], none⟩⟩

def start (today : Nat) : State P := ⟨today, ⟨emptyTables, .empty⟩, 0⟩

/-- The rows that the fetch of a call adds, when the stored prices are stale. -/
def fetchedRows (w : World P) (call : AnalyseCall P) : Nat :=
  if isOhlcvStale (getOhlcv w.repo call.ticker) call.loadDay then
    (added w call.ticker call.fetched).length
  else 0

def prices (s : StockTables P) (ticker : String) : List (OhlcvRow P) :=
  s.ohlcv.rows.filter (·.ticker = ticker)

/-- The day of the stored analysis of a ticker. -/
def analysedOn (s : StockTables P) (ticker : String) : Option Nat :=
  (s.getLatestAnalysisSummary ticker).bind analysisDate

section System

variable (upper : String → String) (compute : List (OhlcvRow P) → Option (List (String × String)))
variable (ticker : String)

/-- `rowsSince` after a call of the tool. -/
def rowsAfter (s : State P) (call : AnalyseCall P) : Reply → Nat
  | .upToDate _ => s.rowsSince
  | .report _ => 0
  | .noData | .error => s.rowsSince + fetchedRows s.world call

def step (s : State P) : Event P → State P
  | .insertOhlcv other df =>
      { s with
        world := s.world.run upper (.insertOhlcv other df false .done .done)
        rowsSince := s.rowsSince + if other = ticker then (added s.world other df).length else 0 }
  | .analyse call =>
      let (reply, w) := analyseStockPrice upper compute s.today s.world call
      { s with
        world := w
        rowsSince := if call.ticker = ticker then rowsAfter s call reply else s.rowsSince }
  | .forget keys => { s with world := s.world.step upper (.forget keys) }
  | .midnight => { s with today := s.today + 1 }

/-- A call of the tool says that the analysis is up to date only if no row was added since, and
otherwise answers from all the stored prices. -/
def Truthful (s : State P) : Prop :=
  ∀ call : AnalyseCall P, call.ticker = ticker →
    match analyseStockPrice upper compute s.today s.world call with
    | (.upToDate _, _) => s.rowsSince = 0
    | (reply, w) => reply = recompute compute (prices w.repo ticker)

/-- An insert that adds rows, while the gate may answer from an analysis, brings or finds a row of a
later day. -/
def Noticed (s : State P) : Event P → Prop
  | .insertOhlcv other df =>
      other = ticker → added s.world ticker df ≠ [] →
        ∀ ad, analysedOn s.world.repo ticker = some ad → s.today ≤ ad + 7 →
          (∃ r ∈ prices s.world.repo ticker, ad < r.date) ∨ ∃ row ∈ df, ad < row.1
  | .analyse _ | .forget _ | .midnight => True

end System

/-! ## The repository under the tool -/

/-- The cached reads are those of the repository, and its queries read what is stored. -/
structure Settled (upper : String → String) (w : World P) : Prop where
  current : w.Current upper
  ohlcv : w.repo.ohlcv.visible = w.repo.ohlcv.rows
  analysis : w.repo.analysisSummary.visible = w.repo.analysisSummary.rows

/-- The stored prices and analyses are the same. -/
def SameRows (w w' : World P) : Prop :=
  w'.repo.ohlcv.rows = w.repo.ohlcv.rows ∧
    w'.repo.analysisSummary.rows = w.repo.analysisSummary.rows

section Repository

variable {upper : String → String} {w w' : World P}

theorem SameRows.refl (w : World P) : SameRows w w := ⟨rfl, rfl⟩

theorem SameRows.trans {w'' : World P} (h : SameRows w w') (h' : SameRows w' w'') : SameRows w w'' :=
  ⟨h'.1.trans h.1, h'.2.trans h.2⟩

theorem Settled.queried (h : Settled upper w) (table : TableName) {cache : Dict String Answer}
    (hCurrent : World.Current upper ⟨w.repo.queried table, cache⟩) :
    Settled upper ⟨w.repo.queried table, cache⟩ ∧ SameRows w ⟨w.repo.queried table, cache⟩ := by
  cases table with
  | companyInfo => exact ⟨⟨hCurrent, h.ohlcv, h.analysis⟩, .refl w⟩
  | ohlcv => exact ⟨⟨hCurrent, h.ohlcv, h.analysis⟩, .refl w⟩
  | analysisSummary => exact ⟨⟨hCurrent, h.ohlcv, h.analysis⟩, .refl w⟩
  | forecastRuns => exact ⟨⟨hCurrent, h.ohlcv, h.analysis⟩, .refl w⟩

theorem Settled.read (h : Settled upper w) (r : Reader) :
    (w.read upper r).1 = answer upper w.repo r ∧ Settled upper (w.read upper r).2 ∧
      SameRows w (w.read upper r).2 := by
  refine ⟨World.readsCurrent_iff.mpr h.current r, ?_⟩
  have hCurrent := h.current.read r
  rw [World.read] at hCurrent ⊢
  split at hCurrent
  · exact ⟨h, .refl w⟩
  · exact h.queried r.table hCurrent

theorem Settled.runQuery (h : Settled upper w) (table : TableName) :
    Settled upper (w.run upper (.query table)) ∧ SameRows w (w.run upper (.query table)) := by
  have hCurrent : (w.run upper (.query table)).Current upper :=
    (h.current.step_iff (.run (.query table))).mpr fun t hMem => absurd hMem List.not_mem_nil
  exact h.queried table hCurrent

theorem Settled.forget (h : Settled upper w) (keys : List String) :
    Settled upper (w.step upper (.forget keys)) :=
  ⟨h.current.forget keys, h.ohlcv, h.analysis⟩

/-- An insert that is committed. -/
theorem Settled.runInsertOhlcv (h : Settled upper w) (other : String) (df : List (Nat × Option P)) :
    Settled upper (w.run upper (.insertOhlcv other df false .done .done)) ∧
      (w.run upper (.insertOhlcv other df false .done .done)).repo.ohlcv.rows =
        (insertOhlcv w.repo.ohlcv.rows other df {}).1 ∧
      (w.run upper (.insertOhlcv other df false .done .done)).repo.analysisSummary.rows =
        w.repo.analysisSummary.rows := by
  have hStored : StockTables.storedRows w.repo.ohlcv other = w.repo.ohlcv.rows := by
    rw [StockTables.storedRows, h.ohlcv, ite_self]
  have hCurrent := h.current.wrapped (m := .insertOhlcv other df false .done .done) rfl
  have hPerform : (perform upper w.repo (.insertOhlcv other df false .done .done)).2 = false ∧
      (perform upper w.repo (.insertOhlcv other df false .done .done)).1.ohlcv.rows =
        (insertOhlcv w.repo.ohlcv.rows other df {}).1 ∧
      (perform upper w.repo (.insertOhlcv other df false .done .done)).1.ohlcv.visible =
        (perform upper w.repo (.insertOhlcv other df false .done .done)).1.ohlcv.rows ∧
      (perform upper w.repo (.insertOhlcv other df false .done .done)).1.analysisSummary =
        w.repo.analysisSummary := by
    rw [perform, StockTables.insertOhlcv, insertOhlcv]
    by_cases hEmpty : df = []
    · simp only [if_pos hEmpty]
      exact ⟨trivial, trivial, h.ohlcv, trivial⟩
    · simp only [if_neg hEmpty, Bool.false_eq_true, if_false, hStored]
      by_cases hNew : filtered w.repo.ohlcv.rows other df = []
      · simp only [if_pos hNew]
        exact ⟨trivial, rfl, h.ohlcv, trivial⟩
      · simp only [if_neg hNew]
        exact ⟨rfl, rfl, rfl, trivial⟩
  rw [World.run]
  rcases hResult : perform upper w.repo (.insertOhlcv other df false .done .done) with ⟨repo, raised⟩
  rw [hResult] at hPerform hCurrent
  obtain ⟨rfl, hRows, hVisible, hAnalysis⟩ := hPerform
  exact ⟨⟨hCurrent, hVisible, hAnalysis ▸ h.analysis⟩, hRows, congrArg _ hAnalysis⟩

/-- A stored analysis takes the place of those of its ticker. -/
theorem Settled.runInsertAnalysisSummary (h : Settled upper w) (row : AnalysisRow) :
    Settled upper (w.run upper (.insertAnalysisSummary row .done .done)) ∧
      (w.run upper (.insertAnalysisSummary row .done .done)).repo.ohlcv = w.repo.ohlcv ∧
      (w.run upper (.insertAnalysisSummary row .done .done)).repo.analysisSummary.rows =
        w.repo.analysisSummary.rows.filter (·.ticker ≠ row.ticker) ++ [row] :=
  ⟨⟨h.current.wrapped (m := .insertAnalysisSummary row .done .done) rfl, h.ohlcv, rfl⟩, rfl, rfl⟩

theorem SameRows.prices_eq (h : SameRows w w') (ticker : String) :
    prices w'.repo ticker = prices w.repo ticker := by
  rw [prices, prices, h.1]

theorem Settled.getOhlcv_eq (h : Settled upper w) (ticker : String) :
    getOhlcv w.repo ticker = prices w.repo ticker := by
  rw [getOhlcv, prices, h.ohlcv]

/-- The stored analysis is read from the rows of its ticker. -/
theorem Settled.analysedOn_eq (h : Settled upper w) (ticker : String) :
    analysedOn w.repo ticker =
      (latestBy AnalysisRow.computedAt (w.repo.analysisSummary.rows.filter (·.ticker = ticker))).bind
        analysisDate := by
  rw [analysedOn, StockTables.getLatestAnalysisSummary, h.analysis]

theorem Settled.analysedOn_congr (h : Settled upper w) (h' : Settled upper w') {ticker : String}
    (hRows : w'.repo.analysisSummary.rows.filter (·.ticker = ticker) =
      w.repo.analysisSummary.rows.filter (·.ticker = ticker)) :
    analysedOn w'.repo ticker = analysedOn w.repo ticker := by
  rw [h'.analysedOn_eq, h.analysedOn_eq, hRows]

theorem Settled.analysedOn_insert (h : Settled upper w) (row : AnalysisRow) (ticker : String) :
    analysedOn (w.run upper (.insertAnalysisSummary row .done .done)).repo ticker =
      if ticker = row.ticker then analysisDate row else analysedOn w.repo ticker := by
  obtain ⟨hAfter, -, hRows⟩ := h.runInsertAnalysisSummary row
  rw [hAfter.analysedOn_eq, hRows, List.filter_append, StockTables.filter_others]
  split
  · rename_i hTicker
    rw [List.filter_cons_of_pos (by simp [hTicker]), List.filter_nil, List.nil_append]
    rfl
  · rename_i hTicker
    rw [List.filter_cons_of_neg (by simpa using Ne.symm hTicker), List.filter_nil, List.append_nil,
      h.analysedOn_eq]

/-! ## Days -/

theorem later_iff {s : StockTables P} {ticker : String} {ad : Nat} :
    (∃ r ∈ prices s ticker, ad < r.date) ↔ ∃ day, (ticker, day) ∈ storedKeys s.ohlcv.rows ∧ ad < day := by
  constructor
  · rintro ⟨r, hr, hLater⟩
    obtain ⟨hRow, hTicker⟩ := List.mem_filter.mp hr
    refine ⟨r.date, mem_storedKeys.mpr ⟨r, hRow, ?_⟩, hLater⟩
    rw [OhlcvRow.key, of_decide_eq_true hTicker]
  · rintro ⟨day, hKey, hLater⟩
    obtain ⟨r, hRow, hSame⟩ := mem_storedKeys.mp hKey
    obtain ⟨hTicker, rfl⟩ := Prod.mk.inj hSame
    exact ⟨r, List.mem_filter.mpr ⟨hRow, decide_eq_true hTicker⟩, hLater⟩

theorem prices_ne_nil_iff {s : StockTables P} {ticker : String} :
    prices s ticker ≠ [] ↔ ∃ day, (ticker, day) ∈ storedKeys s.ohlcv.rows := by
  constructor
  · intro hSome
    obtain ⟨r, hr⟩ := List.exists_mem_of_ne_nil _ hSome
    obtain ⟨hRow, hTicker⟩ := List.mem_filter.mp hr
    refine ⟨r.date, mem_storedKeys.mpr ⟨r, hRow, ?_⟩⟩
    rw [OhlcvRow.key, of_decide_eq_true hTicker]
  · rintro ⟨day, hKey⟩
    obtain ⟨r, hRow, hSame⟩ := mem_storedKeys.mp hKey
    exact List.ne_nil_of_mem (List.mem_filter.mpr ⟨hRow, decide_eq_true (Prod.mk.inj hSame).1⟩)

/-- The latest day is no later than another one. -/
theorem latest_le_iff {s : StockTables P} {ticker : String} {ad : Nat}
    (hVisible : s.ohlcv.visible = s.ohlcv.rows) :
    (∃ latest, s.getLatestOhlcvDate ticker = some latest ∧ latest ≤ ad) ↔
      prices s ticker ≠ [] ∧ ¬∃ r ∈ prices s ticker, ad < r.date := by
  have hDays : s.getLatestOhlcvDate ticker = ((prices s ticker).map OhlcvRow.date).max? := by
    rw [StockTables.getLatestOhlcvDate, hVisible, prices]
  rw [hDays]
  constructor
  · rintro ⟨latest, hMax, hLe⟩
    refine ⟨?_, ?_⟩
    · intro hNone
      rw [hNone] at hMax
      cases hMax
    · rintro ⟨r, hr, hLater⟩
      have hBound := (List.max?_le_iff hMax).mp hLe r.date (List.mem_map_of_mem hr)
      omega
  · rintro ⟨hSome, hNone⟩
    cases hMax : ((prices s ticker).map OhlcvRow.date).max? with
    | none => exact absurd (List.map_eq_nil_iff.mp (List.max?_eq_none_iff.mp hMax)) hSome
    | some latest =>
        refine ⟨latest, rfl, Nat.not_lt.mp fun hLater => hNone ?_⟩
        obtain ⟨r, hr, rfl⟩ := List.mem_map.mp (List.max?_mem hMax)
        exact ⟨r, hr, hLater⟩

end Repository

/-! ## One call of the tool -/

section Call

variable {upper : String → String} {compute : List (OhlcvRow P) → Option (List (String × String))}
variable {w w' : World P} {ticker : String}

/-- What is stored stays, and no analysis is new. -/
structure Grown (upper : String → String) (w w' : World P) : Prop where
  settled : Settled upper w'
  keys : storedKeys w.repo.ohlcv.rows ⊆ storedKeys w'.repo.ohlcv.rows
  analysis : w'.repo.analysisSummary.rows = w.repo.analysisSummary.rows

theorem SameRows.grown (h : SameRows w w') (hSettled : Settled upper w') : Grown upper w w' :=
  ⟨hSettled, h.1 ▸ List.Subset.refl _, h.2⟩

theorem Grown.trans {w'' : World P} (h : Grown upper w w') (h' : Grown upper w' w'') :
    Grown upper w w'' :=
  ⟨h'.settled, List.Subset.trans h.keys h'.keys, h'.analysis.trans h.analysis⟩

theorem Grown.analysedOn_eq (h : Grown upper w w') (hSettled : Settled upper w) (ticker : String) :
    analysedOn w'.repo ticker = analysedOn w.repo ticker :=
  hSettled.analysedOn_congr h.settled (by rw [h.analysis])

theorem Grown.prices_ne_nil (h : Grown upper w w') (hSome : prices w.repo ticker ≠ []) :
    prices w'.repo ticker ≠ [] := by
  obtain ⟨day, hDay⟩ := prices_ne_nil_iff.mp hSome
  exact prices_ne_nil_iff.mpr ⟨day, h.keys hDay⟩

theorem Grown.later (h : Grown upper w w') {ad : Nat} (hLater : ∃ r ∈ prices w.repo ticker, ad < r.date) :
    ∃ r ∈ prices w'.repo ticker, ad < r.date := by
  obtain ⟨day, hDay, hLt⟩ := later_iff.mp hLater
  exact later_iff.mpr ⟨day, h.keys hDay, hLt⟩

theorem Settled.grown_insertOhlcv (h : Settled upper w) (other : String)
    (df : List (Nat × Option P)) :
    Grown upper w (w.run upper (.insertOhlcv other df false .done .done)) := by
  obtain ⟨hSettled, hRows, hAnalysis⟩ := h.runInsertOhlcv other df
  refine ⟨hSettled, ?_, hAnalysis⟩
  rw [hRows]
  exact (insertOhlcv_stores (Or.inl ⟨rfl, by simp⟩)).2

/-- The gate answers within seven days, when no price is later. -/
theorem Settled.gate (h : Settled upper w) (ticker : String) (today : Nat) :
    Settled upper (gate upper today w ticker).2 ∧ SameRows w (gate upper today w ticker).2 ∧
      ∀ ad, (gate upper today w ticker).1 = some ad ↔
        analysedOn w.repo (upper ticker) = some ad ∧ today ≤ ad + 7 ∧
          prices w.repo (upper ticker) ≠ [] ∧ ¬∃ r ∈ prices w.repo (upper ticker), ad < r.date := by
  obtain ⟨hRead, hSettled, hSame⟩ := h.read (.getLatestAnalysisSummary ticker)
  rw [answer] at hRead
  rw [AnalysisFreshness.gate, analysedOn]
  rcases hAnalysis : w.read upper (.getLatestAnalysisSummary ticker) with ⟨a, w₁⟩
  rw [hAnalysis] at hRead hSettled hSame
  obtain rfl : a = .analysis (w.repo.getLatestAnalysisSummary (upper ticker)) := hRead
  cases hRow : w.repo.getLatestAnalysisSummary (upper ticker) with
  | none => exact ⟨hSettled, hSame, fun ad => by simp⟩
  | some row =>
      rw [Option.bind_some]
      cases hDay : analysisDate row with
      | none =>
          simp only [hDay]
          exact ⟨hSettled, hSame, fun ad => by simp⟩
      | some ad =>
          by_cases hAge : today ≤ ad + 7
          · obtain ⟨hRead₁, hSettled₁, hSame₁⟩ := hSettled.read (.getLatestOhlcvDate ticker)
            rw [answer] at hRead₁
            have hLatest : ∀ day, (∃ latest, w₁.repo.getLatestOhlcvDate (upper ticker) = some latest ∧
                latest ≤ day) ↔ prices w.repo (upper ticker) ≠ [] ∧
                  ¬∃ r ∈ prices w.repo (upper ticker), day < r.date := by
              intro day
              rw [latest_le_iff hSettled.ohlcv, hSame.prices_eq]
            simp only [hDay, if_pos hAge]
            rcases hDate : w₁.read upper (.getLatestOhlcvDate ticker) with ⟨b, w₂⟩
            rw [hDate] at hRead₁ hSettled₁ hSame₁
            obtain rfl : b = .ohlcvDate (w₁.repo.getLatestOhlcvDate (upper ticker)) := hRead₁
            simp only [← hLatest]
            cases w₁.repo.getLatestOhlcvDate (upper ticker) with
            | none => exact ⟨hSettled₁, hSame.trans hSame₁, fun ad' => by simp⟩
            | some latest =>
                refine ⟨hSettled₁, hSame.trans hSame₁, fun ad' => ?_⟩
                by_cases hLate : latest ≤ ad
                · simp only [if_pos hLate, Option.some.injEq]
                  constructor
                  · rintro rfl
                    exact ⟨rfl, hAge, latest, rfl, hLate⟩
                  · exact fun hDays => hDays.1
                · simp only [if_neg hLate, Option.some.injEq]
                  constructor
                  · intro hNone
                    cases hNone
                  · rintro ⟨rfl, -, day, rfl, hLe⟩
                    exact absurd hLe hLate
          · simp only [hDay, if_neg hAge]
            refine ⟨hSettled, hSame, fun ad' => ?_⟩
            constructor
            · intro hNone
              cases hNone
            · rintro ⟨hSomeDay, hFresh, -⟩
              rw [Option.some.inj hSomeDay] at hAge
              exact absurd hFresh hAge

theorem Settled.loadOhlcv (h : Settled upper w) (call : AnalyseCall P) :
    (loadOhlcv upper w call).1 = prices (loadOhlcv upper w call).2.repo call.ticker ∧
      Grown upper w (loadOhlcv upper w call).2 := by
  obtain ⟨hSettled, hSame⟩ := h.runQuery .ohlcv
  rw [AnalysisFreshness.loadOhlcv]
  dsimp only
  split
  · have hFetch : Grown upper w (autoFetch upper (w.run upper (.query .ohlcv)) call.ticker call.fetched) := by
      rw [autoFetch]
      split
      · exact hSame.grown hSettled
      · exact (hSame.grown hSettled).trans (hSettled.grown_insertOhlcv call.ticker call.fetched)
    obtain ⟨hSettled', hSame'⟩ := hFetch.settled.runQuery .ohlcv
    exact ⟨by rw [hFetch.settled.getOhlcv_eq, hSame'.prices_eq],
      hFetch.trans (hSame'.grown hSettled')⟩
  · exact ⟨by rw [h.getOhlcv_eq, hSame.prices_eq], hSame.grown hSettled⟩

/-- A call answers from the gate, or from all the stored prices. -/
theorem Settled.analyse_cases (h : Settled upper w)
    (compute : List (OhlcvRow P) → Option (List (String × String))) (today : Nat)
    (call : AnalyseCall P) :
    (∃ ad w', (AnalysisFreshness.gate upper today w call.ticker).1 = some ad ∧
        analyseStockPrice upper compute today w call = (.upToDate ad, w') ∧ Grown upper w w') ∨
      (AnalysisFreshness.gate upper today w call.ticker).1 = none ∧ ∃ w', Grown upper w w' ∧
        analyseStockPrice upper compute today w call =
          match recompute compute (prices w'.repo call.ticker) with
          | .report stats => (.report stats,
              w'.run upper (.insertAnalysisSummary (summaryRow call stats) .done .done))
          | reply => (reply, w') := by
  obtain ⟨hGate, hSame, -⟩ := h.gate call.ticker today
  rw [analyseStockPrice]
  rcases hCheck : AnalysisFreshness.gate upper today w call.ticker with ⟨answered, w₁⟩
  rw [hCheck] at hGate hSame
  cases answered with
  | some ad => exact Or.inl ⟨ad, w₁, rfl, rfl, hSame.grown hGate⟩
  | none =>
      obtain ⟨hLoaded, hGrown⟩ := Settled.loadOhlcv hGate call
      refine Or.inr ⟨rfl, _, (hSame.grown hGate).trans hGrown, ?_⟩
      dsimp only
      rw [hLoaded]

theorem recompute_ne_upToDate (df : List (OhlcvRow P)) (ad : Nat) :
    recompute compute df ≠ .upToDate ad := by
  rw [recompute]
  split
  · exact Reply.noConfusion
  · split <;> exact Reply.noConfusion

theorem ne_nil_of_recompute {df : List (OhlcvRow P)} {stats : List (String × String)}
    (h : recompute compute df = .report stats) : df ≠ [] := by
  rintro rfl
  cases h

end Call

/-! ## Whole runs -/

section Whole

variable {upper : String → String} {compute : List (OhlcvRow P) → Option (List (String × String))}
variable {ticker : String} {s : State P}

/-- An analysis is stored only of prices that are stored. -/
structure Sound (upper : String → String) (ticker : String) (s : State P) : Prop where
  settled : Settled upper s.world
  priced : analysedOn s.world.repo ticker ≠ none → prices s.world.repo ticker ≠ []

/-- Rows added since the analysis, as long as the gate may answer from it, leave a later day. -/
def Pending (ticker : String) (s : State P) : Prop :=
  ∀ ad, analysedOn s.world.repo ticker = some ad → s.today ≤ ad + 7 → s.rowsSince ≠ 0 →
    ∃ r ∈ prices s.world.repo ticker, ad < r.date

theorem Truthful.rowsSince_eq_zero (h : Truthful upper compute ticker s) {call : AnalyseCall P}
    (hTicker : call.ticker = ticker) {ad : Nat}
    (hReply : (analyseStockPrice upper compute s.today s.world call).1 = .upToDate ad) :
    s.rowsSince = 0 := by
  have hCall := h call hTicker
  rcases hResult : analyseStockPrice upper compute s.today s.world call with ⟨reply, w⟩
  rw [hResult] at hCall hReply
  rw [show reply = .upToDate ad from hReply] at hCall
  exact hCall

theorem Sound.truthful_iff_pending (h : Sound upper ticker s) (hUpper : upper ticker = ticker) :
    Truthful upper compute ticker s ↔ Pending ticker s := by
  have hGate := (h.settled.gate ticker s.today).2.2
  rw [hUpper] at hGate
  constructor
  · intro hTruthful ad hStored hAge hRows
    by_contra hNone
    -- Any call meets the gate.
    have hAnswer : (gate upper s.today s.world ticker).1 = some ad :=
      (hGate ad).mpr ⟨hStored, hAge, h.priced (by rw [hStored]; simp), hNone⟩
    rcases h.settled.analyse_cases compute s.today ⟨ticker, 0, 0, [], "", 0⟩ with
      ⟨ad', w', -, hCall, -⟩ | ⟨hSkipped, -⟩
    · exact hRows (hTruthful.rowsSince_eq_zero rfl (congrArg Prod.fst hCall))
    · rw [hAnswer] at hSkipped
      cases hSkipped
  · intro hPending call hTicker
    rcases h.settled.analyse_cases compute s.today call with
      ⟨ad, w', hAnswer, hCall, -⟩ | ⟨-, w', -, hCall⟩
    · rw [hTicker, hGate] at hAnswer
      obtain ⟨hStored, hAge, -, hNone⟩ := hAnswer
      rw [hCall]
      by_contra hRows
      exact hNone (hPending ad hStored hAge hRows)
    · rw [hCall, hTicker]
      cases hReply : recompute compute (prices w'.repo ticker) with
      | upToDate ad => exact absurd hReply (recompute_ne_upToDate _ ad)
      | noData => exact hReply.symm
      | error => exact hReply.symm
      | report stats => exact hReply.symm

theorem Sound.grown (h : Sound upper ticker s) {s' : State P}
    (hGrown : Grown upper s.world s'.world) : Sound upper ticker s' := by
  refine ⟨hGrown.settled, fun hStored => hGrown.prices_ne_nil (h.priced ?_)⟩
  rwa [← hGrown.analysedOn_eq h.settled]

theorem Pending.grown (h : Pending ticker s) (hSound : Sound upper ticker s) {s' : State P}
    (hGrown : Grown upper s.world s'.world) (hToday : s.today ≤ s'.today)
    (hRows : s'.rowsSince = s.rowsSince) : Pending ticker s' := by
  intro ad hStored hAge hSome
  rw [hGrown.analysedOn_eq hSound.settled] at hStored
  exact hGrown.later (h ad hStored (Nat.le_trans hToday hAge) (hRows ▸ hSome))

theorem Sound.step (h : Sound upper ticker s) (e : Event P) :
    Sound upper ticker (step upper compute ticker s e) := by
  cases e with
  | insertOhlcv other df => exact h.grown (h.settled.grown_insertOhlcv other df)
  | forget keys => exact ⟨h.settled.forget keys, h.priced⟩
  | midnight => exact ⟨h.settled, h.priced⟩
  | analyse call =>
      rw [AnalysisFreshness.step]
      rcases h.settled.analyse_cases compute s.today call with
        ⟨ad, w', -, hCall, hGrown⟩ | ⟨-, w', hGrown, hCall⟩
      · rw [hCall]
        exact h.grown hGrown
      · rw [hCall]
        cases hReply : recompute compute (prices w'.repo call.ticker) with
        | upToDate ad => exact h.grown hGrown
        | noData => exact h.grown hGrown
        | error => exact h.grown hGrown
        | report stats =>
            have hStored := hGrown.settled.analysedOn_insert (summaryRow call stats) ticker
            refine ⟨(hGrown.settled.runInsertAnalysisSummary _).1, fun hSome => ?_⟩
            change prices w'.repo ticker ≠ []
            change analysedOn (w'.run upper (.insertAnalysisSummary _ .done .done)).repo ticker ≠ none
              at hSome
            rw [hStored] at hSome
            split at hSome
            · rename_i hTicker
              rw [hTicker]
              exact ne_nil_of_recompute hReply
            · rw [hGrown.analysedOn_eq h.settled] at hSome
              exact hGrown.prices_ne_nil (h.priced hSome)

/-- A call of the tool leaves no row unnoticed: when it fails, the gate did not answer before it. -/
theorem Pending.analyse (h : Pending ticker s) (hSound : Sound upper ticker s)
    (hUpper : upper ticker = ticker) (call : AnalyseCall P) :
    Pending ticker (AnalysisFreshness.step upper compute ticker s (.analyse call)) := by
  rw [AnalysisFreshness.step]
  rcases hSound.settled.analyse_cases compute s.today call with
    ⟨ad, w', -, hCall, hGrown⟩ | ⟨hSkipped, w', hGrown, hCall⟩
  · rw [hCall]
    exact h.grown hSound hGrown (Nat.le_refl _) (ite_self _)
  · -- A later day was stored already, or else the gate would have answered.
    have hLater : call.ticker = ticker → ∀ ad, analysedOn s.world.repo ticker = some ad →
        s.today ≤ ad + 7 → ∃ r ∈ prices s.world.repo ticker, ad < r.date := by
      intro hTicker ad hStored hAge
      by_contra hNone
      have hAnswer := ((hSound.settled.gate ticker s.today).2.2 ad).mpr (by
        rw [hUpper]
        exact ⟨hStored, hAge, hSound.priced (by rw [hStored]; simp), hNone⟩)
      rw [hTicker, hAnswer] at hSkipped
      cases hSkipped
    have hFailed : ∀ rows, Pending ticker
        ⟨s.today, w', if call.ticker = ticker then rows else s.rowsSince⟩ := by
      intro rows ad hStored hAge hSome
      have hBefore : analysedOn s.world.repo ticker = some ad :=
        (hGrown.analysedOn_eq hSound.settled ticker).symm.trans hStored
      by_cases hTicker : call.ticker = ticker
      · exact hGrown.later (hLater hTicker ad hBefore hAge)
      · refine hGrown.later (h ad hBefore hAge ?_)
        simpa only [if_neg hTicker] using hSome
    rw [hCall]
    cases hReply : recompute compute (prices w'.repo call.ticker) with
    | upToDate ad => exact absurd hReply (recompute_ne_upToDate _ ad)
    | noData => exact hFailed _
    | error => exact hFailed _
    | report stats =>
        intro ad hStored hAge hSome
        change analysedOn (w'.run upper (.insertAnalysisSummary _ .done .done)).repo ticker = some ad
          at hStored
        change (if call.ticker = ticker then 0 else s.rowsSince) ≠ 0 at hSome
        change ∃ r ∈ prices w'.repo ticker, ad < r.date
        by_cases hTicker : call.ticker = ticker
        · rw [if_pos hTicker] at hSome
          exact absurd rfl hSome
        · rw [if_neg hTicker] at hSome
          have hOther : ticker ≠ (summaryRow call stats).ticker := Ne.symm hTicker
          rw [hGrown.settled.analysedOn_insert, if_neg hOther, hGrown.analysedOn_eq hSound.settled] at hStored
          exact hGrown.later (h ad hStored hAge hSome)

theorem Pending.insert_iff (h : Pending ticker s) (hSound : Sound upper ticker s)
    (df : List (Nat × Option P)) :
    Pending ticker (AnalysisFreshness.step upper compute ticker s (.insertOhlcv ticker df)) ↔
      Noticed ticker s (.insertOhlcv ticker df) := by
  have hGrown := hSound.settled.grown_insertOhlcv ticker df
  obtain ⟨-, hRows, -⟩ := hSound.settled.runInsertOhlcv ticker df
  have hStored := hGrown.analysedOn_eq hSound.settled ticker
  have hCount : (AnalysisFreshness.step upper compute ticker s (.insertOhlcv ticker df)).rowsSince =
      s.rowsSince + (added s.world ticker df).length := by
    rw [AnalysisFreshness.step, if_pos rfl]
  constructor
  · intro hAfter _ hNew ad hDay hAge
    have hSome : s.rowsSince + (added s.world ticker df).length ≠ 0 := by
      have hLength := List.length_pos_of_ne_nil hNew
      omega
    obtain ⟨r, hr, hLater⟩ := hAfter ad (hStored.trans hDay) hAge (hCount ▸ hSome)
    obtain ⟨hRow, hTicker⟩ := List.mem_filter.mp hr
    change r ∈ (World.run upper s.world _).repo.ohlcv.rows at hRow
    rw [hRows] at hRow
    rcases mem_insertOhlcv hRow with hOld | ⟨-, -, hFetched⟩
    · exact Or.inl ⟨r, List.mem_filter.mpr ⟨hOld, hTicker⟩, hLater⟩
    · exact Or.inr ⟨_, (mem_filtered.mp hFetched).2.1, hLater⟩
  · intro hNoticed ad hDay hAge hSome
    rw [hCount] at hSome
    have hBefore : analysedOn s.world.repo ticker = some ad := hStored.symm.trans hDay
    by_cases hNew : added s.world ticker df = []
    · rw [hNew, List.length_nil, Nat.add_zero] at hSome
      exact hGrown.later (h ad hBefore hAge hSome)
    · rcases hNoticed rfl hNew ad hBefore hAge with hOld | ⟨row, hRow, hLater⟩
      · exact hGrown.later hOld
      · refine later_iff.mpr ⟨row.1, ?_, hLater⟩
        change (ticker, row.1) ∈ storedKeys (World.run upper s.world _).repo.ohlcv.rows
        rw [hRows]
        exact fetched_stored rfl (by simp) hRow

theorem Pending.step_iff (h : Pending ticker s) (hSound : Sound upper ticker s)
    (hUpper : upper ticker = ticker) (e : Event P) :
    Pending ticker (AnalysisFreshness.step upper compute ticker s e) ↔ Noticed ticker s e := by
  cases e with
  | analyse call => exact iff_of_true (h.analyse hSound hUpper call) trivial
  | forget keys => exact iff_of_true h trivial
  | midnight =>
      refine iff_of_true (fun ad hStored hAge => h ad hStored ?_) trivial
      exact Nat.le_of_succ_le hAge
  | insertOhlcv other df =>
      by_cases hTicker : other = ticker
      · rw [hTicker]
        exact h.insert_iff hSound df
      · refine iff_of_true ?_ fun hSame => absurd hSame hTicker
        refine h.grown hSound (hSound.settled.grown_insertOhlcv other df) (Nat.le_refl _) ?_
        rw [AnalysisFreshness.step, if_neg hTicker, Nat.add_zero]

theorem sound_start (upper : String → String) (ticker : String) (today : Nat) :
    Sound upper ticker (start today : State P) :=
  ⟨⟨coherent_empty, rfl, rfl⟩, fun hStored => absurd rfl hStored⟩

/-- At every moment of a run a call of the tool is truthful, exactly when each insert that adds rows
while the gate may answer is noticed. -/
theorem upToDate_truthful_iff (compute : List (OhlcvRow P) → Option (List (String × String)))
    (hUpper : upper ticker = ticker) (today : Nat) (events : List (Event P)) :
    EveryState (step upper compute ticker) (Truthful upper compute ticker) (start today) events ↔
      EveryStep (step upper compute ticker) (Noticed ticker) (start today) events := by
  have hStart : Sound upper ticker (start today : State P) ∧ Pending ticker (start today : State P) :=
    ⟨sound_start upper ticker today, fun _ _ _ hSome => absurd rfl hSome⟩
  have hStep : ∀ (s : State P) (e : Event P), Sound upper ticker s ∧ Pending ticker s →
      Noticed ticker s e → Sound upper ticker (step upper compute ticker s e) ∧
        Pending ticker (step upper compute ticker s e) :=
    fun s e h hNoticed => ⟨h.1.step e, (h.2.step_iff h.1 hUpper e).mpr hNoticed⟩
  refine everyState_iff_everyStep hStep (fun s e h => ?_) hStart
    ((hStart.1.truthful_iff_pending hUpper).mpr hStart.2)
  exact ((h.1.step e).truthful_iff_pending hUpper).trans (h.2.step_iff h.1 hUpper e)

/-- A run ends in an untrue answer. -/
theorem not_truthful_of_last {s₀ : State P} {events : List (Event P)} (call : AnalyseCall P)
    (hTicker : call.ticker = ticker) {ad : Nat}
    (hReply : (analyseStockPrice upper compute (runFrom (step upper compute ticker) s₀ events).today
      (runFrom (step upper compute ticker) s₀ events).world call).1 = .upToDate ad)
    (hRows : (runFrom (step upper compute ticker) s₀ events).rowsSince ≠ 0) :
    ¬EveryState (step upper compute ticker) (Truthful upper compute ticker) s₀ events :=
  fun h => hRows (h.last.rowsSince_eq_zero hTicker hReply)

end Whole

/-! ## Two days of prices -/

/-- The statistics of the example: how many prices there are. -/
def countPrices (df : List (OhlcvRow Nat)) : Option (List (String × String)) :=
  some [("days", toString df.length)]

def analyseTcs (day : Nat) : Event Nat := .analyse ⟨"TCS.NS", day, day, [], "summary", 0⟩

/-- The price of a new day arrives after that day has begun, and is analysed. -/
def nextDay : List (Event Nat) :=
  [.insertOhlcv "TCS.NS" [(100, some 3500)], analyseTcs 100, .midnight,
    .insertOhlcv "TCS.NS" [(101, some 3510)], analyseTcs 101]

theorem truthful_nextDay :
    EveryState (step String.toUpper countPrices "TCS.NS")
      (Truthful String.toUpper countPrices "TCS.NS") (start 100) nextDay := by
  rw [upToDate_truthful_iff countPrices (by decide +kernel) 100 nextDay, nextDay]
  simp only [everyStep_cons, everyStep_nil, and_true, analyseTcs, Noticed, true_and]
  constructor
  · intro _ _ ad hStored
    cases hStored
  · intro _ _ ad hStored _
    have hDay : analysedOn (runFrom (step String.toUpper countPrices "TCS.NS") (start 100)
        (nextDay.take 3)).world.repo "TCS.NS" = some 100 := by decide +kernel
    obtain rfl : 100 = ad := Option.some.inj (hDay.symm.trans hStored)
    exact Or.inr ⟨(101, some 3510), List.mem_singleton_self _, by decide⟩

/-- The price of the day arrives after the analysis of that day. -/
def sameDay : List (Event Nat) :=
  [.insertOhlcv "TCS.NS" [(99, some 3490)], analyseTcs 100, .insertOhlcv "TCS.NS" [(100, some 3500)]]

theorem sameDay_called_upToDate :
    ¬EveryState (step String.toUpper countPrices "TCS.NS")
      (Truthful String.toUpper countPrices "TCS.NS") (start 100) sameDay := by
  have hReply : (analyseStockPrice String.toUpper countPrices
      (runFrom (step String.toUpper countPrices "TCS.NS") (start 100) sameDay).today
      (runFrom (step String.toUpper countPrices "TCS.NS") (start 100) sameDay).world
      ⟨"TCS.NS", 100, 100, [], "summary", 0⟩).1 = .upToDate 100 := by
    decide +kernel
  exact not_truthful_of_last _ rfl hReply (by decide +kernel)

end AsetPlatform.StockData.AnalysisFreshness
