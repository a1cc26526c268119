import AsetPlatform.Library.FilledColumns
import AsetPlatform.Library.FloatTexts
import AsetPlatform.Library.Rows
import AsetPlatform.StockData.OhlcvTable

/-!
# Market and macro regressors

`_load_regressors_from_iceberg` and `_merge_macro_regressors` of `backend/tools/_forecast_shared.py`,
with the two caches of a scope. The rows of the price table are given in the order in which a query
finds them; `get_ohlcv` sorts them by day, the bulk query does not. A join sorts its rows, so that a
frame is a set of days and the columns on them, NaN where a row has no value.

The frame of the live fetch and the sentiment scores of the ticker are part of a call, as are a bulk
query that fails and cache entries that have expired.
-/

set_option autoImplicit false

namespace AsetPlatform.Forecast.Regressors

open AsetPlatform.Library StockData

/-! ## Frames -/

abbrev Column := Nat → PyFloat

structure Frame where
  ds : Finset Nat
  columns : List (String × Column)

/-- `DataFrame({"ds": df["date"], name: df["close"]})`. -/
structure Series where
  days : Finset Nat
  value : Column

/-- A stored close, NaN where it is null. -/
def toFloat : Option ℚ → PyFloat
  | some x => .number x
  | none => .nan

def days (df : List (OhlcvRow ℚ)) : Finset Nat := (df.map OhlcvRow.date).toFinset

/-- The closes by their days. -/
def closes (df : List (OhlcvRow ℚ)) : Column := fun d =>
  ((df.find? (·.date = d)).map fun r => toFloat r.close).getD .nan

/-- The part of a symbol, unless it has no rows. -/
def part (df : List (OhlcvRow ℚ)) : Option Series :=
  if df = [] then none else some ⟨days df, closes df⟩

/-- `pct_change() * 100`, row by row; `prev` is the close above. -/
def pctChange (prev : PyFloat) : List (OhlcvRow ℚ) → List (Nat × PyFloat)
  | [] => []
  | r :: rs =>
      let close := toFloat r.close
      (r.date, .mul (.sub (.div close prev) (.number 1)) (.number 100)) :: pctChange close rs

/-- The returns by their days. -/
def indexReturns (df : List (OhlcvRow ℚ)) : Column := fun d =>
  ((pctChange .nan df).lookup d).getD .nan

/-- VIX and index returns. -/
def marketFrame (vix idx : List (OhlcvRow ℚ)) : Frame :=
  let ds := days vix ∪ days idx
  ⟨ds, [("vix", fillBoth .nan ds (closes vix)),
    ("index_return", ffillOr .nan (.number 0) ds (indexReturns idx))]⟩

/-- The join with the sentiment scores of the ticker, one for a day. -/
def withSentiment (sentiment : List (Nat × Option ℚ)) (fr : Frame) : Frame :=
  if sentiment = [] then fr
  else
    let ds := fr.ds ∪ (sentiment.map Prod.fst).toFinset
    ⟨ds, fr.columns ++ [("sentiment", ffillOr .nan (.number 0) ds fun d =>
      toFloat (sentiment.lookup d).join)]⟩

/-! ## Macro columns -/

/-- `_macro_syms` -/
def macroSyms : List (String × String) :=
  [("^TNX", "treasury_10y"), ("CL=F", "oil_price"), ("DX-Y.NYB", "dollar_index")]

section Macro

variable (read : String → Option Series)

/-- The macro series that are there, under the names of their columns. -/
def macroParts : List (String × Series) :=
  macroSyms.filterMap fun sym => (read sym.1).map fun s => (sym.2, s)

/-- An outer join with a series, its column as `fill` leaves it on the joined rows. -/
def Frame.join (fill : Finset Nat → Column → Column) (fr : Frame) (p : String × Series) : Frame :=
  ⟨fr.ds ∪ p.2.days, fr.columns ++ [(p.1, fill (fr.ds ∪ p.2.days) p.2.value)]⟩

/-- The join with the T-bill, from which only the spread is kept. -/
def withSpread (fr : Frame) : Frame :=
  match fr.columns.lookup "treasury_10y", read "^IRX" with
  | some treasury, some irx =>
      let ds := fr.ds ∪ irx.days
      ⟨ds, fr.columns ++ [("yield_spread", fun d =>
        (treasury d).sub (fillBoth .nan ds irx.value d))]⟩
  | _, _ => fr

/-- `macro_df`, as it is cached: the series are joined as they are, and filled in the end. -/
def macroFrame : Option Frame :=
  if macroParts read = [] then none
  else
    let fr := withSpread read ((macroParts read).foldl (Frame.join fun _ f => f) ⟨∅, []⟩)
    some ⟨fr.ds, fr.columns.map fun c => (c.1, fillBoth .nan fr.ds c.2)⟩

/-- The columns of a cached frame, joined one by one. -/
def mergeCached (fr macroDf : Frame) : Frame :=
  macroDf.columns.foldl (fun fr c => fr.join (fillBoth .nan) (c.1, ⟨macroDf.ds, c.2⟩)) fr

/-- The macro columns without a cache: each series is filled on the rows that are joined by then. -/
def mergeBuilt (fr : Frame) : Frame :=
  withSpread read ((macroParts read).foldl (Frame.join (fillBoth .nan)) fr)

end Macro

/-! ## Calls -/

inductive Scope where
  | india
  | us
  deriving DecidableEq

def Scope.vixSym : Scope → String
  | india => "^INDIAVIX"
  | us => "^VIX"

def Scope.idxSym : Scope → String
  | india => "^NSEI"
  | us => "^GSPC"

/-- The entries of a scope in `_MARKET_CACHE` and `_MACRO_CACHE`. -/
structure Caches where
  market : Option (List (OhlcvRow ℚ) × List (OhlcvRow ℚ))
  macroDf : Option Frame

/-- A call with what it meets; `rows` are the stored rows in the order of its queries. -/
structure Call where
  rows : List (OhlcvRow ℚ)
  bulkFails : Bool
  marketExpired : Bool
  macroExpired : Bool
  sentiment : List (Nat × Option ℚ)
  live : Option Frame

/-- The rows of a symbol, as the bulk query has them. -/
def bulkRows (rows : List (OhlcvRow ℚ)) (sym : String) : List (OhlcvRow ℚ) :=
  rows.filter (·.ticker = sym)

/-- `get_ohlcv` -/
def getOhlcv (rows : List (OhlcvRow ℚ)) (sym : String) : List (OhlcvRow ℚ) :=
  (bulkRows rows sym).mergeSort fun r r' => r.date ≤ r'.date

/-- `vix_df` and `idx_df`. -/
def loadMarket (scope : Scope) (c : Caches) (call : Call) :
    (List (OhlcvRow ℚ) × List (OhlcvRow ℚ)) × Caches :=
  match if call.marketExpired then none else c.market with
  | some frames => (frames, c)
  | none =>
      let read := if call.bulkFails then getOhlcv call.rows else bulkRows call.rows
      let vix := read scope.vixSym
      let idx := read scope.idxSym
      -- The bulk query fills the macro cache as well.
      let macroDf := if call.bulkFails then c.macroDf
        else (macroFrame fun sym => part (bulkRows call.rows sym)).or c.macroDf
      ((vix, idx), ⟨if vix = [] ∨ idx = [] then none else some (vix, idx), macroDf⟩)

/-- `_merge_macro_regressors` -/
def mergeMacroRegressors (c : Caches) (call : Call) (fr : Frame) : Frame × Caches :=
  match if call.macroExpired then none else c.macroDf with
  | some macroDf => (mergeCached fr macroDf, c)
  | none =>
      let read := fun sym => part (getOhlcv call.rows sym)
      (mergeBuilt read fr, { c with macroDf := (macroFrame read).or c.macroDf })

/-- `_load_regressors_from_iceberg` -/
def loadRegressors (scope : Scope) (c : Caches) (call : Call) : Option Frame × Caches :=
  match loadMarket scope c call with
  | ((vix, idx), c) =>
      if vix = [] ∨ idx = [] then (call.live.map (withSentiment call.sentiment), c)
      else
        let (fr, c) := mergeMacroRegressors c call (withSentiment call.sentiment (marketFrame vix idx))
        (some fr, c)

/-- The caches before any call. -/
def cold : Caches := ⟨none, none⟩

/-- The caches after some calls, for whichever tickers of the scope. -/
def cachesAfter (scope : Scope) (calls : List Call) : Caches :=
  calls.foldl (fun c call => (loadRegressors scope c call).2) cold

/-- The regressor columns of the training frame: `_train_prophet_model` joins them to its days, and
fills them there. -/
def trainColumns (trainDays : Finset Nat) (fr : Option Frame) : Option (List (String × Column)) :=
  fr.map fun fr => fr.columns.map fun c => (c.1, fillBoth .nan trainDays (onRows .nan fr.ds c.2))

end AsetPlatform.Forecast.Regressors
