import AsetPlatform.ScreenQL.Generate

/-!
# The ScreenQL route

`POST /screen`: the tickers a user may see, the cache in front of the route, and `runScreen`, which
answers from the cache or parses the query, generates the two statements, has the engine execute
them and cleans the rows. The reads of the watchlist, the holdings and the registry are those of
`Sources`; a table of the warehouse is given by the rows that its definition in the WITH clause
selects from it.
-/

set_option autoImplicit false

namespace AsetPlatform.ScreenQL

open AsetPlatform.Library AsetPlatform.Library.Sql

/-! ## The scope of a user -/

/-- The authenticated user. Ids are UUIDs, so they hold no colon. -/
structure UserContext where
  userId : List Char
  role : String
  uuid : ':' ∉ userId

/-- The entry of a ticker in the registry. Its type may be missing, or there and null. -/
structure TickerMeta where
  tickerType : Option (Option String)
  deriving DecidableEq, Repr

/-- What the route reads besides its cache. The name lookup in `stock_master` may fail (`none`). -/
structure Sources where
  registry : Dict String TickerMeta
  watchlist : List Char → List String
  holdings : List Char → List String
  warehouse : String → Option (List Row)
  stockMaster : Option (String → Option (Option String))

/-- `TickerScope`. -/
inductive TickerScope where
  | discovery | watchlist | portfolio
  deriving DecidableEq, Repr

/-- `_DISCOVERY_ROLES`. -/
def discoveryRoles : List String := ["pro", "superuser"]

/-- `_ANALYZABLE_TICKER_TYPES`. -/
def analyzableTickerTypes : List String := ["stock", "etf"]

/-- `_portfolio_tickers`. -/
def portfolioTickers (src : Sources) (userId : List Char) : List String :=
  (src.holdings userId).eraseDups

/-- `_full_universe`. -/
def fullUniverse (src : Sources) : List String :=
  (src.registry.filter fun _ m =>
    -- a missing type counts as a stock, a null one does not
    match m.tickerType.getD (some "stock") with
    | some type => type ∈ analyzableTickerTypes
    | none => false).keys

section Tickers

variable (T : CharTables)

/-- The inner loop of `_dedup`: the keys seen so far, and the tickers kept. -/
def dedupFrom : List (List Char) → List String → List String
  | _, [] => []
  | seen, t :: ts =>
      let key := T.upper t.toList
      if seen.contains key then dedupFrom seen ts else t :: dedupFrom (key :: seen) ts

/-- `_dedup`. -/
def dedup (lists : List (List String)) : List String := dedupFrom T [] lists.flatten

/-- `_scoped_tickers`. -/
def scopedTickers (src : Sources) (user : UserContext) (scope : TickerScope) : List String :=
  let watchlist := src.watchlist user.userId
  let portfolio := portfolioTickers src user.userId
  match scope with
  | .portfolio => portfolio
  | .watchlist => dedup T [watchlist, portfolio]
  | .discovery =>
      if user.role ∈ discoveryRoles then dedup T [fullUniverse src, watchlist, portfolio]
      else dedup T [watchlist, portfolio]

end Tickers

/-! ## Requests and responses -/

/-- `ScreenQLRequest`. -/
structure ScreenQLRequest where
  query : List Char
  page : Nat := 1
  pageSize : Nat := 25
  sortBy : Option String := none
  sortDir : String := "desc"
  displayColumns : List String := []
  query_length : 1 ≤ query.length ∧ query.length ≤ 2000
  page_pos : 1 ≤ page
  pageSize_range : 1 ≤ pageSize ∧ pageSize ≤ 100

/-- `ScreenQLResponse`. -/
structure ScreenQLResponse where
  rows : List Record
  total : Nat
  page : Nat
  pageSize : Nat
  columnsUsed : List String
  excludedNullCount : Nat
  deriving DecidableEq

inductive Outcome where
  | ok (response : ScreenQLResponse)
  | unprocessable (detail : String)
  | serverError
  deriving DecidableEq

/-! ## Executing the statements -/

/-- `alias_to_iceberg`. -/
def aliasToIceberg : Alias → Option String
  | .ci => some "stocks.company_info"
  | .as_ => some "stocks.analysis_summary"
  | .ps => some "stocks.piotroski_scores"
  | .fr => some "stocks.forecast_runs"
  | .ss => some "stocks.sentiment_scores"
  | .qr => some "stocks.quarterly_results"
  | .st => none

/-- The tables a connection has views of: those asked for that exist. -/
def views (src : Sources) (tables : List String) : Database Alias := fun a =>
  match aliasToIceberg a with
  | none => none
  | some table => if table ∈ tables then src.warehouse table else none

/-- `count_rows[0]["cnt"] if count_rows else 0`. -/
def totalOf : List Record → Option Nat
  | [] => some 0
  | r :: _ => ((r.lookup "cnt").bind id).bind Value.toCount?

/-- The database the statements of a query run over. -/
def GeneratedQuery.database (gen : GeneratedQuery) (src : Sources) : Database Alias :=
  views src (gen.tablesUsed.filterMap aliasToIceberg)

section Route

variable (engine : Engine Alias)

/-- The page and the total; any exception leaves no rows and the total 0. -/
def executeQuery (src : Sources) (gen : GeneratedQuery) : List Record × Nat :=
  let db := gen.database src
  let result := do
    let rows ← engine.execute db gen.sql gen.params
    let countRows ← engine.execute db gen.countSql gen.countParams
    let total ← totalOf countRows
    return (rows, total)
  result.getD ([], 0)

/-- Rounding to the nearest integer, halves to the even one. -/
def roundHalfEven (q : ℚ) : Int :=
  let below := q.floor
  let rest := q - below
  if rest < 1 / 2 then below
  else if 1 / 2 < rest then below + 1
  else if below % 2 = 0 then below else below + 1

/-- NaN becomes null, and other numbers are rounded to four decimals. -/
def sanitizeValue : Option Value → Option Value
  | some (.number none) => none
  | some (.number (some q)) => some (.number (some ((roundHalfEven (q * 10000) : ℚ) / 10000)))
  | v => v

def sanitizeRow (r : Record) : Record :=
  (r.filter fun c => c.1 ≠ "rn").map fun c => (c.1, sanitizeValue c.2)

/-- A cell that is null or the empty text. -/
def isBlank (v : Option Value) : Bool := v = none ∨ v = some (.text "")

/-- The name of `stock_master` for a row with a ticker and a blank company name. -/
def patchCompanyName (stockMaster : Option (String → Option (Option String))) (r : Record) :
    Record :=
  if isBlank ((r.lookup "company_name").bind id) then
    match (r.lookup "ticker").bind id, stockMaster with
    | some (.text ticker), some names =>
        if ticker = "" then r
        else
          match names ticker with
          | none => r
          | some name =>
              r.map fun c => if c.1 = "company_name" then (c.1, name.map Value.text) else c
    | _, _ => r
  else r

variable (T : CharTables) (floatText : ℚ → String)

/-- The arguments of `generate_sql` for a request. An empty list of tickers becomes no filter. -/
def sqlArgs (tickers : List String) (req : ScreenQLRequest) : SqlArgs where
  page := req.page
  pageSize := req.pageSize
  sortBy := req.sortBy
  sortDir := req.sortDir
  tickerFilter := if tickers = [] then none else some tickers
  displayColumns := req.displayColumns

/-- `run_screen` after the cache. -/
def computeScreen (src : Sources) (user : UserContext) (req : ScreenQLRequest) : Outcome :=
  match parseQuery T req.query with
  | .error (.error e) => .unprocessable (e.message floatText)
  | .error _ => .serverError
  | .ok ast =>
      let tickers := scopedTickers T src user .discovery
      let gen := generateSql ast (sqlArgs tickers req)
      let result := executeQuery engine src gen
      let clean := (result.1.map sanitizeRow).map (patchCompanyName src.stockMaster)
      .ok
        { rows := clean
          total := result.2
          page := req.page
          pageSize := req.pageSize
          columnsUsed := gen.columnsUsed
          excludedNullCount := result.2 - clean.length }

end Route

/-! ## The cache -/

/-- `TTL_STABLE`. -/
def ttlStable : Nat := 300

structure CacheEntry where
  response : ScreenQLResponse
  expires : Nat

/-- What the answers depend on: the sources, the cache, and the clock in seconds. -/
structure Screener where
  sources : Sources
  cache : Dict (List Char) CacheEntry
  now : Nat

/-- The parts of the program that are not under its control: character tables, the text of floats,
the first 16 digits of SHA-256, and the SQL engine. -/
structure Platform where
  chars : CharTables
  floatText : ℚ → String
  digest : List Char → List Char
  engine : Engine Alias

/-- The text whose digest names a request in the cache. -/
def cacheKeyText (user : UserContext) (req : ScreenQLRequest) : List Char :=
  let dcols := ",".intercalate (req.displayColumns.mergeSort (· ≤ ·))
  req.query ++ ':' :: (toString req.page).toList ++ ':' :: (toString req.pageSize).toList ++
    ':' :: (req.sortBy.getD "None").toList ++ ':' :: req.sortDir.toList ++ ':' :: dcols.toList ++
    ':' :: user.userId

section Cache

variable (P : Platform)

def cacheKey (user : UserContext) (req : ScreenQLRequest) : List Char :=
  "cache:insights:screenql:".toList ++ P.digest (cacheKeyText user req)

/-- `cache.get`, when the cache can be read. -/
def Screener.cached (s : Screener) (key : List Char) (readable : Bool) :
    Option ScreenQLResponse :=
  if readable then
    ((s.cache.get? key).filter fun e => s.now < e.expires).map (·.response)
  else none

/-- `cache.set`, when the cache can be written. -/
def Screener.store (s : Screener) (key : List Char) (r : ScreenQLResponse) (writable : Bool) :
    Screener :=
  if writable then { s with cache := s.cache.set key ⟨r, s.now + ttlStable⟩ } else s

/-- `run_screen`. -/
def runScreen (s : Screener) (user : UserContext) (req : ScreenQLRequest)
    (readable writable : Bool) : Outcome × Screener :=
  let key := cacheKey P user req
  match s.cached key readable with
  | some hit => (.ok hit, s)
  | none =>
      match computeScreen P.engine P.chars P.floatText s.sources user req with
      | .ok r => (.ok r, s.store key r writable)
      | outcome => (outcome, s)

end Cache

end AsetPlatform.ScreenQL
