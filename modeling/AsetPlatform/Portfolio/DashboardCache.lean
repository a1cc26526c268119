import AsetPlatform.Library.Dict
import AsetPlatform.Library.Floats
import AsetPlatform.Portfolio.Ledger
import Mathlib.Data.List.Dedup
import Mathlib.Data.List.Sort
import Mathlib.Data.Int.ConditionallyCompleteOrder

/-!
# The dashboard's portfolio endpoints

`auth/endpoints/ticker_routes.py` adds, edits and deletes transactions, and answers the portfolio and
the transactions of a ticker from the table. `backend/dashboard_routes.py` answers performance,
forecast, allocation and news from Redis, and computes and stores what it does not find there.

A write commits and then invalidates, one pattern after the other: those that
`_CACHE_INVALIDATION_MAP` of `stocks/repository.py` has for the table, and those of its route. Its
steps and the steps of the reads interleave. The quotes, the sectors and the news are those of one
moment, so that an answer depends on the transactions alone.
-/

set_option autoImplicit false

namespace AsetPlatform.Portfolio.Dashboard

open AsetPlatform.Library

universe u

/-! ## Holdings -/

/-- A character of the text of a UUID. -/
def isUuidChar (c : Char) : Bool := c.isDigit || (decide ('a' ≤ c) && decide (c ≤ 'f')) || c == '-'

/-- The id of a user, the text of a UUID. -/
structure UserId where
  text : String
  uuid : text.toList.all isUuidChar = true
  deriving DecidableEq

structure Holding where
  ticker : String
  currency : String
  market : String
  quantity : ℚ
  invested : ℚ
  deriving DecidableEq

def Holding.avgPrice (h : Holding) : ℚ := h.invested / h.quantity

/-- The key of `df.groupby(["ticker", "currency", "market"])`. -/
def groupKey (row : Row) : String × String × String := (row.ticker, row.currency, row.market)

/-- The order in which `groupby` puts its groups. -/
def keyLe (a b : String × String × String) : Prop :=
  a.1 < b.1 ∨ a.1 = b.1 ∧ (a.2.1 < b.2.1 ∨ a.2.1 = b.2.1 ∧ a.2.2 ≤ b.2.2)

instance keyLe.decidable : DecidableRel keyLe := fun _ _ => inferInstanceAs (Decidable (_ ∨ _))

/-- `get_portfolio_transactions`. -/
def transactionsOf (user : UserId) (rows : List Row) : List Row :=
  rows.filter fun row => row.userId = user.text

/-- `get_portfolio_holdings`. -/
def holdingsOf (user : UserId) (rows : List Row) : List Holding :=
  let df := (transactionsOf user rows).filter fun row => row.side = "BUY"
  let grouped := ((df.map groupKey).dedup.insertionSort keyLe).map fun key =>
    let group := df.filter fun row => groupKey row = key
    { ticker := key.1
      currency := key.2.1
      market := key.2.2
      quantity := (group.map (·.quantity)).sum
      invested := (group.map fun row => row.quantity * row.price).sum : Holding }
  grouped.filter fun h => 0 < h.quantity

/-- `detect_market`, without a market of the registry. -/
def detectMarket (ticker : String) : String :=
  if ".NS".toList.isSuffixOf ticker.toList || ".BO".toList.isSuffixOf ticker.toList then "india"
  else if ticker ∈ ["^NSEI", "^BSESN", "^INDIAVIX"] then "india"
  else "us"

def detectCurrency (market : String) : String := if market = "india" then "INR" else "USD"

/-! ## Allocation -/

structure AllocationItem where
  sector : String
  value : ℚ
  weightPct : ℚ
  stockCount : Nat
  tickers : List String
  deriving DecidableEq

structure AllocationResponse where
  sectors : List AllocationItem := []
  totalValue : ℚ := 0
  currency : String := "INR"
  deriving DecidableEq

/-- What is held in each sector: the value and the tickers, sectors in order of appearance. -/
def sectorData (sector : String → String) (close : String → ℚ) (held : List Holding) :
    Dict String (ℚ × List String) :=
  held.foldl
    (fun data h =>
      let (value, tickers) := (data.get? (sector h.ticker)).getD (0, [])
      data.set (sector h.ticker) (value + h.quantity * close h.ticker, tickers ++ [h.ticker]))
    .empty

/-- The answer of `get_portfolio_allocation` about holdings of its market. `sector` is the label of a
ticker with its fallbacks, `close` the last close, 0 without one. -/
def allocationOf (sector : String → String) (close : String → ℚ) (held : List Holding) :
    AllocationResponse :=
  let data := (sectorData sector close held).entries
  let total := (held.map fun h => h.quantity * close h.ticker).sum
  { sectors := (data.insertionSort fun a b => b.2.1 ≤ a.2.1).map fun (label, value, tickers) =>
      { sector := label
        value := round2 value
        weightPct := round2 (if 0 < total then value / total * 100 else 0)
        stockCount := tickers.length
        tickers := tickers }
    totalValue := round2 total
    currency := detectCurrency ((held.head?.map fun h => detectMarket h.ticker).getD "") }

/-! ## Requests -/

/-- The endpoints that read the portfolio. A ticker is in upper case, without surrounding space. -/
inductive Request where
  | portfolio
  | transactions (ticker : String)
  | performance (period currency : String)
  | forecast (horizon : Int) (currency : String)
  | allocation (market : String)
  | news (market : String)
  deriving DecidableEq

/-- `f"cache:portfolio:{kind}:{user_id}:{rest}"`. -/
def portfolioKey (kind : String) (user : UserId) (rest : String) : String :=
  "cache:portfolio:" ++ kind ++ ":" ++ user.text ++ ":" ++ rest

namespace Request

/-- The cache key of a request; the portfolio and the transactions of a ticker have none. -/
def key (user : UserId) : Request → Option String
  | portfolio => none
  | transactions _ => none
  | performance period currency => some (portfolioKey "perf" user (currency ++ ":" ++ period))
  | forecast horizon currency =>
      some (portfolioKey "forecast" user (currency ++ ":" ++ toString horizon))
  | allocation market => some (portfolioKey "alloc" user market)
  | news market => some (portfolioKey "news" user market)

/-- How often the request scans the table: `get_portfolio` reads the holdings, then the transactions. -/
def scans : Request → Nat
  | portfolio => 2
  | _ => 1

end Request

/-- What the endpoints make of the portfolio and of the data of other tables. -/
structure Views (β : Type u) where
  portfolio : List Holding → List Row → β
  transactions : String → List Row → β
  performance : String → String → List Row → β
  forecast : Int → String → List Holding → β
  sector : String → String
  close : String → ℚ
  news : List Holding → β
  /-- `PortfolioNewsResponse()`. -/
  noNews : β

/-- The body of an answer. -/
inductive Body (β : Type u) where
  | allocation (response : AllocationResponse)
  | view (body : β)
  deriving DecidableEq

/-- A computed body, and whether the endpoint stores it. -/
structure Answer (β : Type u) where
  body : Body β
  stored : Bool

/-- What an endpoint computes from its scans of the table. -/
def compute {β : Type u} (views : Views β) (user : UserId) (scanned : List (List Row)) :
    Request → Answer β
  | .portfolio =>
      let rows := scanned.headD []
      let again := scanned.tail.headD []
      ⟨.view (views.portfolio (holdingsOf user rows) (transactionsOf user again)), false⟩
  | .transactions ticker =>
      ⟨.view (views.transactions ticker (transactionsOf user (scanned.headD []))), false⟩
  | .performance period currency =>
      ⟨.view (views.performance period currency (transactionsOf user (scanned.headD []))), true⟩
  | .forecast horizon currency =>
      ⟨.view (views.forecast horizon currency (holdingsOf user (scanned.headD []))), true⟩
  | .allocation market =>
      let held := (holdingsOf user (scanned.headD [])).filter fun h => detectMarket h.ticker = market
      -- without holdings of the market the endpoint returns before it stores
      if held = [] then ⟨.allocation {}, false⟩
      else ⟨.allocation (allocationOf views.sector views.close held), true⟩
  | .news market =>
      let held := (holdingsOf user (scanned.headD [])).filter fun h => detectMarket h.ticker = market
      if held = [] then ⟨.view views.noNews, false⟩ else ⟨.view (views.news held), true⟩

/-! ## Invalidation -/

/-- A key pattern: a text with a star at its end, or without one. -/
inductive Pattern where
  | startsWith (text : String)
  | exactly (text : String)
  deriving DecidableEq

def Pattern.covers (key : String) : Pattern → Bool
  | startsWith text => text.toList.isPrefixOf key.toList
  | exactly text => key = text

/-- `_CACHE_INVALIDATION_MAP`. -/
def cacheInvalidationMap : List (String × List Pattern) :=
  [("stocks.ohlcv",
      [.startsWith "cache:chart:ohlcv:", .startsWith "cache:dash:watchlist:",
        .startsWith "cache:dash:home:", .startsWith "cache:dash:compare:",
        .startsWith "cache:insights:screener:", .startsWith "cache:insights:correlation:"]),
    ("stocks.technical_indicators",
      [.startsWith "cache:chart:indicators:", .startsWith "cache:dash:analysis:",
        .startsWith "cache:dash:home:", .startsWith "cache:insights:screener:"]),
    ("stocks.analysis_summary",
      [.startsWith "cache:dash:analysis:", .startsWith "cache:dash:home:",
        .startsWith "cache:insights:screener:", .startsWith "cache:insights:risk:",
        .startsWith "cache:insights:sectors:"]),
    ("stocks.forecast_runs",
      [.startsWith "cache:dash:forecasts:", .startsWith "cache:dash:home:",
        .startsWith "cache:chart:forecast:", .startsWith "cache:insights:targets:"]),
    ("stocks.forecasts", [.startsWith "cache:chart:forecast:"]),
    ("stocks.company_info",
      [.startsWith "cache:dash:watchlist:", .exactly "cache:dash:registry",
        .startsWith "cache:insights:screener:", .startsWith "cache:insights:targets:",
        .startsWith "cache:insights:dividends:", .startsWith "cache:insights:risk:",
        .startsWith "cache:insights:sectors:", .startsWith "cache:insights:quarterly:"]),
    ("stocks.dividends", [.startsWith "cache:insights:dividends:"]),
    ("stocks.quarterly_results", [.startsWith "cache:insights:quarterly:"]),
    ("stocks.llm_usage",
      [.startsWith "cache:dash:llm-usage:", .startsWith "cache:dash:home:",
        .exactly "cache:admin:metrics"]),
    ("stocks.registry", [.exactly "cache:dash:registry"])]

/-- The patterns `_invalidate_cache` goes through for a table. -/
def tablePatterns (identifier : String) : List Pattern :=
  (cacheInvalidationMap.lookup identifier).getD []

/-- A request to change the portfolio: the fields of its body, and the id and the time an addition
takes. -/
inductive Submission where
  | add (transactionId ticker : String) (quantity price : ℚ) (tradeDate : Int) (notes : String)
      (now : Int)
  | edit (transactionId : String) (updates : Updates)
  | delete (transactionId : String)

namespace Submission

/-- The call of the repository. -/
def call (user : UserId) : Submission → LedgerCall
  | add transactionId ticker quantity price tradeDate notes now =>
      .add
        { transactionId := transactionId
          userId := user.text
          ticker := ticker
          side := "BUY"
          quantity := quantity
          price := price
          currency := some (detectCurrency (detectMarket ticker))
          market := some (detectMarket ticker)
          tradeDate := some tradeDate
          fees := some 0
          notes := some notes }
        now
  | edit transactionId updates => .update transactionId user.text updates
  | delete transactionId => .delete transactionId user.text

/-- What the route invalidates when the call has succeeded. -/
def routePatterns (user : UserId) : Submission → List Pattern
  | add .. =>
      [.exactly ("cache:portfolio:" ++ user.text), .startsWith (portfolioKey "perf" user ""),
        .startsWith (portfolioKey "forecast" user "")]
  | edit .. =>
      [.startsWith (portfolioKey "perf" user ""), .startsWith (portfolioKey "forecast" user "")]
  | delete _ =>
      [.startsWith (portfolioKey "perf" user ""), .startsWith (portfolioKey "forecast" user "")]

/-- All a write invalidates after its commit. -/
def patterns (user : UserId) (s : Submission) : List Pattern :=
  tablePatterns "stocks.portfolio_transactions" ++ s.routePatterns user

end Submission

/-! ## Steps -/

inductive WritePhase where
  /-- About to read the table. -/
  | reading
  | appending
  /-- About to overwrite the table with what was made of the rows of a version. -/
  | overwriting (version : Nat)
  /-- Committed as a version, with patterns still to invalidate. -/
  | invalidating (version : Nat) (patterns : List Pattern)
  | returned
  /-- Answered 404 or 422, or raised. -/
  | failed
  deriving DecidableEq

structure Write where
  user : UserId
  submission : Submission
  phase : WritePhase

inductive ReadPhase (β : Type u) where
  | lookingUp
  /-- About to scan the table, after scans of the versions `seen`. -/
  | scanning (seen : List Nat)
  /-- About to store what was computed from the versions `seen`. -/
  | storing (seen : List Nat) (body : Body β)
  | answered (body : Body β)
  deriving DecidableEq

/-- The versions a read has scanned and not yet stored an answer about. -/
def ReadPhase.seen {β : Type u} : ReadPhase β → List Nat
  | scanning seen => seen
  | storing seen _ => seen
  | _ => []

/-- A read; `since` is the version of the latest write of the user that had returned when it
started. -/
structure Read (β : Type u) where
  user : UserId
  request : Request
  since : Nat
  phase : ReadPhase β
  deriving DecidableEq

/-- The versions of the table, the cache, the reads and the writes, and the version of the latest
write of each user that has returned. -/
structure World (β : Type u) where
  versions : List (List Row)
  cache : Dict String (Body β)
  reads : List (Read β)
  writes : List Write
  returned : UserId → Nat

inductive Event where
  | beginWrite (user : UserId) (submission : Submission)
  | readTable (k : Nat)
  /-- The commit, which takes effect or raises in the end. -/
  | commit (k : Nat) (ok : Bool)
  /-- `cache.invalidate` of the next pattern. -/
  | invalidate (k : Nat)
  | finish (k : Nat)
  | beginRead (user : UserId) (request : Request)
  | lookUp (k : Nat)
  | scan (k : Nat)
  | store (k : Nat)
  /-- An entry reaches the end of its time, or is evicted. -/
  | expire (key : String)

namespace World

variable {β : Type u} (views : Views β) (w : World β)

/-- An empty cache in front of a table. -/
def start (rows : List Row) : World β := ⟨[rows], .empty, [], [], fun _ => 0⟩

def latest : Nat := w.versions.length - 1

def moveWrite (k : Nat) (x : Write) (phase : WritePhase) : World β :=
  { w with writes := w.writes.set k { x with phase := phase } }

def moveRead (k : Nat) (r : Read β) (phase : ReadPhase β) : World β :=
  { w with reads := w.reads.set k { r with phase := phase } }

def rowsAt (versions : List (List Row)) (version : Nat) : List Row := versions[version]?.getD []

/-- The phase in which a write starts; an edit without fields is refused. -/
def firstPhase : Submission → WritePhase
  | .add .. => .appending
  | .edit _ updates =>
      if updates.price = none ∧ updates.quantity = none ∧ updates.tradeDate = none then .failed
      else .reading
  | .delete _ => .reading

/-- The end of a commit, of the rows it leaves. -/
def push (k : Nat) (x : Write) (rows : List Row) : World β :=
  { w with versions := w.versions ++ [rows] }.moveWrite k x
    (.invalidating w.versions.length (x.submission.patterns x.user))

def afterScan (r : Read β) (seen : List Nat) : ReadPhase β :=
  if seen.length < r.request.scans then .scanning seen
  else
    let answer := compute views r.user (seen.map (rowsAt w.versions)) r.request
    if answer.stored then .storing seen answer.body else .answered answer.body

def step : Event → World β
  | .beginWrite user submission =>
      { w with writes := w.writes ++ [⟨user, submission, firstPhase submission⟩] }
  | .readTable k =>
      match w.writes[k]? with
      | some ⟨user, submission, .reading⟩ =>
          w.moveWrite k ⟨user, submission, .reading⟩
            (if (submission.call user).finds (rowsAt w.versions w.latest) then .overwriting w.latest
              else .failed)
      | _ => w
  | .commit k ok =>
      match w.writes[k]? with
      | some ⟨user, submission, .appending⟩ =>
          if ok then
            w.push k ⟨user, submission, .appending⟩
              ((submission.call user).effect (rowsAt w.versions w.latest))
          else w.moveWrite k ⟨user, submission, .appending⟩ .failed
      | some ⟨user, submission, .overwriting version⟩ =>
          if ok then
            w.push k ⟨user, submission, .overwriting version⟩
              ((submission.call user).effect (rowsAt w.versions version))
          else w.moveWrite k ⟨user, submission, .overwriting version⟩ .failed
      | _ => w
  | .invalidate k =>
      match w.writes[k]? with
      | some ⟨user, submission, .invalidating version (pattern :: rest)⟩ =>
          { w with cache := w.cache.filter fun key _ => !pattern.covers key }.moveWrite k
            ⟨user, submission, .invalidating version (pattern :: rest)⟩
            (.invalidating version rest)
      | _ => w
  | .finish k =>
      match w.writes[k]? with
      | some ⟨user, submission, .invalidating version []⟩ =>
          { w with
            returned := fun other =>
              if other = user then max (w.returned user) version
              else w.returned other }.moveWrite k
            ⟨user, submission, .invalidating version []⟩ .returned
      | _ => w
  | .beginRead user request =>
      let phase := if (request.key user).isSome then .lookingUp else .scanning []
      { w with reads := w.reads ++ [⟨user, request, w.returned user, phase⟩] }
  | .lookUp k =>
      match w.reads[k]? with
      | some ⟨user, request, since, .lookingUp⟩ =>
          match (request.key user).bind w.cache.get? with
          | some hit => w.moveRead k ⟨user, request, since, .lookingUp⟩ (.answered hit)
          | none => w.moveRead k ⟨user, request, since, .lookingUp⟩ (.scanning [])
      | _ => w
  | .scan k =>
      match w.reads[k]? with
      | some ⟨user, request, since, .scanning seen⟩ =>
          w.moveRead k ⟨user, request, since, .scanning seen⟩
            (w.afterScan views ⟨user, request, since, .scanning seen⟩ (seen ++ [w.latest]))
      | _ => w
  | .store k =>
      match w.reads[k]? with
      | some ⟨user, request, since, .storing seen body⟩ =>
          match request.key user with
          | some key =>
              { w with cache := w.cache.set key body }.moveRead k
                ⟨user, request, since, .storing seen body⟩ (.answered body)
          | none => w
      | _ => w
  | .expire key => { w with cache := w.cache.erase key }

end World

end AsetPlatform.Portfolio.Dashboard
