import AsetPlatform.Ingestion.Cursor
import AsetPlatform.Ingestion.Sources
import AsetPlatform.Library.Run
import AsetPlatform.StockData.InsertOhlcv

/-!
# Ingestion of fundamentals

`run_fundamentals` of `backend/pipeline/jobs/fundamentals.py`. The stocks of a batch are tasks that
run side by side: only their fetches exclude each other. Each task stands before its next write, and
moves the cursor to its own stock at the end, whatever the others are doing. The update of
`stock_master` may fail without a word; an exception ends its task and no other.
-/

set_option autoImplicit false

namespace AsetPlatform.Ingestion.Fundamentals

open AsetPlatform.Library AsetPlatform.StockData

/-! ## What the source brings -/

/-- The fields of `.info` that the job reads itself. -/
structure Info where
  sector : Option String
  industry : Option String
  marketCap : Option Int
  market_cap : Option Int
  deriving DecidableEq

/-- The columns of `stock_master` that the job writes. -/
structure Profile where
  sector : Option String
  industry : Option String
  marketCap : Option Int
  deriving DecidableEq

/-- Company info and the days of the dividends. -/
structure Attempt where
  info : Info
  dividends : List Nat
  deriving DecidableEq

/-- What Yahoo answers to both questions; a text is that of an exception. -/
structure Reply where
  info : Except String Info
  dividends : Except String (List Nat)

/-- `_do_fetch`, with the exceptions that `_fetch_info` and `_fetch_dividends` raise. -/
def doFetch (T : CharTables) (reply : Reply) : Except SourceError Attempt :=
  match reply.info with
  | .error exc => .error ⟨classifyError T exc, exc⟩
  | .ok info =>
      match reply.dividends with
      | .error exc => .error ⟨classifyError T exc, exc⟩
      | .ok dividends => .ok ⟨info, dividends⟩

/-- `info.get("marketCap") or info.get("market_cap")`, when it is not zero. -/
def Info.cap (info : Info) : Option Int :=
  match info.marketCap.filter (· ≠ 0) with
  | some cap => some cap
  | none => info.market_cap.filter (· ≠ 0)

/-- The row of `stock_master` with what the info brings. -/
def updated (T : CharTables) (info : Info) (p : Profile) : Profile where
  sector := (safeStr T info.sector).or p.sector
  industry := (safeStr T info.industry).or p.industry
  marketCap := info.cap.or p.marketCap

/-! ## Tasks -/

/-- What a task does next. `swallowed` says that its update of `stock_master` failed. -/
inductive Stage where
  | fetch
  | writeInfo (attempt : Attempt)
  | writeDividends (attempt : Attempt)
  | updateMaster (attempt : Attempt)
  | log (message category : String)
  | advance (ok swallowed : Bool)
  | ended (swallowed : Bool)
  /-- An exception has left the task. -/
  | died
  deriving DecidableEq

structure Task where
  stock : StockMaster
  stage : Stage
  deriving DecidableEq

/-- Everything of the stock is written, or it is recorded as skipped. -/
def Task.Settled (t : Task) : Prop :=
  match t.stage with
  | .advance _ swallowed => swallowed = false
  | .ended swallowed => swallowed = false
  | _ => False

instance (t : Task) : Decidable t.Settled := by
  unfold Task.Settled
  cases t.stage <;> infer_instance

/-- The task takes no more steps. -/
def Task.over (t : Task) : Bool :=
  match t.stage with
  | .ended _ => true
  | .died => true
  | _ => false

/-- A batch at work; `origin` is where the cursor stood when it was read. -/
structure Batch where
  tasks : List Task
  origin : Nat
  consecutive429 : Nat

inductive Process where
  | starting
  | selecting
  | running (batch : Batch)

structure InfoRow where
  ticker : String
  info : Info
  deriving DecidableEq

/-- What is committed, and the process if one runs. `answers` is what the source brought last for a
stock. -/
structure World where
  stocks : List StockMaster
  nextId : Nat
  cursor : Cursor
  skipped : List Skipped
  profiles : Nat → Profile
  companyInfo : List InfoRow
  dividends : List (String × Nat)
  answers : Nat → Option Attempt
  process : Option Process

/-- What a task meets in its next step; `exc` is the text of an exception. -/
structure Answers where
  replies : Nat → Reply
  infoDelete : Commit := .done
  infoAppend : Commit := .done
  dividendRead : Bool := false
  dividendAppend : Commit := .done
  master : Commit := .done
  exc : String := ""

inductive Event where
  | start (batchSize : Option Nat)
  | go
  | task (k : Nat) (answers : Answers)
  /-- A session or an executor raises what nobody expects. -/
  | fail (k : Nat)
  | crash
  | addStock (gap : Nat) (stock : StockMaster)

namespace World

variable (T : CharTables) (w : World)

/-- The `k`-th task has another stage. -/
def setStage (b : Batch) (k : Nat) (t : Task) (stage : Stage) : World :=
  { w with process := some (.running { b with tasks := b.tasks.set k { t with stage := stage } }) }

/-- The fetches of a task. The third rate limit in a row raises. -/
def fetch (b : Batch) (k : Nat) (t : Task) (a : Answers) : World :=
  match retryWithBackoff (fun j => doFetch T (a.replies j)) 0 (maxRetries - 1) with
  | .ok attempt =>
      { w.setStage b k t (.writeInfo attempt) with
        answers := fun id => if id = t.stock.id then some attempt else w.answers id }
  | .error e =>
      if e.category = .rateLimit then
        let b := { b with consecutive429 := b.consecutive429 + 1 }
        if maxConsecutive429 ≤ b.consecutive429 then w.setStage b k t .died
        else w.setStage b k t (.log e.message e.category.value)
      else w.setStage b k t (.log e.message e.category.value)

/-- `insert_company_info`, which raises when the append does. -/
def writeInfo (b : Batch) (k : Nat) (t : Task) (attempt : Attempt) (a : Answers) : World :=
  let kept :=
    if a.infoDelete = .refused then w.companyInfo
    else w.companyInfo.filter fun r => r.ticker ≠ t.stock.yfTicker
  let rows :=
    if a.infoAppend = .refused then kept else kept ++ [⟨t.stock.yfTicker, attempt.info⟩]
  let stage : Stage :=
    if a.infoAppend = .done then
      if attempt.dividends = [] then .updateMaster attempt else .writeDividends attempt
    else .log a.exc (classifyError T a.exc).value
  { w.setStage b k t stage with companyInfo := rows }

/-- The dividends that are not stored. -/
def newDividends (ticker : String) (days : List Nat) : List (String × Nat) :=
  (days.map fun day => (ticker, day)).filter (· ∉ w.dividends)

/-- `insert_dividends` -/
def writeDividends (b : Batch) (k : Nat) (t : Task) (attempt : Attempt) (a : Answers) : World :=
  let new := w.newDividends t.stock.yfTicker attempt.dividends
  if a.dividendRead then w.setStage b k t (.log a.exc (classifyError T a.exc).value)
  else if new = [] then w.setStage b k t (.updateMaster attempt)
  else
    match a.dividendAppend with
    | .done => { w.setStage b k t (.updateMaster attempt) with dividends := w.dividends ++ new }
    | .refused => w.setStage b k t (.log a.exc (classifyError T a.exc).value)
    | .lost =>
        { w.setStage b k t (.log a.exc (classifyError T a.exc).value) with
          dividends := w.dividends ++ new }

/-- The update of `stock_master`; a failure is logged and forgotten. -/
def updateMaster (b : Batch) (k : Nat) (t : Task) (attempt : Attempt) (a : Answers) : World :=
  if a.master = .refused then w.setStage b k t (.advance true true)
  else
    { w.setStage b k t (.advance true false) with
      profiles := fun id =>
        if id = t.stock.id then updated T attempt.info (w.profiles id) else w.profiles id }

/-- `log_skipped` -/
def log (b : Batch) (k : Nat) (t : Task) (message category : String) : World :=
  match logSkipped w.skipped w.cursor.name t.stock.symbol "fundamentals" message category with
  | some skipped => { w.setStage b k t (.advance false false) with skipped := skipped }
  | none => w.setStage b k t .died

/-- `advance_cursor`, to the stock of the task. -/
def advance (b : Batch) (k : Nat) (t : Task) (ok swallowed : Bool) : World :=
  { w.setStage { b with consecutive429 := if ok then 0 else b.consecutive429 } k t
      (.ended swallowed) with
    cursor := advanceCursor w.cursor t.stock.id }

def taskStep (b : Batch) (k : Nat) (t : Task) (a : Answers) : World :=
  match t.stage with
  | .fetch => w.fetch T b k t a
  | .writeInfo attempt => w.writeInfo T b k t attempt a
  | .writeDividends attempt => w.writeDividends T b k t attempt a
  | .updateMaster attempt => w.updateMaster T b k t attempt a
  | .log message category => w.log b k t message category
  | .advance ok swallowed => w.advance b k t ok swallowed
  | .ended _ => w
  | .died => w

/-- `batch_size` replaces that of the cursor when it is given. -/
def resize (cursor : Cursor) (batchSize : Option Nat) : Cursor :=
  match batchSize.filter (· ≠ 0) with
  | some size => { cursor with batchSize := size }
  | none => cursor

/-- The next step of the job itself: the status, the batch, and the end when all tasks are over. -/
def go (p : Process) : World :=
  match p with
  | .starting =>
      { w with cursor := setCursorStatus w.cursor .inProgress, process := some .selecting }
  | .selecting =>
      match getNextBatch w.cursor w.stocks with
      | [] => { w with cursor := setCursorStatus w.cursor .completed, process := none }
      | stocks =>
          { w with process := some (.running
              ⟨stocks.map fun stock => ⟨stock, .fetch⟩, w.cursor.lastProcessedId, 0⟩) }
  | .running b =>
      if b.tasks.all Task.over then
        if maxConsecutive429 ≤ b.consecutive429 then
          { w with cursor := setCursorStatus w.cursor .paused, process := none }
        else { w with process := none }
      else w

/-- One job runs at a time. The tickers of new stocks are new, as they are made of the symbols. -/
def step (e : Event) : World :=
  match e, w.process with
  | .start batchSize, none =>
      { w with cursor := resize w.cursor batchSize, process := some .starting }
  | .start _, some _ => w
  | .go, some p => w.go p
  | .task k a, some (.running b) =>
      match b.tasks[k]? with
      | some t => w.taskStep T b k t a
      | none => w
  | .fail k, some (.running b) =>
      match b.tasks[k]? with
      | some t => if t.over then w else w.setStage b k t .died
      | none => w
  | .crash, _ => { w with process := none }
  | .addStock gap stock, _ =>
      if stock.yfTicker ∈ w.stocks.map StockMaster.yfTicker then w
      else
        { w with
          stocks := w.stocks ++ [{ stock with id := w.nextId + gap }]
          nextId := w.nextId + gap + 1 }
  | _, _ => w

/-! ## Crash safety -/

/-- The company info that the source brought is stored, and so are all its dividends, and the row of
`stock_master` has what it brings. -/
def Ingested (stock : StockMaster) : Prop :=
  ∃ attempt ∈ w.answers stock.id, ⟨stock.yfTicker, attempt.info⟩ ∈ w.companyInfo ∧
    (∀ day ∈ attempt.dividends, (stock.yfTicker, day) ∈ w.dividends) ∧
      updated T attempt.info (w.profiles stock.id) = w.profiles stock.id

/-- The stock is fully ingested, or recorded in the table of the skipped. -/
def Handled (stock : StockMaster) : Prop :=
  w.Ingested T stock ∨ Recorded w.skipped w.cursor.name "fundamentals" stock.symbol

instance (stock : StockMaster) : Decidable (w.Ingested T stock) :=
  inferInstanceAs (Decidable (∃ attempt ∈ w.answers stock.id, _))

instance (stock : StockMaster) : Decidable (w.Handled T stock) :=
  inferInstanceAs (Decidable (_ ∨ _))

/-- The cursor has passed no stock that is not handled, and it is completed when it has passed all
stocks of the beginning. -/
structure Safe (w₀ w : World) : Prop where
  passed : ∀ stock ∈ w.stocks, stock.isActive = true → stock.id ≤ w.cursor.lastProcessedId →
    w.Handled T stock
  completed : w.cursor.status = .completed → ∀ stock ∈ w₀.stocks, stock.isActive = true →
    stock.id ≤ w.cursor.lastProcessedId

/-- A batch that is read may hold a stock, unless none is left. A task moves the cursor when the tasks
of all stocks up to its own are settled. -/
def Careful (w₀ w : World) (e : Event) : Prop :=
  match e, w.process with
  | .go, some .selecting => w.cursor.batchSize = 0 → ∀ stock ∈ w₀.stocks, stock.isActive = true →
      stock.id ≤ w.cursor.lastProcessedId
  | .task k _, some (.running b) =>
      ∀ t ∈ b.tasks[k]?,
        match t.stage with
        | .advance _ _ => ∀ other ∈ b.tasks, other.stock.id ≤ t.stock.id → other.Settled
        | _ => True
  | _, _ => True

instance (w₀ : World) (e : Event) : Decidable (Careful w₀ w e) := by
  unfold Careful
  split
  · infer_instance
  · refine @Option.decidableForallMem _ _ (fun t => ?_) _
    split <;> infer_instance
  · infer_instance

/-- The beginning: nothing runs, ids are the numbers drawn so far, no two stocks share a ticker, and
the cursor has not passed anything that is not handled. -/
structure Beginning (w₀ : World) : Prop where
  idle : w₀.process = none
  distinct : (w₀.stocks.map StockMaster.id).Nodup
  tickers : (w₀.stocks.map StockMaster.yfTicker).Nodup
  drawn : ∀ stock ∈ w₀.stocks, stock.id < w₀.nextId
  position : w₀.cursor.lastProcessedId < w₀.nextId
  safe : Safe T w₀ w₀

end World

end AsetPlatform.Ingestion.Fundamentals
