import AsetPlatform.Ingestion.Cursor
import AsetPlatform.Ingestion.Sources
import AsetPlatform.Library.Dict
import AsetPlatform.Library.Run
import AsetPlatform.StockData.InsertOhlcv

/-!
# Bulk ingestion of prices

`run_bulk` of `backend/pipeline/jobs/ohlcv.py` with the source that it asks, `YfinanceSource`. A run
is a process that stands before its next write: the rows of a ticker, its entry in the registry, its
row among the skipped, and the cursor are committed one after the other. The process may end before
each of them, by a crash or an exception that nobody catches, and be started again; stocks may be
added meanwhile. Days are numbered, and nobody else writes.
-/

set_option autoImplicit false

namespace AsetPlatform.Ingestion.OhlcvBulk

open AsetPlatform.Library AsetPlatform.StockData

universe u

variable {P : Type u}

/-! ## The source -/

/-- What Yahoo answers: an exception, or a frame with distinct days. `missing` lists the columns that
the frame lacks. -/
inductive Reply (P : Type u) where
  | raised (exc : String)
  | frame (rows : List (Nat × Option P)) (distinct : (rows.map Prod.fst).Nodup)
      (missing : Option String)

/-- `YfinanceSource.fetch_ohlcv`: a frame holds the days from `start` on and before `stop`. -/
def fetchOhlcv (T : CharTables) (symbol : String) (start stop : Nat) :
    Reply P → Except SourceError (List (Nat × Option P))
  | .raised exc =>
      .error ⟨classifyError T exc, "yfinance fetch failed for " ++ symbol ++ ": " ++ exc⟩
  | .frame rows _ missing =>
      match rows.filter fun row => start ≤ row.1 && row.1 < stop with
      | [] => .error ⟨.notFound, "No data returned by yfinance for " ++ symbol⟩
      | row :: rest =>
          match missing with
          | some columns =>
              .error ⟨.parseError, "yfinance data for " ++ symbol ++ " missing columns: " ++ columns⟩
          | none => .ok (row :: rest)

/-! ## The process -/

/-- A row of `stock_registry`. -/
structure RegistryEntry where
  lastFetchDate : Nat
  totalRows : Nat
  dateRangeStart : Option Nat
  dateRangeEnd : Option Nat
  market : String

inductive Outcome where
  | ok
  | skipped
  | failed
  deriving DecidableEq

/-- What the process writes next for the first stock of its batch. -/
inductive Stage (P : Type u) where
  /-- The cursor is in progress, and the batch not read. -/
  | select
  | fetch
  | insert (today : Nat) (df : List (Nat × Option P))
  | log (message category : String)
  | register (today rows : Nat) (df : List (Nat × Option P))
  | advance (outcome : Outcome)
  /-- The batch is done, or was stopped. -/
  | finish

structure Process (P : Type u) where
  batch : List StockMaster
  stage : Stage P
  consecutive429 : Nat
  processed : Nat
  skipped : Nat
  failed : Nat

/-- What is committed, and the process if one runs. The database draws ids from `nextId` on. -/
structure World (P : Type u) where
  stocks : List StockMaster
  nextId : Nat
  cursor : Cursor
  skipped : List Skipped
  registry : Dict String RegistryEntry
  rows : List (OhlcvRow P)
  process : Option (Process P)

/-- What the process meets in its next step: the calendar, the answers of the source, and failures of
the insert. -/
structure Answers (P : Type u) where
  today : Nat
  replies : Nat → Reply P
  faults : InsertFaults

inductive Event (P : Type u) where
  | start
  | work (answers : Answers P)
  | crash
  | addStock (gap : Nat) (stock : StockMaster)

def defaultHistoryYears : Nat := 10

/-- `store_as` -/
def storeAs (stock : StockMaster) : String :=
  if stock.yfTicker = "" then stock.symbol ++ ".NS" else stock.yfTicker

/-- `total`: the rows of the entry and the new ones. -/
def totalRows (existing : Option RegistryEntry) (rows : Nat) : Nat :=
  match existing with
  | some entry => entry.totalRows + rows
  | none => rows

/-- The entry that `upsert_registry` writes after an insert. -/
def upserted (existing : Option RegistryEntry) (today rows : Nat) (df : List (Nat × Option P)) :
    RegistryEntry where
  lastFetchDate := today
  totalRows := totalRows existing rows
  dateRangeStart := (existing.bind RegistryEntry.dateRangeStart).or (df.map Prod.fst).min?
  dateRangeEnd := (df.map Prod.fst).max?
  market := "india"

namespace World

variable (T : CharTables) (w : World P) (p : Process P)

/-- The process goes on with another stage. -/
def goOn (stage : Stage P) : World P := { w with process := some { p with stage := stage } }

/-- `get_next_batch` at the start: without stocks the cursor is completed. -/
def select : World P :=
  match getNextBatch w.cursor w.stocks with
  | [] => { w with cursor := setCursorStatus w.cursor .completed, process := none }
  | stock :: rest =>
      { w with process := some { p with batch := stock :: rest, stage := .fetch } }

/-- The days that `_process_ticker` asks for; `none` when the entry is fresh. -/
def startDate (ticker : String) (today : Nat) : Option Nat :=
  match (w.registry.get? ticker).bind RegistryEntry.dateRangeEnd with
  | some last => if today - 1 ≤ last then none else some (last + 1)
  | none => some (today - 365 * defaultHistoryYears)

/-- `_process_ticker` up to its first write. The third rate limit in a row ends the batch. -/
def fetch (stock : StockMaster) (a : Answers P) : World P :=
  match w.startDate (storeAs stock) a.today with
  | none => w.goOn p (.advance .skipped)
  | some start =>
      match retryWithBackoff
          (fun k => fetchOhlcv T (storeAs stock) start a.today (a.replies k)) 0
          (maxRetries - 1) with
      | .ok [] => w.goOn p (.advance .skipped)
      | .ok (row :: rest) => w.goOn p (.insert a.today (row :: rest))
      | .error e =>
          if e.category = .rateLimit then
            if maxConsecutive429 ≤ p.consecutive429 + 1 then
              { w with process := some { p with
                stage := .finish, consecutive429 := p.consecutive429 + 1, failed := p.failed + 1 } }
            else
              { w with process := some { p with
                stage := .log e.message e.category.value, consecutive429 := p.consecutive429 + 1 } }
          else w.goOn p (.log e.message e.category.value)

/-- `insert_ohlcv`; the number of new rows comes back. -/
def insert (stock : StockMaster) (today : Nat) (df : List (Nat × Option P)) (a : Answers P) :
    World P :=
  let (rows, raised) := insertOhlcv w.rows (storeAs stock) df a.faults
  let stage : Stage P :=
    if raised then .log "Iceberg write failed" "unknown"
    else .register today (filtered w.rows (storeAs stock) df).length df
  { w with
    rows := rows
    process := some { p with
      stage := stage, consecutive429 := if raised then p.consecutive429 else 0 } }

/-- `log_skipped`, which ends the process when it raises. -/
def log (stock : StockMaster) (message category : String) : World P :=
  match logSkipped w.skipped w.cursor.name stock.symbol "bulk" message category with
  | some skipped => { w.goOn p (.advance .failed) with skipped := skipped }
  | none => { w with process := none }

/-- `upsert_registry` -/
def register (stock : StockMaster) (today rows : Nat) (df : List (Nat × Option P)) : World P :=
  { w.goOn p (.advance .ok) with
    registry := w.registry.set (storeAs stock)
      (upserted (w.registry.get? (storeAs stock)) today rows df) }

def count (outcome : Outcome) : Process P :=
  match outcome with
  | .ok => { p with processed := p.processed + 1 }
  | .skipped => { p with skipped := p.skipped + 1 }
  | .failed => { p with failed := p.failed + 1 }

/-- `advance_cursor`; the loop turns to the rest of the batch. -/
def advance (stock : StockMaster) (rest : List StockMaster) (outcome : Outcome) : World P :=
  { w with
    cursor := advanceCursor w.cursor stock.id
    process := some { count p outcome with
      batch := rest
      stage := match rest with
        | [] => .finish
        | _ :: _ => .fetch } }

/-- The status after a batch: completed when nothing is left. -/
def finish : World P :=
  match getNextBatch w.cursor w.stocks with
  | [] => { w with cursor := setCursorStatus w.cursor .completed, process := none }
  | _ :: _ => { w with process := none }

/-- The next write of the process. -/
def work (a : Answers P) : World P :=
  match p.stage, p.batch with
  | .select, _ => w.select p
  | .finish, _ => w.finish
  | _, [] => { w with process := none }
  | .fetch, stock :: _ => w.fetch T p stock a
  | .insert today df, stock :: _ => w.insert p stock today df a
  | .log message category, stock :: _ => w.log p stock message category
  | .register today rows df, stock :: _ => w.register p stock today rows df
  | .advance outcome, stock :: rest => w.advance p stock rest outcome

/-- One process runs at a time. -/
def step (e : Event P) : World P :=
  match e with
  | .start =>
      match w.process with
      | some _ => w
      | none =>
          { w with
            cursor := setCursorStatus w.cursor .inProgress
            process := some ⟨[], .select, 0, 0, 0, 0⟩ }
  | .work a =>
      match w.process with
      | none => w
      | some p => w.work T p a
  | .crash => { w with process := none }
  | .addStock gap stock =>
      { w with
        stocks := w.stocks ++ [{ stock with id := w.nextId + gap }]
        nextId := w.nextId + gap + 1 }

/-! ## Crash safety -/

/-- The registry has an end date for the stock, and unless the entry is the one that it had in the
beginning, the day is stored. -/
def Ingested (w₀ w : World P) (stock : StockMaster) : Prop :=
  ∃ entry ∈ w.registry.get? (storeAs stock), ∃ last ∈ entry.dateRangeEnd,
    (∃ old ∈ w₀.registry.get? (storeAs stock), old.dateRangeEnd = some last) ∨
      (storeAs stock, last) ∈ storedKeys w.rows

/-- The stock is ingested, or recorded in the table of the skipped. -/
def Handled (w₀ w : World P) (stock : StockMaster) : Prop :=
  Ingested w₀ w stock ∨ Recorded w.skipped w.cursor.name "bulk" stock.symbol

/-- The cursor has passed no stock that is not handled, it is completed when it has passed all stocks
of the beginning, and no day of a ticker is stored twice. -/
structure Safe (w₀ w : World P) : Prop where
  passed : ∀ stock ∈ w.stocks, stock.isActive = true → stock.id ≤ w.cursor.lastProcessedId →
    Handled w₀ w stock
  completed : w.cursor.status = .completed → ∀ stock ∈ w₀.stocks, stock.isActive = true →
    stock.id ≤ w.cursor.lastProcessedId
  once : (storedKeys w.rows).Nodup

/-- A batch that is read may hold a stock, unless none is left. When rows of a ticker are appended
after the delete of its rows without a close has failed, none of their days has such a row. -/
def Careful (w₀ w : World P) (e : Event P) : Prop :=
  match e, w.process with
  | .work a, some p =>
      match p.stage, p.batch with
      | .select, _ => w.cursor.batchSize = 0 → ∀ stock ∈ w₀.stocks, stock.isActive = true →
          stock.id ≤ w.cursor.lastProcessedId
      | .finish, _ => w.cursor.batchSize = 0 → ∀ stock ∈ w₀.stocks, stock.isActive = true →
          stock.id ≤ w.cursor.lastProcessedId
      | .insert _ df, stock :: _ =>
          a.faults.read = false → a.faults.append ≠ .refused → a.faults.nullDelete = true →
            ∀ r ∈ filtered w.rows (storeAs stock) df, r.key ∉ storedKeys w.rows
      | _, _ => True
  | _, _ => True

instance (w₀ : World P) (e : Event P) : Decidable (Careful w₀ w e) := by
  unfold Careful
  split
  · split <;> infer_instance
  · infer_instance

/-- The beginning: nothing runs, ids are the numbers drawn so far, no day is stored twice, and the
cursor has not passed anything that is not handled. -/
structure Beginning (w₀ : World P) : Prop where
  idle : w₀.process = none
  distinct : (w₀.stocks.map StockMaster.id).Nodup
  drawn : ∀ stock ∈ w₀.stocks, stock.id < w₀.nextId
  position : w₀.cursor.lastProcessedId < w₀.nextId
  safe : Safe w₀ w₀

end World

end AsetPlatform.Ingestion.OhlcvBulk
