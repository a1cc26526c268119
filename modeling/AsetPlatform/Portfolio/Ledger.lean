import AsetPlatform.Library.Run
import AsetPlatform.Library.Threads
import Mathlib.Data.Rat.Defs

/-!
# The portfolio ledger

`stocks/repository.py`: the transactions of all users are rows of one Iceberg table. Adding appends a
row; updating and deleting read the whole table (`_table_to_df`), change the rows in memory, and
overwrite the table. Writes go through `_retry_commit`, which loads the table again under a lock of
the process, so a commit applies to the latest version: an append adds to it, an overwrite replaces
it by what the caller read and changed before.

The reads go through DuckDB (`backend/db/duckdb_engine.py`), which remembers the newest metadata
file of a table until the next commit of its process, and fall back to a scan of the catalog's
current version.

Calls interleave between a lookup of the remembered file, the search for the newest one, its
remembering, the scan, the commit and the invalidation. A commit is atomic; conflicts with other
processes are retried inside it.
-/

set_option autoImplicit false

namespace AsetPlatform.Portfolio

open AsetPlatform.Library

/-! ## Rows -/

/-- A row of `stocks.portfolio_transactions`. -/
structure Row where
  transactionId : String
  userId : String
  ticker : String
  side : String
  quantity : ℚ
  price : ℚ
  currency : String
  market : String
  tradeDate : Option Int
  fees : ℚ
  notes : String
  createdAt : Int
  deriving DecidableEq

/-- The dictionary `add_portfolio_transaction` is given. -/
structure Txn where
  transactionId : String
  userId : String
  ticker : String
  side : String
  quantity : ℚ
  price : ℚ
  currency : Option String := none
  market : Option String := none
  tradeDate : Option Int := none
  fees : Option ℚ := none
  notes : Option String := none

/-- The fields `update_portfolio_transaction` changes. -/
structure Updates where
  price : Option ℚ := none
  quantity : Option ℚ := none
  tradeDate : Option (Option Int) := none

def newRow (txn : Txn) (now : Int) : Row where
  transactionId := txn.transactionId
  userId := txn.userId
  ticker := txn.ticker
  side := txn.side
  quantity := txn.quantity
  price := txn.price
  currency := txn.currency.getD "USD"
  market := txn.market.getD "us"
  tradeDate := txn.tradeDate
  fees := txn.fees.getD 0
  notes := txn.notes.getD ""
  createdAt := now

def editRow (updates : Updates) (row : Row) : Row :=
  { row with
    price := updates.price.getD row.price
    quantity := updates.quantity.getD row.quantity
    tradeDate := updates.tradeDate.getD row.tradeDate }

/-! ## Calls -/

/-- A call with its arguments; an addition reads the clock. -/
inductive LedgerCall where
  | add (txn : Txn) (now : Int)
  | update (transactionId userId : String) (updates : Updates)
  | delete (transactionId userId : String)

namespace LedgerCall

def transactionId : LedgerCall → String
  | add txn _ => txn.transactionId
  | update transactionId _ _ => transactionId
  | delete transactionId _ => transactionId

/-- `(df["transaction_id"] == transaction_id) & (df["user_id"] == user_id)`. -/
def mask (transactionId userId : String) (row : Row) : Bool :=
  row.transactionId = transactionId && row.userId = userId

/-- Whether the call finds its transaction among the rows it read. -/
def finds (rows : List Row) : LedgerCall → Bool
  | add _ _ => true
  | update transactionId userId _ => rows.any (mask transactionId userId)
  | delete transactionId userId => rows.any (mask transactionId userId)

/-- What the call makes of the rows: an appended row, edited rows, or the rows that are left. -/
def effect (rows : List Row) : LedgerCall → List Row
  -- `table.append`, and `table.overwrite` with what was made of the data frame
  | add txn now => rows ++ [newRow txn now]
  | update transactionId userId updates =>
      rows.map fun row => if mask transactionId userId row then editRow updates row else row
  | delete transactionId userId => rows.filter fun row => !mask transactionId userId row

end LedgerCall

/-- Where a call is. -/
inductive Phase where
  /-- About to look up the remembered metadata file. -/
  | lookup
  /-- About to search for the newest metadata file. -/
  | globbing
  /-- About to remember the file of a version. -/
  | storing (version : Nat)
  /-- About to scan a version. -/
  | scanning (version : Nat)
  /-- About to append its row. -/
  | appending
  /-- About to overwrite the table with what it made of the rows of a version. -/
  | overwriting (version : Nat)
  /-- Committed; about to invalidate the remembered file and to release the lock. -/
  | committed
  /-- Returned: `True` or without an error, or `False`. -/
  | done (ok : Bool)
  | raised
  deriving DecidableEq

structure Call where
  process : Nat
  op : LedgerCall
  phase : Phase

/-- The versions of the table, the remembered version of each process, and the calls. -/
structure World where
  versions : List (List Row)
  metaCache : Nat → Option Nat
  calls : List Call

/-- How a read comes by its rows: from DuckDB, from a scan of the current version, or not at all. -/
inductive ReadPath where
  | duckdb
  | iceberg
  | failed
  deriving DecidableEq

inductive LedgerStep where
  | begin (process : Nat) (op : LedgerCall)
  | lookup (k : Nat)
  | glob (k : Nat)
  | store (k : Nat)
  | scan (k : Nat) (path : ReadPath)
  /-- The commit, which takes effect or raises in the end. -/
  | commit (k : Nat) (ok : Bool)
  | release (k : Nat)

namespace World

def latest (w : World) : Nat := w.versions.length - 1

def rowsAt (w : World) (version : Nat) : List Row := (w.versions[version]?).getD []

/-- The rows of the table. -/
def rows (w : World) : List Row := w.rowsAt w.latest

def setPhase (w : World) (k : Nat) (c : Call) (phase : Phase) : World :=
  { w with calls := w.calls.set k { c with phase := phase } }

/-- Another call of the process holds `_commit_lock`. -/
def locked (w : World) (process : Nat) : Bool :=
  w.calls.any fun c => c.process = process && c.phase = .committed

/-- The phase after the rows of a version are read; rows that could not be read are empty. -/
def afterScan (op : LedgerCall) (version : Nat) (rows : List Row) : Phase :=
  if op.finds rows then .overwriting version else .done false

/-- The end of a commit that takes effect, of the rows it leaves. -/
def push (w : World) (k : Nat) (c : Call) (rows : List Row) : World :=
  { w with versions := w.versions ++ [rows] }.setPhase k c .committed

def step (w : World) : LedgerStep → World
  | .begin process op =>
      -- only updates and deletions read the table first
      let phase := match op with
        | .add _ _ => .appending
        | _ => .lookup
      { w with calls := w.calls ++ [⟨process, op, phase⟩] }
  | .lookup k =>
      match w.calls[k]? with
      | some ⟨p, op, .lookup⟩ =>
          match w.metaCache p with
          | some version => w.setPhase k ⟨p, op, .lookup⟩ (.scanning version)
          -- not remembered, or invalidated by a commit of the process
          | none => w.setPhase k ⟨p, op, .lookup⟩ .globbing
      | _ => w
  | .glob k =>
      match w.calls[k]? with
      | some ⟨p, op, .globbing⟩ => w.setPhase k ⟨p, op, .globbing⟩ (.storing w.latest)
      | _ => w
  | .store k =>
      match w.calls[k]? with
      | some ⟨p, op, .storing version⟩ =>
          { w with
            metaCache := fun q => if q = p then some version else w.metaCache q }.setPhase
              k ⟨p, op, .storing version⟩ (.scanning version)
      | _ => w
  | .scan k path =>
      match w.calls[k]? with
      | some ⟨p, op, .scanning version⟩ =>
          match path with
          | .duckdb =>
              w.setPhase k ⟨p, op, .scanning version⟩ (afterScan op version (w.rowsAt version))
          | .iceberg =>
              w.setPhase k ⟨p, op, .scanning version⟩ (afterScan op w.latest (w.rowsAt w.latest))
          -- an empty data frame, so that the transaction is not found
          | .failed => w.setPhase k ⟨p, op, .scanning version⟩ (afterScan op version [])
      | _ => w
  | .commit k ok =>
      match w.calls[k]? with
      | some ⟨p, op, .appending⟩ =>
          -- the lock serialises the commits of a process, not the reads before them
          if w.locked p then w
          else if ok then w.push k ⟨p, op, .appending⟩ (op.effect w.rows)
          else w.setPhase k ⟨p, op, .appending⟩ .raised
      | some ⟨p, op, .overwriting version⟩ =>
          if w.locked p then w
          else if ok then w.push k ⟨p, op, .overwriting version⟩ (op.effect (w.rowsAt version))
          else w.setPhase k ⟨p, op, .overwriting version⟩ .raised
      | _ => w
  | .release k =>
      match w.calls[k]? with
      | some ⟨p, op, .committed⟩ =>
          { w with metaCache := fun q => if q = p then none else w.metaCache q }.setPhase
            k ⟨p, op, .committed⟩ (.done true)
      | _ => w

end World

end AsetPlatform.Portfolio
