import AsetPlatform.Library.KeysetCursor

/-!
# Ingestion cursors

`backend/pipeline/cursor.py`: the cursor of an ingestion job, the batch of stocks behind it, and the
table of those that were skipped.
-/

set_option autoImplicit false

namespace AsetPlatform.Ingestion

open AsetPlatform.Library

/-- A row of `stock_master`, as far as the jobs read it. The database draws the ids in ascending
order. -/
structure StockMaster where
  id : Nat
  symbol : String
  yfTicker : String
  currency : String
  isActive : Bool
  deriving DecidableEq

inductive CursorStatus where
  | pending
  | inProgress
  | completed
  | paused
  deriving DecidableEq

structure Cursor where
  name : String
  totalTickers : Nat
  lastProcessedId : Nat
  batchSize : Nat
  status : CursorStatus

/-- A row of `ingestion_skipped`. -/
structure Skipped where
  cursorName : String
  ticker : String
  jobType : String
  errorMessage : String
  errorCategory : String
  attempts : Nat
  resolved : Bool

/-- `create_cursor` -/
def createCursor (name : String) (totalTickers batchSize : Nat) : Cursor :=
  ⟨name, totalTickers, 0, batchSize, .pending⟩

/-- `advance_cursor` -/
def advanceCursor (cursor : Cursor) (lastProcessedId : Nat) : Cursor :=
  { cursor with lastProcessedId := lastProcessedId }

/-- `set_cursor_status` -/
def setCursorStatus (cursor : Cursor) (status : CursorStatus) : Cursor :=
  { cursor with status := status }

/-- `get_next_batch` -/
def getNextBatch (cursor : Cursor) (stocks : List StockMaster) : List StockMaster :=
  nextBatch StockMaster.id StockMaster.isActive stocks cursor.lastProcessedId cursor.batchSize

/-- The cursor once its batch is done with. -/
def Cursor.afterBatch (stocks : List StockMaster) (cursor : Cursor) : Cursor :=
  advanceCursor cursor
    (nextPosition StockMaster.id StockMaster.isActive stocks cursor.batchSize cursor.lastProcessedId)

/-- An unresolved row of the ticker. -/
def Skipped.same (cursorName ticker jobType : String) (r : Skipped) : Bool :=
  r.cursorName = cursorName && r.ticker = ticker && r.jobType = jobType && !r.resolved

/-- `log_skipped`; nothing comes back when two unresolved rows are found, for then it raises. -/
def logSkipped (skipped : List Skipped) (cursorName ticker jobType errorMessage errorCategory : String) :
    Option (List Skipped) :=
  let truncated := String.ofList (errorMessage.toList.take 1000)
  match skipped.countP (Skipped.same cursorName ticker jobType) with
  | 0 => some (skipped ++ [⟨cursorName, ticker, jobType, truncated, errorCategory, 1, false⟩])
  | 1 =>
      some (skipped.map fun r =>
        if r.same cursorName ticker jobType then
          { r with
            attempts := r.attempts + 1
            errorMessage := truncated
            errorCategory := errorCategory }
        else r)
  | _ => none

/-- The ticker has a row in the table, resolved or not. -/
def Recorded (skipped : List Skipped) (cursorName jobType ticker : String) : Prop :=
  ∃ r ∈ skipped, r.cursorName = cursorName ∧ r.jobType = jobType ∧ r.ticker = ticker

instance (skipped : List Skipped) (cursorName jobType ticker : String) :
    Decidable (Recorded skipped cursorName jobType ticker) :=
  inferInstanceAs (Decidable (∃ r ∈ skipped, _))

/-! ## What the batches bring -/

section Batches

variable {cursor : Cursor} {stocks : List StockMaster} {stock : StockMaster}

theorem Cursor.iterate_afterBatch (n : Nat) : (afterBatch stocks)^[n] cursor =
    advanceCursor cursor ((nextPosition StockMaster.id StockMaster.isActive stocks
      cursor.batchSize)^[n] cursor.lastProcessedId) := by
  induction n generalizing cursor with
  | zero => rfl
  | succ n ih =>
      rw [Function.iterate_succ_apply, ih, Function.iterate_succ_apply]
      rfl

/-- The stocks with greater ids than the cursor are those that some batch brings, if its batches bring
any. -/
theorem exists_mem_getNextBatch_iff (hDistinct : (stocks.map StockMaster.id).Nodup)
    (hMem : stock ∈ stocks) (hActive : stock.isActive = true) :
    (∃ n, stock ∈ getNextBatch ((Cursor.afterBatch stocks)^[n] cursor) stocks) ↔
      0 < cursor.batchSize ∧ cursor.lastProcessedId < stock.id := by
  simp only [Cursor.iterate_afterBatch]
  constructor
  · rintro ⟨n, hn⟩
    refine ⟨Nat.pos_of_ne_zero fun hZero => ?_, Nat.lt_of_not_le fun hLe => ?_⟩
    · have hTake := hn
      rw [getNextBatch, nextBatch, advanceCursor, hZero, List.take_zero] at hTake
      cases hTake
    · exact not_mem_nextBatch hLe n hn
  · rintro ⟨hSize, hLt⟩
    exact exists_mem_nextBatch hDistinct hSize hMem hActive hLt

end Batches

/-! ## What `log_skipped` leaves -/

section LogSkipped

variable {skipped after : List Skipped} {cursorName ticker jobType message category : String}

theorem Skipped.same_iff {r : Skipped} : r.same cursorName ticker jobType = true ↔
    r.cursorName = cursorName ∧ r.ticker = ticker ∧ r.jobType = jobType ∧ r.resolved = false := by
  simp only [Skipped.same, Bool.and_eq_true, decide_eq_true_eq, Bool.not_eq_true', and_assoc]

theorem recorded_logSkipped (h : logSkipped skipped cursorName ticker jobType message category =
    some after) : Recorded after cursorName jobType ticker := by
  unfold logSkipped at h
  split at h
  · obtain rfl := Option.some.inj h
    exact ⟨_, List.mem_append_right _ (List.mem_singleton_self _), rfl, rfl, rfl⟩
  · rename_i hCount
    obtain rfl := Option.some.inj h
    obtain ⟨r, hMem, hSame⟩ := List.countP_pos_iff.mp (by rw [hCount]; exact Nat.one_pos)
    refine ⟨_, List.mem_map_of_mem hMem, ?_⟩
    rw [if_pos hSame]
    obtain ⟨hName, hTicker, hJob, -⟩ := Skipped.same_iff.mp hSame
    exact ⟨hName, hJob, hTicker⟩
  · cases h

theorem Recorded.logSkipped {name job other : String} (hOld : Recorded skipped name job other)
    (h : logSkipped skipped cursorName ticker jobType message category = some after) :
    Recorded after name job other := by
  obtain ⟨r, hMem, hr⟩ := hOld
  unfold Ingestion.logSkipped at h
  split at h
  · obtain rfl := Option.some.inj h
    exact ⟨r, List.mem_append_left _ hMem, hr⟩
  · obtain rfl := Option.some.inj h
    refine ⟨_, List.mem_map_of_mem hMem, ?_⟩
    split
    · exact hr
    · exact hr
  · cases h

end LogSkipped

end AsetPlatform.Ingestion
