import AsetPlatform.Library.Dict
import AsetPlatform.Library.Run
import AsetPlatform.StockData.Upsert

/-!
# Updating adjusted closes

`update_ohlcv_adj_close` of `stocks/repository.py` reads the rows of a ticker, deletes them and appends
them with the adjusted closes of a map, in commits of their own. The steps of `insert_ohlcv` calls, of
any tickers, come between its own. A commit is carried out, refused, or carried out though it raises.
-/

set_option autoImplicit false

namespace AsetPlatform.StockData

open AsetPlatform.Library

/-! ## Steps of an insert -/

inductive InsertPhase where
  | reading
  /-- About to delete the rows without a close in the way of the new ones. -/
  | deleting (new : List FetchedBar)
  | appending (new : List FetchedBar)
  | returned (count : Nat)
  | raised
  deriving DecidableEq

/-- A call of `insert_ohlcv`. -/
structure Insert where
  ticker : String
  df : List FetchedBar
  now : Nat
  phase : InsertPhase
  deriving DecidableEq

inductive InsertStep where
  | read
  | preDelete (commit : Commit)
  | append (commit : Commit)

/-- The rows of the frame on dates that are not stored. -/
def newRows (df : List FetchedBar) (existing : List Nat) : List FetchedBar :=
  df.filter fun r => r.date ∉ existing

def stepInsert (t : List StoredBar) (i : Insert) : InsertStep → List StoredBar × Insert
  | .read =>
      match i.phase with
      | .reading =>
          let new := newRows i.df (existingDates t i.ticker)
          (t, { i with phase := if new = [] then .returned 0 else .deleting new })
      | _ => (t, i)
  | .preDelete commit =>
      match i.phase with
      | .deleting new =>
          -- a failed delete is ignored
          (if commit = .refused then t else nanPreDelete t i.ticker (new.map FetchedBar.date),
            { i with phase := .appending new })
      | _ => (t, i)
  | .append commit =>
      match i.phase with
      | .appending new =>
          (if commit = .refused then t else t ++ new.map (FetchedBar.stored i.ticker i.now),
            { i with phase := if commit = .done then .returned new.length else .raised })
      | _ => (t, i)

theorem stepInsert_insertBars (t : List StoredBar) (ticker : String) (df : List FetchedBar)
    (now : Nat) :
    ([InsertStep.read, .preDelete .done, .append .done].foldl (fun s e => stepInsert s.1 s.2 e)
        (t, ⟨ticker, df, now, .reading⟩)) =
      ((insertBars t ticker df now).1, ⟨ticker, df, now, .returned (insertBars t ticker df now).2⟩) := by
  have hNew : newBars ticker df now (existingDates t ticker) =
      (newRows df (existingDates t ticker)).map (FetchedBar.stored ticker now) := rfl
  rw [insertBars_eq, hNew]
  by_cases hNil : newRows df (existingDates t ticker) = []
  · simp [stepInsert, hNil, nanPreDelete_nil]
  · simp only [List.foldl_cons, List.foldl_nil, stepInsert, hNil, if_false, reduceCtorEq, if_true,
      List.map_map, List.length_map]
    rfl

/-! ## The update -/

/-- The arguments of the update, and the time it writes. -/
structure AdjUpdate where
  ticker : String
  adjCloseMap : Dict Nat (Option ℚ)
  now : Nat

namespace AdjUpdate

variable (u : AdjUpdate)

/-- `_safe_float(adj_close_map[d])`, for a date in the map. -/
def newVal (d : Nat) : Option ℚ := (u.adjCloseMap.get? d).join

def updateRow (r : StoredBar) : StoredBar :=
  { r with
    adjClose := (u.newVal r.date).or r.adjClose
    fetchedAt := u.now }

end AdjUpdate

inductive UpdatePhase where
  | scanning
  /-- About to delete the rows of the ticker, with the rows to append. -/
  | deleting (rows : List StoredBar) (updated : Nat)
  | appending (rows : List StoredBar) (updated : Nat)
  | returned (updated : Nat)
  | raised
  deriving DecidableEq

/-- The table, the inserts and the update. -/
structure AdjWorld where
  table : List StoredBar
  inserts : List Insert
  update : UpdatePhase

inductive AdjEvent where
  | beginInsert (ticker : String) (df : List FetchedBar) (now : Nat)
  | insert (k : Nat) (s : InsertStep)
  | scan
  | delete (commit : Commit)
  | append (commit : Commit)

namespace AdjWorld

variable (u : AdjUpdate) (w : AdjWorld)

def start (t : List StoredBar) : AdjWorld := ⟨t, [], .scanning⟩

def step : AdjEvent → AdjWorld
  | .beginInsert ticker df now => { w with inserts := w.inserts ++ [⟨ticker, df, now, .reading⟩] }
  | .insert k s =>
      match w.inserts[k]? with
      | some i =>
          { w with
            table := (stepInsert w.table i s).1
            inserts := w.inserts.set k (stepInsert w.table i s).2 }
      | none => w
  | .scan =>
      match w.update with
      | .scanning =>
          let rows := w.table.filter (·.ticker = u.ticker)
          let updated := (rows.filter fun r => (u.newVal r.date).isSome).length
          { w with
            update := if updated = 0 then .returned 0 else .deleting (rows.map u.updateRow) updated }
      | _ => w
  | .delete commit =>
      match w.update with
      | .deleting rows updated =>
          { w with
            table := if commit = .refused then w.table else w.table.filter (·.ticker ≠ u.ticker)
            update := if commit = .done then .appending rows updated else .raised }
      | _ => w
  | .append commit =>
      match w.update with
      | .appending rows updated =>
          { w with
            table := if commit = .refused then w.table else w.table ++ rows
            update := if commit = .done then .returned updated else .raised }
      | _ => w

end AdjWorld

/-- The events without those of the update. -/
def AdjEvent.ofInsert : AdjEvent → Bool
  | beginInsert .. => true
  | insert .. => true
  | _ => false

end AsetPlatform.StockData
