import AsetPlatform.StockData.InsertOhlcv
import Mathlib.Algebra.Field.Rat

/-!
# Price bars

All columns of `stocks.ohlcv`, and the steps in which `insert_ohlcv` and `update_ohlcv_adj_close` of
`stocks/repository.py` read and write them. `InsertOhlcv` looks at the ticker, the day and the close
alone; `insertBars_toRow` says that it sees the same table.
-/

set_option autoImplicit false

namespace AsetPlatform.StockData

/-- The figures of a day; one that is null, NaN or infinite is missing. -/
structure Bar where
  opening : Option ℚ
  high : Option ℚ
  low : Option ℚ
  close : Option ℚ
  volume : Option Int
  deriving DecidableEq

/-- A row of the table. -/
structure StoredBar where
  ticker : String
  date : Nat
  bar : Bar
  adjClose : Option ℚ
  fetchedAt : Nat
  deriving DecidableEq

def StoredBar.toRow (r : StoredBar) : OhlcvRow ℚ := ⟨r.ticker, r.date, r.bar.close⟩

def StoredBar.key (r : StoredBar) : String × Nat := (r.ticker, r.date)

/-- A row of a fetched frame: its index in seconds, its figures, and the adjusted close of a frame
with that column. -/
structure FetchedBar where
  index : Nat
  bar : Bar
  adjClose : Option ℚ
  deriving DecidableEq

/-- `pd.to_datetime(df.index).date` -/
def FetchedBar.date (r : FetchedBar) : Nat := r.index / 86400

def FetchedBar.stored (ticker : String) (now : Nat) (r : FetchedBar) : StoredBar where
  ticker := ticker
  date := r.date
  bar := r.bar
  adjClose := r.adjClose
  fetchedAt := now

/-! ## Inserting -/

section Insert

variable (t : List StoredBar) (ticker : String) (df : List FetchedBar) (now : Nat)

/-- `existing_dates`, of the rows with a close. -/
def existingDates : List Nat :=
  (t.filter fun r => r.ticker = ticker ∧ r.bar.close.isSome).map StoredBar.date

/-- The rows of the frame on other dates. -/
def newBars (existing : List Nat) : List StoredBar :=
  (df.filter fun r => r.date ∉ existing).map (FetchedBar.stored ticker now)

/-- The delete of the rows without a close on the dates to be inserted. -/
def nanPreDelete (dates : List Nat) : List StoredBar :=
  t.filter fun r => !(decide (r.ticker = ticker ∧ r.date ∈ dates) && r.bar.close.isNone)

/-- `insert_ohlcv`: the table and the returned number. -/
def insertBars : List StoredBar × Nat :=
  let new := newBars ticker df now (existingDates t ticker)
  if new = [] then (t, 0)
  else (nanPreDelete t ticker (new.map StoredBar.date) ++ new, new.length)

end Insert

/-! ## The same insert, seen in three columns -/

section Columns

variable {t : List StoredBar} {ticker : String} {df : List FetchedBar} {now : Nat}

theorem mem_existingDates {d : Nat} :
    d ∈ existingDates t ticker ↔ (ticker, d) ∈ closedKeys (t.map StoredBar.toRow) := by
  rw [existingDates, List.mem_map, mem_closedKeys]
  constructor
  · rintro ⟨r, hr, rfl⟩
    obtain ⟨hMem, hTest⟩ := List.mem_filter.mp hr
    obtain ⟨rfl, hClose⟩ := of_decide_eq_true hTest
    exact ⟨r.toRow, List.mem_map_of_mem hMem, hClose, rfl⟩
  · rintro ⟨_, hMem, hClose, hKey⟩
    obtain ⟨r, hr, rfl⟩ := List.mem_map.mp hMem
    obtain ⟨hTicker, hDate⟩ := Prod.ext_iff.mp hKey
    exact ⟨r, List.mem_filter.mpr ⟨hr, decide_eq_true ⟨hTicker, hClose⟩⟩, hDate⟩

theorem newBars_toRow :
    (newBars ticker df now (existingDates t ticker)).map StoredBar.toRow =
      filtered (t.map StoredBar.toRow) ticker (df.map fun r => (r.date, r.bar.close)) := by
  rw [newBars, filtered, List.map_map, List.map_map, List.filter_map]
  congr 1
  apply List.filter_congr
  intro r _
  exact decide_eq_decide.mpr (not_congr mem_existingDates)

theorem nanPreDelete_toRow (new : List StoredBar) (hTicker : ∀ r ∈ new, r.ticker = ticker) :
    (nanPreDelete t ticker (new.map StoredBar.date)).map StoredBar.toRow =
      preDelete (t.map StoredBar.toRow) (new.map StoredBar.toRow) := by
  rw [nanPreDelete, preDelete, List.filter_map]
  congr 1
  apply List.filter_congr
  intro r _
  have hDue : (r.ticker = ticker ∧ r.date ∈ new.map StoredBar.date) ↔
      r.toRow.key ∈ storedKeys (new.map StoredBar.toRow) := by
    rw [mem_storedKeys]
    constructor
    · rintro ⟨hOwn, hDate⟩
      obtain ⟨r', hr', hSame⟩ := List.mem_map.mp hDate
      refine ⟨r'.toRow, List.mem_map_of_mem hr', Prod.ext ?_ hSame⟩
      exact (hTicker r' hr').trans hOwn.symm
    · rintro ⟨_, hMem, hKey⟩
      obtain ⟨r', hr', rfl⟩ := List.mem_map.mp hMem
      obtain ⟨hSame, hDate⟩ := Prod.ext_iff.mp hKey
      exact ⟨hSame.symm.trans (hTicker r' hr'), List.mem_map.mpr ⟨r', hr', hDate⟩⟩
  rw [Function.comp_apply, decide_eq_decide.mpr hDue]
  rfl

theorem ticker_of_mem_newBars {existing : List Nat} {r : StoredBar}
    (h : r ∈ newBars ticker df now existing) : r.ticker = ticker := by
  obtain ⟨f, -, rfl⟩ := List.mem_map.mp h
  rfl

theorem insertBars_toRow (t : List StoredBar) (ticker : String) (df : List FetchedBar) (now : Nat) :
    (insertBars t ticker df now).1.map StoredBar.toRow =
      (insertOhlcv (t.map StoredBar.toRow) ticker (df.map fun r => (r.date, r.bar.close)) {}).1 := by
  have hNil : newBars ticker df now (existingDates t ticker) = [] ↔
      filtered (t.map StoredBar.toRow) ticker (df.map fun r => (r.date, r.bar.close)) = [] := by
    rw [← @newBars_toRow t ticker df now, List.map_eq_nil_iff]
  rw [insertBars, insertOhlcv]
  simp only
  by_cases hNew : newBars ticker df now (existingDates t ticker) = []
  · rw [if_pos hNew]
    split
    · rfl
    · simp only [Bool.false_eq_true, if_false]
      rw [if_pos (hNil.mp hNew)]
  · have hSome : (df.map fun r => (r.date, r.bar.close)) ≠ [] := by
      intro hEmpty
      rw [List.map_eq_nil_iff] at hEmpty
      exact hNew (by rw [hEmpty]; rfl)
    rw [if_neg hNew, if_neg hSome]
    simp only [Bool.false_eq_true, if_false]
    rw [if_neg (hNil.not.mp hNew), List.map_append, newBars_toRow,
      nanPreDelete_toRow _ fun r hr => ticker_of_mem_newBars hr, newBars_toRow]

end Columns

end AsetPlatform.StockData
