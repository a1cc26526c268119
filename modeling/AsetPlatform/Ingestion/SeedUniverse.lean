import AsetPlatform.Ingestion.Universe
import AsetPlatform.Library.KeyedFold
import AsetPlatform.Library.Paths

/-!
# Seeding the universe

`backend/pipeline/jobs/seed_universe.py`: the rows of a CSV file are read, each stock is inserted or
updated and its tags reconciled, and the cursor of the file is created or set back to pending, all in
one transaction. A result that is missing is a run that raises; nothing is committed then.
-/

set_option autoImplicit false

namespace AsetPlatform.Ingestion.SeedUniverse

open AsetPlatform.Library AsetPlatform.Ingestion.Universe

/-- A row of the file as `csv.DictReader` gives it; a short row lacks its last cells. -/
structure CsvRow where
  symbol : Option String
  name : Option String
  isin : Option String
  exchange : Option String
  sector : Option String
  industry : Option String
  tags : Option String
  deriving DecidableEq

structure Summary where
  inserted : Nat
  updated : Nat
  skipped : Nat
  tagsAdded : Nat
  tagsRemoved : Nat
  errors : List String

/-- What the run finds at a row: exceptions of the two steps, and the time. -/
structure RowRun where
  upsertRaises : Option String
  syncRaises : Option String
  wall : Nat

/-- `(value or "").strip()` -/
def cell (T : CharTables) (value : Option String) : String :=
  String.ofList (strip T (value.getD "").toList)

/-- `text or None` -/
def orNone (text : String) : Option String := if text = "" then none else some text

/-- `_read_csv`, the rows from the line `i` on and the errors about them. -/
def readRows (T : CharTables) : Nat → List CsvRow → List CsvRow × List String
  | _, [] => ([], [])
  | i, row :: rows =>
      let (kept, errors) := readRows T (i + 1) rows
      if cell T row.symbol = "" ∨ cell T row.name = "" then
        (kept, s!"Row {i}: missing symbol or name, skipped" :: errors)
      else (row :: kept, errors)

/-- `_read_csv`; there may be no such file. -/
def readCsv (T : CharTables) (csvPath : String) : Option (List CsvRow) → List CsvRow × List String
  | none => ([], [s!"CSV not found: {csvPath}"])
  | some rows => readRows T 2 rows

/-- The `data` of a row. -/
def CsvRow.data (T : CharTables) (row : CsvRow) : StockData where
  symbol := cell T row.symbol
  name := cell T row.name
  isin := orNone (cell T row.isin)
  exchange := (orNone (cell T row.exchange)).getD "NSE"
  sector := orNone (cell T row.sector)
  industry := orNone (cell T row.industry)

/-- The `tag_set` of a row. -/
def CsvRow.tagSet (T : CharTables) (row : CsvRow) : List String :=
  ((((strip T (row.tags.getD "").toList).splitOn '|').map (strip T)).filter (· ≠ [])).map
    (fun t => String.ofList (T.lower t)) |>.dedup

/-- What `_process_rows` works on. -/
structure SeedState where
  db : Db
  newIds : List Nat
  summary : Summary

/-- The sync of the tags of a row, whose exceptions are recorded. -/
def syncRow (T : CharTables) (started : Nat) (st : SeedState) (row : CsvRow) (run : RowRun)
    (stockId : Nat) : Option SeedState :=
  if row.tagSet T = [] then some st
  else
    match run.syncRaises with
    | some exc =>
        let msg := s!"{(row.data T).symbol}: tag sync failed — {exc}"
        some { st with summary := { st.summary with errors := st.summary.errors ++ [msg] } }
    | none =>
        (syncTags st.db.tags stockId (row.tagSet T) started run.wall).map fun result =>
          { st with
            db := { st.db with tags := result.1 }
            summary := { st.summary with
              tagsAdded := st.summary.tagsAdded + result.2.1.length
              tagsRemoved := st.summary.tagsRemoved + result.2.2.length } }

/-- `_process_rows`, one row. -/
def processRow (T : CharTables) (update : Bool) (started : Nat) (st : SeedState)
    (line : CsvRow × RowRun) : Option SeedState :=
  let data := line.1.data T
  match line.2.upsertRaises with
  | some exc =>
      let msg := s!"{data.symbol}: upsert failed — {exc}"
      some { st with summary := { st.summary with errors := st.summary.errors ++ [msg] } }
  | none =>
      match upsertStock T started line.2.wall st.db data with
      | none => none
      | some (db, stock, true) =>
          syncRow T started
            { db := db
              newIds := st.newIds ++ [stock.id]
              summary := { st.summary with inserted := st.summary.inserted + 1 } }
            line.1 line.2 stock.id
      | some (db, stock, false) =>
          if update then
            syncRow T started
              { st with
                db := db
                summary := { st.summary with updated := st.summary.updated + 1 } }
              line.1 line.2 stock.id
          else
            some { st with
              db := db
              summary := { st.summary with skipped := st.summary.skipped + 1 } }

/-- `_process_rows` -/
def processRows (T : CharTables) (update : Bool) (started : Nat) (st : SeedState)
    (lines : List (CsvRow × RowRun)) : Option SeedState :=
  lines.foldlM (processRow T update started) st

/-- `_derive_cursor_name` -/
def deriveCursorName (csvPath : String) : String :=
  String.ofList (splitextRoot (basename csvPath.toList)) ++ "_bulk"

/-- `_ensure_cursor` -/
def ensureCursor (cursorName : String) (total : Nat) (newIds : List Nat) (update : Bool) (db : Db) :
    Db :=
  if update ∧ newIds = [] then db
  else if ∃ c ∈ db.cursors, c.name = cursorName then
    { db with
      cursors := db.cursors.map fun c =>
        if c.name = cursorName then { c with totalTickers := total, status := .pending } else c }
  else { db with cursors := db.cursors ++ [createCursor cursorName total 50] }

def lines (rows : List CsvRow) (runs : Nat → RowRun) : List (CsvRow × RowRun) :=
  rows.mapIdx fun k row => (row, runs k)

/-- `seed_from_csv` -/
def seedFromCsv (T : CharTables) (csvPath : String) (update : Bool) (started : Nat)
    (runs : Nat → RowRun) (db : Db) (csv : Option (List CsvRow)) : Option (Db × Summary) :=
  let (rows, errors) := readCsv T csvPath csv
  let summary : Summary := ⟨0, 0, 0, 0, 0, errors⟩
  if rows = [] then some (db, summary)
  else
    (processRows T update started ⟨db, [], summary⟩ (lines rows runs)).map fun st =>
      (ensureCursor (deriveCursorName csvPath) rows.length st.newIds update st.db, st.summary)

/-! ## A row without errors -/

/-- What a row does to the tables when none of its steps raises. -/
def reconcileRow (T : CharTables) (started : Nat) (db : Db) (line : CsvRow × RowRun) : Option Db :=
  (upsertStock T started line.2.wall db (line.1.data T)).bind fun result =>
    if line.1.tagSet T = [] then some result.1
    else
      (syncTags result.1.tags result.2.1.id (line.1.tagSet T) started line.2.wall).map fun synced =>
        { result.1 with tags := synced.1 }

section Rows

variable {T : CharTables} {update : Bool} {started : Nat} {st st' : SeedState} {row : CsvRow}
variable {run : RowRun} {stockId : Nat} {line : CsvRow × RowRun} {rows : List (CsvRow × RowRun)}

/-- The step recorded an error, or took the tables on without one. -/
theorem syncRow_cases (h : syncRow T started st row run stockId = some st') :
    (∃ msg, st'.summary.errors = st.summary.errors ++ [msg]) ∨
      st'.summary.errors = st.summary.errors ∧ st'.newIds = st.newIds ∧
        st'.db.nextId = st.db.nextId ∧
        (if row.tagSet T = [] then some st.db
          else (syncTags st.db.tags stockId (row.tagSet T) started run.wall).map fun synced =>
            { st.db with tags := synced.1 }) = some st'.db := by
  unfold syncRow at h
  split at h
  · rename_i hNil
    obtain rfl := Option.some.inj h
    exact Or.inr ⟨rfl, rfl, rfl, if_pos hNil⟩
  · rename_i hTags
    split at h
    · rename_i exc _
      obtain rfl := Option.some.inj h
      exact Or.inl ⟨_, rfl⟩
    · obtain ⟨result, hSync, rfl⟩ := Option.map_eq_some_iff.mp h
      exact Or.inr ⟨rfl, rfl, rfl, by rw [if_neg hTags, hSync, Option.map_some]⟩

theorem upsertStock_nextId {wall : Nat} {db db' : Db} {data : StockData} {stock : MasterRow}
    {isNew : Bool} (h : upsertStock T started wall db data = some (db', stock, isNew)) :
    db'.nextId = db.nextId + isNew.toNat := by
  unfold upsertStock at h
  split at h
  · dsimp only at h
    split at h
    · cases h
      rfl
    · split at h
      · cases h
      · cases h
        rfl
  · dsimp only at h
    split at h
    · cases h
    · cases h
      rfl

/-- A row of an update recorded an error, or took the tables on without one and drew as many ids as it
noted. -/
theorem processRow_cases (h : processRow T true started st line = some st') :
    (∃ msg, st'.summary.errors = st.summary.errors ++ [msg]) ∨
      st'.summary.errors = st.summary.errors ∧ reconcileRow T started st.db line = some st'.db ∧
        st'.newIds.length + st.db.nextId = st.newIds.length + st'.db.nextId := by
  unfold processRow at h
  dsimp only at h
  split at h
  · obtain rfl := Option.some.inj h
    exact Or.inl ⟨_, rfl⟩
  · split at h
    · cases h
    · rename_i db stock hUpsert
      rcases syncRow_cases h with hError | ⟨hErrors, hIds, hNext, hSync⟩
      · exact Or.inl hError
      · refine Or.inr ⟨hErrors, ?_, ?_⟩
        · rw [reconcileRow, hUpsert, Option.bind_some]
          exact hSync
        · rw [hIds, hNext, upsertStock_nextId hUpsert, List.length_append, List.length_singleton]
          rw [Bool.toNat_true]
          omega
    · rename_i db stock hUpsert
      rw [if_pos rfl] at h
      rcases syncRow_cases h with hError | ⟨hErrors, hIds, hNext, hSync⟩
      · exact Or.inl hError
      · refine Or.inr ⟨hErrors, ?_, ?_⟩
        · rw [reconcileRow, hUpsert, Option.bind_some]
          exact hSync
        · rw [hIds, hNext, upsertStock_nextId hUpsert]
          rfl

theorem processRows_ok (h : processRows T true started st rows = some st')
    (hErrors : st'.summary.errors = []) : st.summary.errors = [] ∧
      rows.foldlM (reconcileRow T started) st.db = some st'.db ∧
      st'.newIds.length + st.db.nextId = st.newIds.length + st'.db.nextId := by
  unfold processRows at h
  induction rows generalizing st with
  | nil =>
      obtain rfl := Option.some.inj h
      exact ⟨hErrors, rfl, rfl⟩
  | cons line rows ih =>
      obtain ⟨st₁, hRow, hRest⟩ := Option.bind_eq_some_iff.mp h
      obtain ⟨hErrors₁, hRun, hIds⟩ := ih hRest
      rcases processRow_cases hRow with ⟨msg, hError⟩ | ⟨hSame, hDb, hDrawn⟩
      · rw [hError] at hErrors₁
        exact absurd hErrors₁ (List.concat_ne_nil msg _)
      · refine ⟨hSame.symm.trans hErrors₁, ?_, by omega⟩
        rw [List.foldlM_cons, hDb]
        exact hRun

end Rows

/-! ## What a row does to its stock -/

/-- What the tables hold of a symbol: the columns of its stock and the time of their update, how many
active rows each of its tags has, and how many rows it has in all. -/
structure View where
  listing : Option (Listing × Nat)
  count : String → Nat
  owned : Nat

def viewOf (db : Db) (symbol : String) : View :=
  match getStockBySymbol db symbol with
  | some s => ⟨some (s.toListing, s.updatedAt), activeCount db.tags s.id, owned db.tags s.id⟩
  | none => ⟨none, fun _ => 0, 0⟩

/-- What a row brings, and the time of its steps. -/
structure Entry where
  data : StockData
  tags : List String
  wall : Nat

def entry (T : CharTables) (line : CsvRow × RowRun) : Entry :=
  ⟨line.1.data T, line.1.tagSet T, line.2.wall⟩

/-- The columns of a stock and their time once an entry has been written onto them. -/
def written (T : CharTables) (started : Nat) (e : Entry) : Option (Listing × Nat) → Listing × Nat
  | none => (e.data.created T, started)
  | some (old, time) => (e.data.onto old, if e.data.onto old = old then time else e.wall)

/-- The view of a symbol after one of its entries. -/
def View.seeded (T : CharTables) (started : Nat) (v : View) (e : Entry) : View where
  listing := some (written T started e v.listing)
  count := if e.tags = [] then v.count else synced e.tags v.count
  owned := if e.tags = [] then v.owned else v.owned + e.tags.countP fun tag => v.count tag = 0

theorem View.seeded_of_nil {T : CharTables} {started : Nat} {v : View} {e : Entry} (h : e.tags = []) :
    v.seeded T started e = ⟨some (written T started e v.listing), v.count, v.owned⟩ := by
  rw [View.seeded, if_pos h, if_pos h]

theorem View.seeded_of_tags {T : CharTables} {started : Nat} {v : View} {e : Entry}
    (h : e.tags ≠ []) : v.seeded T started e =
      ⟨some (written T started e v.listing), synced e.tags v.count,
        v.owned + e.tags.countP fun tag => v.count tag = 0⟩ := by
  rw [View.seeded, if_neg h, if_neg h]

section Views

variable {T : CharTables} {started : Nat} {db db' : Db} {line : CsvRow × RowRun}
variable {stock s : MasterRow} {isNew : Bool} {symbol : String}

theorem viewOf_some (h : getStockBySymbol db symbol = some s) : viewOf db symbol =
    ⟨some (s.toListing, s.updatedAt), activeCount db.tags s.id, owned db.tags s.id⟩ := by
  rw [viewOf, h]

theorem viewOf_none (h : getStockBySymbol db symbol = none) :
    viewOf db symbol = ⟨none, fun _ => 0, 0⟩ := by
  rw [viewOf, h]

/-- The stock of a row, and what is written into it. -/
theorem upsert_view (hValid : Valid db)
    (h : upsertStock T started line.2.wall db (line.1.data T) = some (db', stock, isNew)) :
    getStockBySymbol db' (line.1.data T).symbol = some stock ∧
      (stock.toListing, stock.updatedAt) =
        written T started (entry T line) (viewOf db (line.1.data T).symbol).listing ∧
      activeCount db'.tags stock.id = (viewOf db (line.1.data T).symbol).count ∧
      owned db'.tags stock.id = (viewOf db (line.1.data T).symbol).owned := by
  have hAfter := hValid.upsertStock h
  cases hFind : getStockBySymbol db (line.1.data T).symbol with
  | some existing =>
      obtain ⟨hMem, hSymbol⟩ := (getStockBySymbol_eq_some hValid).mp hFind
      obtain ⟨-, rfl, rfl⟩ := upsertStock_existing hValid hFind h
      rw [viewOf_some hFind]
      have hRow : updatedRow (line.1.data T) line.2.wall existing ∈ db.stocks.map fun s =>
          if s.id = existing.id then updatedRow (line.1.data T) line.2.wall s else s :=
        List.mem_map.mpr ⟨existing, hMem, if_pos rfl⟩
      refine ⟨(getStockBySymbol_eq_some hAfter).mpr ⟨hRow, hSymbol⟩, ?_, rfl, rfl⟩
      rw [updatedRow, written, entry]
  | none =>
      obtain ⟨-, rfl, rfl⟩ := upsertStock_new hFind h
      have hUnowned : ∀ r ∈ db.tags, r.stockId ≠ db.nextId := by
        intro r hr hId
        obtain ⟨s, hMem, hOwner⟩ := hValid.owners r hr
        exact absurd (hOwner.trans hId) (Nat.ne_of_lt (hValid.drawn s hMem))
      rw [viewOf_none hFind]
      refine ⟨(getStockBySymbol_eq_some hAfter).mpr ⟨?_, rfl⟩, rfl, funext fun tag => ?_, ?_⟩
      · exact List.mem_append_right _ (List.mem_singleton_self _)
      · refine List.countP_eq_zero.mpr fun r hr hActive => hUnowned r hr ?_
        rw [Bool.and_eq_true, StockTag.activeFor_iff] at hActive
        exact hActive.1.1
      · exact List.countP_eq_zero.mpr fun r hr hOwner => hUnowned r hr (of_decide_eq_true hOwner)

theorem upsert_other (hValid : Valid db) (hSymbol : symbol ≠ (line.1.data T).symbol)
    (h : upsertStock T started line.2.wall db (line.1.data T) = some (db', stock, isNew)) :
    getStockBySymbol db' symbol = getStockBySymbol db symbol ∧ db'.tags = db.tags := by
  have hAfter := hValid.upsertStock h
  have hMem : ∀ s : MasterRow, s.symbol = symbol → (s ∈ db'.stocks ↔ s ∈ db.stocks) := by
    rintro s rfl
    cases hFind : getStockBySymbol db (line.1.data T).symbol with
    | some existing =>
        obtain ⟨hExisting, hName⟩ := (getStockBySymbol_eq_some hValid).mp hFind
        obtain ⟨-, -, rfl⟩ := upsertStock_existing hValid hFind h
        have hRow : ∀ old : MasterRow, (if old.id = existing.id then
            updatedRow (line.1.data T) line.2.wall old else old).symbol = old.symbol := by
          intro old
          split <;> rfl
        have hOther : ∀ old ∈ db.stocks, old.symbol = s.symbol → old.id ≠ existing.id := by
          intro old hOld hSame hId
          have hEq := List.inj_on_of_nodup_map hValid.ids hOld hExisting hId
          exact hSymbol (by rw [← hSame, hEq, hName])
        constructor
        · intro h
          obtain ⟨old, hOld, rfl⟩ := List.mem_map.mp h
          rw [if_neg (hOther old hOld (hRow old).symm)]
          exact hOld
        · intro h
          exact List.mem_map.mpr ⟨s, h, if_neg (hOther s h rfl)⟩
    | none =>
        obtain ⟨-, rfl, rfl⟩ := upsertStock_new hFind h
        rw [List.mem_append, List.mem_singleton]
        exact or_iff_left fun hEq => hSymbol (by rw [hEq]; rfl)
  refine ⟨Option.ext fun s => ?_, ?_⟩
  · rw [getStockBySymbol_eq_some hAfter, getStockBySymbol_eq_some hValid]
    exact and_congr_left (hMem s)
  · cases hFind : getStockBySymbol db (line.1.data T).symbol with
    | some existing =>
        obtain ⟨-, -, rfl⟩ := upsertStock_existing hValid hFind h
        rfl
    | none =>
        obtain ⟨-, -, rfl⟩ := upsertStock_new hFind h
        rfl

/-- What a row did: an upsert, and a sync of the tags if it has any. -/
theorem reconcileRow_cases (h : reconcileRow T started db line = some db') :
    ∃ db₁ stock isNew,
      upsertStock T started line.2.wall db (line.1.data T) = some (db₁, stock, isNew) ∧
      (line.1.tagSet T = [] ∧ db' = db₁ ∨ line.1.tagSet T ≠ [] ∧ ∃ tags added removed,
        syncTags db₁.tags stock.id (line.1.tagSet T) started line.2.wall =
          some (tags, added, removed) ∧ db' = { db₁ with tags := tags }) := by
  obtain ⟨⟨db₁, stock, isNew⟩, hUpsert, hRest⟩ := Option.bind_eq_some_iff.mp h
  refine ⟨db₁, stock, isNew, hUpsert, ?_⟩
  split at hRest
  · rename_i hNil
    exact Or.inl ⟨hNil, (Option.some.inj hRest).symm⟩
  · rename_i hTags
    obtain ⟨⟨tags, added, removed⟩, hSync, rfl⟩ := Option.map_eq_some_iff.mp hRest
    exact Or.inr ⟨hTags, tags, added, removed, hSync, rfl⟩

theorem CsvRow.nodup_tagSet (row : CsvRow) : (row.tagSet T).Nodup := List.nodup_dedup _

theorem keyedStep_reconcileRow : KeyedStep (reconcileRow T started)
    (fun line => (line.1.data T).symbol) viewOf (fun v line => v.seeded T started (entry T line))
    Valid where
  inv := by
    intro db db' line hValid h
    obtain ⟨db₁, stock, isNew, hUpsert, ⟨-, rfl⟩ | ⟨-, tags, added, removed, hSync, rfl⟩⟩ :=
      reconcileRow_cases h
    · exact hValid.upsertStock hUpsert
    · have hAfter := hValid.upsertStock hUpsert
      refine ⟨hAfter.symbols, hAfter.ids, hAfter.drawn, ?_, hAfter.positive, hAfter.cursorNames⟩
      intro r hr
      rcases owner_of_mem_syncTags hr hSync with hOwner | ⟨old, hOld, hOwner⟩
      · have hStock := (getStockBySymbol_eq_some hAfter).mp (upsert_view hValid hUpsert).1
        exact ⟨stock, hStock.1, hOwner.symm⟩
      · obtain ⟨s, hMem, hId⟩ := hAfter.owners old hOld
        exact ⟨s, hMem, hId.trans hOwner⟩
  same := by
    intro db db' line hValid h
    obtain ⟨db₁, stock, isNew, hUpsert, hRest⟩ := reconcileRow_cases h
    obtain ⟨hFind, hListing, hCount, hOwned⟩ := upsert_view hValid hUpsert
    rcases hRest with ⟨hNil, rfl⟩ | ⟨hTags, tags, added, removed, hSync, rfl⟩
    · have hNil' : (entry T line).tags = [] := hNil
      rw [viewOf_some hFind, View.seeded_of_nil hNil', hListing, hCount, hOwned]
    · have hFind' : getStockBySymbol { db₁ with tags := tags } (line.1.data T).symbol =
          some stock := hFind
      have hSynced : activeCount tags stock.id =
          synced (line.1.tagSet T) (activeCount db₁.tags stock.id) :=
        funext (activeCount_syncTags (CsvRow.nodup_tagSet _) hSync)
      have hTags' : (entry T line).tags ≠ [] := hTags
      rw [viewOf_some hFind', View.seeded_of_tags hTags', hListing, ← hCount, ← hOwned,
        hSynced, owned_syncTags hSync, entry]
  other := by
    intro db db' line symbol hValid h hSymbol
    obtain ⟨db₁, stock, isNew, hUpsert, hRest⟩ := reconcileRow_cases h
    obtain ⟨hSame, hTags⟩ := upsert_other hValid hSymbol hUpsert
    have hView : viewOf db₁ symbol = viewOf db symbol := by rw [viewOf, hSame, hTags, viewOf]
    rcases hRest with ⟨-, rfl⟩ | ⟨-, tags, added, removed, hSync, rfl⟩
    · exact hView
    · refine Eq.trans ?_ hView
      have hAfter := hValid.upsertStock hUpsert
      obtain ⟨-, hStock⟩ := (getStockBySymbol_eq_some hAfter).mp (upsert_view hValid hUpsert).1
      cases hFind : getStockBySymbol db₁ symbol with
      | none =>
          have hFind' : getStockBySymbol { db₁ with tags := tags } symbol = none := hFind
          rw [viewOf_none hFind, viewOf_none hFind']
      | some s =>
          have hFind' : getStockBySymbol { db₁ with tags := tags } symbol = some s := hFind
          obtain ⟨hMem, rfl⟩ := (getStockBySymbol_eq_some hAfter).mp hFind
          -- another symbol has another stock, which has another id
          have hId : s.id ≠ stock.id := by
            intro hId
            have hEq := List.inj_on_of_nodup_map hAfter.ids hMem
              ((getStockBySymbol_eq_some hAfter).mp (upsert_view hValid hUpsert).1).1 hId
            exact hSymbol (by rw [hEq, hStock])
          obtain ⟨hCount, hOwned⟩ := syncTags_other hId hSync
          rw [viewOf_some hFind, viewOf_some hFind', hCount, hOwned]

end Views

end AsetPlatform.Ingestion.SeedUniverse
