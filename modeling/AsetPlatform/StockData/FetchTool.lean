import AsetPlatform.Library.Run
import AsetPlatform.StockData.InsertOhlcv

/-!
# The chat's price fetch

`fetch_stock_data` of `backend/tools/stock_data_tool.py`. A ticker that the registry does not know is
fetched in full: the registry entry is written first and the prices are inserted afterwards. One that
it knows is fetched from the day after its entry's end date, inserted, read back, and then registered
with the range of all its stored days.

`final` gives the rows of the source once their day is over. The row of the running day is part of the
call and may be any, or none.

`World.since` is no part of the program. It remembers the first day asked for by the fetch that put a
ticker on the registry.

`exact_of_settled` says which runs of calls keep the registry from running ahead, and leave the stored
rows as the source has them whenever a call reports that they are.
-/

set_option autoImplicit false

namespace AsetPlatform.StockData.FetchTool

open AsetPlatform.Library

universe u

variable {P : Type u}

/-! ## The tool -/

/-- `date_range_start` and `date_range_end` of a registry entry. -/
structure Entry where
  start : Nat
  stop : Nat
  deriving DecidableEq, Repr

structure World (P : Type u) where
  today : Nat := 0
  rows : List (OhlcvRow P) := []
  registry : String → Option Entry := fun _ => none
  since : String → Option Nat := fun _ => none

/-- What is got of a request that may fail, or come back empty. -/
inductive Read where
  | rows
  | empty
  | raises
  deriving DecidableEq, Repr

/-- What goes wrong in a call. `check` is the lookup of the registry entry. -/
structure Faults where
  check : Bool := false
  history : Read := .rows
  parquet : Bool := false
  insert : InsertFaults := {}
  readBack : Read := .rows
  registry : Commit := .done

/-- A call: the days that passed since the last one, the first day of the period, and the row of the
running day as the source shows it. -/
structure Call (P : Type u) where
  wait : Nat := 0
  ticker : String
  first : Nat
  running : Option (Option P) := none
  faults : Faults := {}

/-- What the tool answers. -/
inductive Report where
  | error
  | full
  | upToDate
  | noNewData
  | delta
  deriving DecidableEq, Repr

/-- A full fetch, a delta fetch or "up to date". -/
def Report.good : Report → Bool
  | .error => false
  | .full => true
  | .upToDate => true
  | .noNewData => false
  | .delta => true

section Fetch

variable (final : String → Nat → Option (Option P)) (w : World P) (c : Call P)

/-- The rows the source shows from a day on. -/
def history (start : Nat) : List (Nat × Option P) :=
  match c.faults.history with
  | .rows => (List.range (w.today + 1)).filterMap fun day =>
      if start ≤ day then
        (if day < w.today then final c.ticker day else c.running).map fun close => (day, close)
      else none
  | .empty => []
  | .raises => []

/-- `_check_existing_data` -/
def existing : Option Entry := if c.faults.check then none else w.registry c.ticker

def rangeOf (days : List Nat) : Option Entry :=
  match days.min?, days.max? with
  | some start, some stop => some ⟨start, stop⟩
  | _, _ => none

/-- `_update_registry` with the range of some days, and whether it raised. -/
def updateRegistry (w : World P) (ticker : String) (days : List Nat) (commit : Commit) :
    World P × Bool :=
  match commit with
  | .done => ({ w with registry := Function.update w.registry ticker (rangeOf days) }, false)
  | .refused => (w, true)
  -- the commit went through and the answer did not arrive
  | .lost => ({ w with registry := Function.update w.registry ticker (rangeOf days) }, true)

/-- The branch without a registry entry. -/
def fullFetch : World P × Report :=
  let df := history final w c c.first
  if c.faults.history = .raises ∨ df = [] ∨ c.faults.parquet then (w, .error)
  else
    -- the registry entry comes before the prices
    let (w', raised) := updateRegistry w c.ticker (df.map Prod.fst) c.faults.registry
    if raised then (w', .error)
    else
      let (rows, raised) := insertOhlcv w'.rows c.ticker df c.faults.insert
      ({ w' with rows := rows }, if raised then .error else .full)

/-- `ice_df`: the days of the ticker that are read back. -/
def readBack (w : World P) (c : Call P) : List Nat :=
  match c.faults.readBack with
  | .rows => (w.rows.filter (·.ticker = c.ticker)).map OhlcvRow.date
  | .empty => []
  | .raises => []

/-- The days to register: those read back, or those of the new rows when there are none. -/
def registeredDays (w : World P) (c : Call P) (df : List (Nat × Option P)) : List Nat :=
  if readBack w c = [] then df.map Prod.fst else readBack w c

/-- The branch with a registry entry. -/
def deltaFetch (entry : Entry) : World P × Report :=
  let fetchStart := entry.stop + 1
  -- only the registry's end date is looked at, not the stored prices
  if w.today < fetchStart then (w, .upToDate)
  else if c.faults.history = .raises then (w, .error)
  else
    let df := history final w c fetchStart
    if df = [] then (w, .noNewData)
    else
      let (rows, raised) := insertOhlcv w.rows c.ticker df c.faults.insert
      let w' := { w with rows := rows }
      if raised ∨ c.faults.readBack = .raises ∨ c.faults.parquet then (w', .error)
      else
        let (w', raised) :=
          updateRegistry w' c.ticker (registeredDays w' c df) c.faults.registry
        (w', if raised then .error else .delta)

/-- `fetch_stock_data` -/
def fetchStockData : World P × Report :=
  match existing w c with
  | none => fullFetch final w c
  | some entry => deltaFetch final w c entry

/-- The days that pass before a call. -/
def arrive : World P := { w with today := w.today + c.wait }

/-- The first day that was asked for of the ticker, once it is on the registry. -/
def noteStart (w : World P) : World P :=
  if (w.registry c.ticker).isSome then
    { w with
      since := Function.update w.since c.ticker (some ((w.since c.ticker).getD c.first)) }
  else w

def step : World P := noteStart c (fetchStockData final (arrive w c) c).1

end Fetch

/-! ## What is promised, and when -/

section Promise

variable (final : String → Nat → Option (Option P)) (w : World P) (c : Call P)

/-- No end date is later than the ticker's newest stored day. -/
def NotAhead (w : World P) : Prop :=
  ∀ ticker entry, w.registry ticker = some entry →
    ∃ day, entry.stop ≤ day ∧ (ticker, day) ∈ storedKeys w.rows

/-- The rows of a ticker before a day are the final ones. -/
def Exact (w : World P) (ticker : String) : Prop :=
  ∀ start ∈ w.since ticker, ∀ day, start ≤ day → day < w.today →
    w.rows.filter (·.key = (ticker, day)) =
      (final ticker day).toList.map fun close => ⟨ticker, day, close⟩

/-- After the call the registry is not ahead, and if the report is good the rows are exact. -/
def Promised : Prop :=
  NotAhead (step final w c) ∧
    ((fetchStockData final (arrive w c) c).2.good = true → Exact final (step final w c) c.ticker)

/-- The rows that a call gets from the source. -/
def fetched : List (Nat × Option P) :=
  match existing w c with
  | none => history final w c c.first
  | some entry => history final w c (entry.stop + 1)

/-- A full fetch gets as far as to the registry. -/
def Registers : Prop :=
  existing w c = none ∧ fetched final w c ≠ [] ∧ c.faults.parquet = false ∧
    c.faults.registry ≠ .refused

/-- The fetched rows are appended, as far as they are new. -/
def Appends : Prop :=
  fetched final w c ≠ [] ∧
    (existing w c = none → c.faults.parquet = false ∧ c.faults.registry = .done) ∧
    c.faults.insert.read = false ∧ c.faults.insert.append ≠ .refused

instance : Decidable (Registers final w c) := inferInstanceAs (Decidable (_ ∧ _ ∧ _ ∧ _))

instance : Decidable (Appends final w c) := inferInstanceAs (Decidable (_ ∧ _ ∧ _ ∧ _))

/-- What is inserted of the running day is final. -/
def RunningFinal : Prop :=
  Appends final w c → ∀ close ∈ c.running,
    final c.ticker w.today = some close ∨ (c.ticker, w.today) ∈ closedKeys w.rows

/-- Rows without a close that are fetched again get deleted. -/
def NullsReplaced : Prop :=
  Appends final w c → c.faults.insert.nullDelete = true →
    ∀ r ∈ filtered w.rows c.ticker (fetched final w c), r.key ∉ storedKeys w.rows

/-- When a full fetch has put the ticker on the registry, and the insert is not reached or its read
fails, there is nothing to insert. -/
def InsertReached : Prop :=
  Registers final w c → c.faults.registry = .lost ∨ c.faults.insert.read = true →
    ∀ row ∈ fetched final w c, (c.ticker, row.1) ∈ storedKeys w.rows

/-- Nor is there when its append is refused. -/
def InsertAppended : Prop :=
  Registers final w c → c.faults.insert.append = .refused →
    ∀ row ∈ fetched final w c, (c.ticker, row.1) ∈ closedKeys w.rows

/-- A full fetch of a ticker on the registry leaves out no day after its end date, but stored ones. -/
def Joined : Prop :=
  Registers final w c → ∀ entry ∈ w.registry c.ticker,
    ∀ day < c.first, entry.stop < day ∧ (final c.ticker day).isSome →
      (c.ticker, day) ∈ storedKeys w.rows

structure Settled : Prop where
  running : RunningFinal final w c
  nulls : NullsReplaced final w c
  inserted : InsertReached final w c
  appended : InsertAppended final w c
  joined : Joined final w c

/-- The call is settled when it is made. -/
def Careful : Prop := Settled final (arrive w c) c

section Decidable

variable [DecidableEq P]

instance : Decidable (RunningFinal final w c) := by
  unfold RunningFinal
  infer_instance

instance : Decidable (NullsReplaced final w c) := by
  unfold NullsReplaced
  infer_instance

instance : Decidable (InsertReached final w c) := by
  unfold InsertReached
  infer_instance

instance : Decidable (InsertAppended final w c) := by
  unfold InsertAppended
  infer_instance

instance : Decidable (Joined final w c) := by
  unfold Joined
  exact @instDecidableForall _ _ inferInstance inferInstance

instance : Decidable (Settled final w c) :=
  decidable_of_iff (RunningFinal final w c ∧ NullsReplaced final w c ∧ InsertReached final w c ∧
      InsertAppended final w c ∧ Joined final w c)
    ⟨fun ⟨running, nulls, inserted, appended, joined⟩ =>
        ⟨running, nulls, inserted, appended, joined⟩,
      fun h => ⟨h.running, h.nulls, h.inserted, h.appended, h.joined⟩⟩

instance : Decidable (Careful final w c) := inferInstanceAs (Decidable (Settled _ _ _))

end Decidable

end Promise

/-! ## What a call does -/

section Outcome

variable (final : String → Nat → Option (Option P)) (w : World P) (c : Call P)

def insertedRows : List (OhlcvRow P) :=
  (insertOhlcv w.rows c.ticker (fetched final w c) c.faults.insert).1

/-- The world after a registry update. -/
def registered (w : World P) (ticker : String) (days : List Nat) : World P :=
  { w with registry := Function.update w.registry ticker (rangeOf days) }

/-- The outcomes of a call, with their reports. -/
inductive Outcome : World P × Report → Prop
  | idle {report : Report} (hreport : report.good = false) : Outcome (w, report)
  | upToDate {entry : Entry} (hentry : existing w c = some entry) (hstop : w.today ≤ entry.stop) :
      Outcome (w, .upToDate)
  | lost (h : Registers final w c) (hlost : c.faults.registry = .lost) :
      Outcome (registered w c.ticker ((fetched final w c).map Prod.fst), .error)
  | full (h : Registers final w c) (hdone : c.faults.registry = .done) (report : Report) :
      Outcome ({ registered w c.ticker ((fetched final w c).map Prod.fst) with
        rows := insertedRows final w c }, report)
  | inserted {entry : Entry} (hentry : existing w c = some entry) (hstop : entry.stop < w.today)
      (hdf : fetched final w c ≠ []) :
      Outcome ({ w with rows := insertedRows final w c }, .error)
  | delta {entry : Entry} (hentry : existing w c = some entry) (hstop : entry.stop < w.today)
      (hdf : fetched final w c ≠ [])
      (hraised : (insertOhlcv w.rows c.ticker (fetched final w c) c.faults.insert).2 = false)
      (report : Report) :
      Outcome (registered { w with rows := insertedRows final w c } c.ticker
        (registeredDays { w with rows := insertedRows final w c } c (fetched final w c)), report)

variable {final w c}

theorem fullFetch_outcome (hentry : existing w c = none) :
    Outcome final w c (fullFetch final w c) := by
  have hfetched : fetched final w c = history final w c c.first := by
    rw [fetched, hentry]
  rw [fullFetch, ← hfetched]
  by_cases hnothing : c.faults.history = .raises ∨ fetched final w c = [] ∨
      c.faults.parquet = true
  · rw [if_pos hnothing]
    exact .idle rfl
  rw [if_neg hnothing]
  rw [not_or, not_or, Bool.not_eq_true] at hnothing
  obtain ⟨-, hdf, hparquet⟩ := hnothing
  -- whatever the insert does from here on, the ticker is on the registry
  cases hcommit : c.faults.registry with
  | refused => exact .idle rfl
  | lost => exact .lost ⟨hentry, hdf, hparquet, by simp [hcommit]⟩ hcommit
  | done => exact .full ⟨hentry, hdf, hparquet, by simp [hcommit]⟩ hcommit _

theorem deltaFetch_outcome {entry : Entry} (hentry : existing w c = some entry) :
    Outcome final w c (deltaFetch final w c entry) := by
  have hfetched : fetched final w c = history final w c (entry.stop + 1) := by
    rw [fetched, hentry]
  rw [deltaFetch, ← hfetched]
  simp only
  by_cases hlate : w.today < entry.stop + 1
  · rw [if_pos hlate]
    exact .upToDate hentry (Nat.lt_succ_iff.mp hlate)
  rw [if_neg hlate]
  have hstop : entry.stop < w.today := Nat.not_lt.mp hlate
  by_cases hhistory : c.faults.history = .raises
  · rw [if_pos hhistory]
    exact .idle rfl
  rw [if_neg hhistory]
  by_cases hdf : fetched final w c = []
  · rw [if_pos hdf]
    exact .idle rfl
  rw [if_neg hdf]
  split
  · exact .inserted hentry hstop hdf
  next hgood =>
  rw [not_or, Bool.not_eq_true] at hgood
  cases hcommit : c.faults.registry with
  | refused => exact .inserted hentry hstop hdf
  | lost => exact .delta hentry hstop hdf hgood.1 _
  | done => exact .delta hentry hstop hdf hgood.1 _

theorem fetch_outcome : Outcome final w c (fetchStockData final w c) := by
  rw [fetchStockData]
  cases hentry : existing w c with
  | none => exact fullFetch_outcome hentry
  | some entry => exact deltaFetch_outcome hentry

end Outcome

/-! ## What is got of the source -/

section History

variable {final : String → Nat → Option (Option P)} {w : World P} {c : Call P} {start day : Nat}

/-- What the source shows of a day. -/
def shown (final : String → Nat → Option (Option P)) (w : World P) (c : Call P) (day : Nat) :
    Option (Option P) :=
  if day < w.today then final c.ticker day else c.running

theorem history_eq (h : history final w c start ≠ []) :
    history final w c start = (List.range (w.today + 1)).filterMap fun day =>
      if start ≤ day then (shown final w c day).map fun close => (day, close) else none := by
  rw [history] at h ⊢
  cases hread : c.faults.history with
  | rows => rfl
  | empty => simp [hread] at h
  | raises => simp [hread] at h

theorem mem_history {row : Nat × Option P} (h : history final w c start ≠ []) :
    row ∈ history final w c start ↔
      row.1 ≤ w.today ∧ start ≤ row.1 ∧ shown final w c row.1 = some row.2 := by
  rw [history_eq h, List.mem_filterMap]
  constructor
  · rintro ⟨day, hday, hrow⟩
    by_cases hstart : start ≤ day
    · rw [if_pos hstart, Option.map_eq_some_iff] at hrow
      obtain ⟨close, hclose, rfl⟩ := hrow
      exact ⟨Nat.lt_succ_iff.mp (List.mem_range.mp hday), hstart, hclose⟩
    · rw [if_neg hstart] at hrow
      cases hrow
  · rintro ⟨htoday, hstart, hshown⟩
    refine ⟨row.1, List.mem_range.mpr (Nat.lt_succ_iff.mpr htoday), ?_⟩
    rw [if_pos hstart, hshown]
    rfl

theorem nodup_history : ((history final w c start).map Prod.fst).Nodup := by
  by_cases h : history final w c start = []
  · rw [h]
    exact List.nodup_nil
  rw [history_eq h, List.Nodup, List.pairwise_map, List.pairwise_filterMap]
  apply List.Pairwise.imp _ List.nodup_range
  -- a row carries its day, so rows of different days differ
  intro day day' hne row hrow row' hrow'
  have hfst : ∀ {day row}, (if start ≤ day then
      (shown final w c day).map fun close => (day, close) else none) = some row → row.1 = day := by
    intro day row hrow
    split at hrow
    · obtain ⟨close, -, rfl⟩ := Option.map_eq_some_iff.mp hrow
      rfl
    · cases hrow
  rw [hfst hrow, hfst hrow']
  exact hne

/-- The first day that a call asks for. -/
def asked (w : World P) (c : Call P) : Nat :=
  match existing w c with
  | none => c.first
  | some entry => entry.stop + 1

theorem fetched_eq : fetched final w c = history final w c (asked w c) := by
  rw [fetched, asked]
  cases existing w c with
  | none => rfl
  | some entry => rfl

theorem mem_fetched {row : Nat × Option P} (h : fetched final w c ≠ []) :
    row ∈ fetched final w c ↔
      row.1 ≤ w.today ∧ asked w c ≤ row.1 ∧ shown final w c row.1 = some row.2 := by
  rw [fetched_eq] at h ⊢
  exact mem_history h

end History

/-! ## Rows -/

/-- All rows are final and of days that have come, and there is one for a ticker and day. -/
structure RowsSound (final : String → Nat → Option (Option P)) (today : Nat)
    (rows : List (OhlcvRow P)) : Prop where
  is_final : ∀ r ∈ rows, final r.ticker r.date = some r.close
  le_today : ∀ r ∈ rows, r.date ≤ today
  nodup : (storedKeys rows).Nodup

/-- The days of a ticker from a start to before a stop are stored. -/
def Filled (final : String → Nat → Option (Option P)) (rows : List (OhlcvRow P)) (ticker : String)
    (start stop : Nat) : Prop :=
  ∀ day, start ≤ day → day < stop → (final ticker day).isSome → (ticker, day) ∈ storedKeys rows

section Rows

variable {final : String → Nat → Option (Option P)} {w : World P} {c : Call P} {start : Nat}

/-- Sound rows are exact where they are filled. -/
theorem RowsSound.filter_eq {today : Nat} {rows : List (OhlcvRow P)}
    (h : RowsSound final today rows) {ticker : String} {day : Nat}
    (hstored : (final ticker day).isSome → (ticker, day) ∈ storedKeys rows) :
    rows.filter (·.key = (ticker, day)) =
      (final ticker day).toList.map fun close => ⟨ticker, day, close⟩ := by
  cases hfinal : final ticker day with
  | none =>
    rw [Option.toList_none, List.map_nil, List.filter_eq_nil_iff]
    intro r hr hkey
    obtain ⟨rfl, rfl⟩ := Prod.mk.inj (of_decide_eq_true hkey)
    exact absurd ((h.is_final r hr).symm.trans hfinal) (by simp)
  | some close =>
    obtain ⟨r, hr, hkey⟩ := mem_storedKeys.mp (hstored (by simp [hfinal]))
    obtain ⟨rfl, rfl⟩ := Prod.mk.inj hkey
    obtain rfl := Option.some.inj ((h.is_final r hr).symm.trans hfinal)
    exact filter_key_eq h.nodup hr

theorem RowsSound.insert (h : RowsSound final w.today w.rows) (hsettled : Settled final w c)
    (hdf : fetched final w c ≠ [])
    (hreached : existing w c = none → c.faults.parquet = false ∧ c.faults.registry = .done) :
    RowsSound final w.today (insertedRows final w c) := by
  -- what is new is shown by the source, and what it shows of the running day is final
  have hnew : ∀ r ∈ insertedRows final w c, r ∈ w.rows ∨
      r.date ≤ w.today ∧ final r.ticker r.date = some r.close := by
    intro r hr
    rcases mem_insertOhlcv hr with hold | ⟨hread, happend, hfiltered⟩
    · exact Or.inl hold
    right
    obtain ⟨hticker, hrow, hkey⟩ := mem_filtered.mp hfiltered
    obtain ⟨hday, -, hshown⟩ := (mem_fetched hdf).mp hrow
    refine ⟨hday, ?_⟩
    rw [hticker]
    rw [shown] at hshown
    by_cases hpast : r.date < w.today
    · rw [if_pos hpast] at hshown
      exact hshown
    · rw [if_neg hpast] at hshown
      have htoday : r.date = w.today := Nat.le_antisymm hday (Nat.not_lt.mp hpast)
      rcases hsettled.running ⟨hdf, hreached, hread, happend⟩ r.close hshown with hfinal | hclosed
      · rw [htoday]
        exact hfinal
      · rw [← hticker, ← htoday] at hclosed
        exact absurd hclosed hkey
  refine ⟨?_, ?_, ?_⟩
  · intro r hr
    exact (hnew r hr).elim (h.is_final r) And.right
  · intro r hr
    exact (hnew r hr).elim (h.le_today r) And.left
  · apply nodup_storedKeys_insertOhlcv h.nodup
    · rw [fetched_eq]
      exact nodup_history
    · intro hread happend hfails
      exact hsettled.nulls ⟨hdf, hreached, hread, happend⟩ hfails

theorem filled_of_fetched {rows : List (OhlcvRow P)} (hdf : fetched final w c ≠ [])
    (h : ∀ row ∈ fetched final w c, (c.ticker, row.1) ∈ storedKeys rows) :
    Filled final rows c.ticker (asked w c) w.today := by
  intro day hstart hday hfinal
  obtain ⟨close, hclose⟩ := Option.isSome_iff_exists.mp hfinal
  apply h (day, close)
  refine (mem_fetched hdf).mpr ⟨Nat.le_of_lt hday, hstart, ?_⟩
  rw [shown, if_pos hday]
  exact hclose

end Rows

/-! ## The registry -/

/-- The rows are sound, the tickers on the registry are those with a first day, their end dates are
stored, and so are the days before. -/
structure Sound (final : String → Nat → Option (Option P)) (w : World P) : Prop where
  rows : RowsSound final w.today w.rows
  known : ∀ ticker, (w.registry ticker).isSome = (w.since ticker).isSome
  stop_stored : ∀ {ticker entry}, w.registry ticker = some entry →
    (ticker, entry.stop) ∈ storedKeys w.rows
  filled : ∀ {ticker entry start}, w.registry ticker = some entry → w.since ticker = some start →
    Filled final w.rows ticker start entry.stop

section Registry

variable {final : String → Nat → Option (Option P)} {w w' : World P} {c : Call P}

/-- The first day of the ticker that a call is about, once it is noted. -/
def startOf (w : World P) (c : Call P) : Nat := (w.since c.ticker).getD c.first

theorem existing_eq_some {entry : Entry} (h : existing w c = some entry) :
    w.registry c.ticker = some entry := by
  rw [existing] at h
  split at h
  · cases h
  · exact h

theorem Sound.filled_start (h : Sound final w) {entry : Entry}
    (hentry : w.registry c.ticker = some entry) :
    Filled final w.rows c.ticker (startOf w c) entry.stop := by
  have hknown := h.known c.ticker
  rw [hentry] at hknown
  obtain ⟨start, hsince⟩ := Option.isSome_iff_exists.mp hknown.symm
  rw [startOf, hsince]
  exact h.filled hentry hsince

theorem rangeOf_ne_nil {days : List Nat} (h : days ≠ []) :
    ∃ entry, rangeOf days = some entry ∧ entry.stop ∈ days := by
  rw [rangeOf]
  cases hmin : days.min? with
  | none => exact absurd (List.min?_eq_none_iff.mp hmin) h
  | some start =>
    cases hmax : days.max? with
    | none => exact absurd (List.max?_eq_none_iff.mp hmax) h
    | some stop => exact ⟨⟨start, stop⟩, rfl, List.max?_mem hmax⟩

theorem Filled.mono {rows rows' : List (OhlcvRow P)} {ticker : String} {start stop stop' : Nat}
    (h : Filled final rows ticker start stop) (hrows : storedKeys rows ⊆ storedKeys rows')
    (hstop : stop' ≤ stop) : Filled final rows' ticker start stop' :=
  fun day hstart hday hfinal => hrows (h day hstart (Nat.lt_of_lt_of_le hday hstop) hfinal)

theorem Filled.join {rows : List (OhlcvRow P)} {ticker : String} {start middle stop : Nat}
    (h : Filled final rows ticker start middle) (hmiddle : (ticker, middle) ∈ storedKeys rows)
    (h' : Filled final rows ticker (middle + 1) stop) : Filled final rows ticker start stop := by
  intro day hstart hday hfinal
  rcases Nat.lt_trichotomy day middle with hlt | rfl | hgt
  · exact h day hstart hlt hfinal
  · exact hmiddle
  · exact h' day hgt hday hfinal

theorem noteStart_since_of_ne {ticker : String} (h : ticker ≠ c.ticker) :
    (noteStart c w).since ticker = w.since ticker := by
  rw [noteStart]
  split
  · exact Function.update_of_ne h _ _
  · rfl

theorem noteStart_rest :
    (noteStart c w).today = w.today ∧ (noteStart c w).rows = w.rows ∧
      (noteStart c w).registry = w.registry := by
  rw [noteStart]
  split
  · exact ⟨rfl, rfl, rfl⟩
  · exact ⟨rfl, rfl, rfl⟩

theorem noteStart_since_eq {start : Nat} (h : (noteStart c w).since c.ticker = some start) :
    start = startOf w c := by
  rw [noteStart] at h
  split at h
  · simp only [Function.update_self] at h
    exact (Option.some.inj h).symm
  · rw [startOf, h]
    rfl

theorem noteStart_isSome (h : (w.since c.ticker).isSome → (w.registry c.ticker).isSome) :
    (w.registry c.ticker).isSome = ((noteStart c w).since c.ticker).isSome := by
  rw [noteStart]
  by_cases hregistry : (w.registry c.ticker).isSome = true
  · rw [if_pos hregistry, hregistry]
    simp only [Function.update_self]
    rfl
  · rw [if_neg hregistry]
    rw [Bool.eq_iff_iff]
    exact iff_of_false hregistry (mt h hregistry)

/-- A call that leaves other tickers alone keeps a sound world sound if it does so for its own. -/
theorem Sound.noteStart (h : Sound final w) (htoday : w'.today = w.today)
    (hsince : w'.since = w.since) (hrows : RowsSound final w.today w'.rows)
    (hothers : ∀ ticker, ticker ≠ c.ticker → w'.registry ticker = w.registry ticker ∧
      ∀ day, (ticker, day) ∈ storedKeys w.rows → (ticker, day) ∈ storedKeys w'.rows)
    (hgrows : (w.registry c.ticker).isSome → (w'.registry c.ticker).isSome)
    (hown : ∀ entry, w'.registry c.ticker = some entry →
      (c.ticker, entry.stop) ∈ storedKeys w'.rows ∧
        Filled final w'.rows c.ticker (startOf w c) entry.stop) :
    Sound final (noteStart c w') := by
  obtain ⟨htoday', hrows', hregistry'⟩ := noteStart_rest (c := c) (w := w')
  refine ⟨?_, ?_, ?_, ?_⟩
  · rw [htoday', hrows', htoday]
    exact hrows
  · intro ticker
    rw [hregistry']
    by_cases hticker : ticker = c.ticker
    · subst hticker
      apply noteStart_isSome
      rw [hsince, ← h.known]
      exact hgrows
    · rw [noteStart_since_of_ne hticker, (hothers ticker hticker).1, hsince]
      exact h.known ticker
  · intro ticker entry hentry
    rw [hregistry'] at hentry
    rw [hrows']
    by_cases hticker : ticker = c.ticker
    · subst hticker
      exact (hown entry hentry).1
    · obtain ⟨hregistry, hkept⟩ := hothers ticker hticker
      exact hkept _ (h.stop_stored (hregistry ▸ hentry))
  · intro ticker entry start hentry hstart
    rw [hregistry'] at hentry
    rw [hrows']
    by_cases hticker : ticker = c.ticker
    · subst hticker
      rw [noteStart_since_eq hstart, startOf, hsince]
      exact (hown entry hentry).2
    · obtain ⟨hregistry, hkept⟩ := hothers ticker hticker
      rw [noteStart_since_of_ne hticker, hsince] at hstart
      intro day hle hlt hfinal
      exact hkept day (h.filled (hregistry ▸ hentry) hstart day hle hlt hfinal)

theorem others_kept {ticker : String} (h : ticker ≠ c.ticker) (day : Nat)
    (hday : (ticker, day) ∈ storedKeys w.rows) :
    (ticker, day) ∈ storedKeys (insertedRows final w c) := by
  apply mem_storedKeys_insertOhlcv hday
  intro _ _ hmem
  obtain ⟨r, hr, hkey⟩ := mem_storedKeys.mp hmem
  apply h
  rw [← (mem_filtered.mp hr).1]
  exact (congrArg Prod.fst hkey).symm

theorem filtered_eq_nil {t : List (OhlcvRow P)} {ticker : String} {df : List (Nat × Option P)}
    (h : ∀ row ∈ df, (ticker, row.1) ∈ closedKeys t) : filtered t ticker df = [] := by
  rw [List.eq_nil_iff_forall_not_mem]
  intro r hr
  obtain ⟨hticker, hrow, hnew⟩ := mem_filtered.mp hr
  apply hnew
  rw [OhlcvRow.key, hticker]
  exact h _ hrow

theorem Settled.full_stores (h : Settled final w c) (hregisters : Registers final w c) :
    (∀ row ∈ fetched final w c, (c.ticker, row.1) ∈ storedKeys (insertedRows final w c)) ∧
      storedKeys w.rows ⊆ storedKeys (insertedRows final w c) := by
  by_cases hread : c.faults.insert.read = true
  · rcases insertOhlcv_cases w.rows c.ticker (fetched final w c) c.faults.insert with
      ⟨heq, -⟩ | ⟨hnot, -⟩
    · rw [insertedRows, heq]
      exact ⟨h.inserted hregisters (Or.inr hread), List.Subset.refl _⟩
    · exact absurd hread (by simp [hnot])
  · apply insertOhlcv_stores
    rw [Bool.not_eq_true] at hread
    by_cases happend : c.faults.insert.append = .refused
    · exact Or.inr (filtered_eq_nil (h.appended hregisters happend))
    · exact Or.inl ⟨hread, happend⟩

/-- And so it is filled from the ticker's first day on. -/
theorem Sound.full_filled (h : Sound final w) (hsettled : Settled final w c)
    (hregisters : Registers final w c) {rows : List (OhlcvRow P)}
    (hstored : ∀ row ∈ fetched final w c, (c.ticker, row.1) ∈ storedKeys rows)
    (hkept : storedKeys w.rows ⊆ storedKeys rows) :
    Filled final rows c.ticker (startOf w c) w.today := by
  have hasked : asked w c = c.first := by
    rw [asked, hregisters.1]
  have hfilled := filled_of_fetched hregisters.2.1 hstored
  rw [hasked] at hfilled
  intro day hstart hday hfinal
  by_cases hfirst : c.first ≤ day
  · exact hfilled day hfirst hday hfinal
  rw [Nat.not_le] at hfirst
  cases hsince : w.since c.ticker with
  | none =>
    rw [startOf, hsince] at hstart
    exact absurd hstart (Nat.not_le.mpr hfirst)
  | some start =>
    rw [startOf, hsince] at hstart
    have hregistry := h.known c.ticker
    rw [hsince] at hregistry
    obtain ⟨entry, hentry⟩ := Option.isSome_iff_exists.mp hregistry
    apply hkept
    -- the ticker was known once; its entry could not be read, and the fetch began later
    rcases Nat.lt_trichotomy day entry.stop with hlt | rfl | hgt
    · exact h.filled hentry hsince day hstart hlt hfinal
    · exact h.stop_stored hentry
    · exact hsettled.joined hregisters entry hentry day hfirst ⟨hgt, hfinal⟩

/-- A delta fetch that stores what it fetched fills the days up to the running one. -/
theorem Sound.delta_filled (h : Sound final w) {entry : Entry}
    (hentry : existing w c = some entry) (hdf : fetched final w c ≠ [])
    {rows : List (OhlcvRow P)}
    (hstored : ∀ row ∈ fetched final w c, (c.ticker, row.1) ∈ storedKeys rows)
    (hkept : storedKeys w.rows ⊆ storedKeys rows) :
    Filled final rows c.ticker (startOf w c) w.today := by
  have hasked : asked w c = entry.stop + 1 := by
    rw [asked, hentry]
  have hregistry := existing_eq_some hentry
  apply Filled.join ((h.filled_start hregistry).mono hkept (Nat.le_refl _))
    (hkept (h.stop_stored hregistry))
  rw [← hasked]
  exact filled_of_fetched hdf hstored

end Registry

/-! ## A call -/

section Call

variable {final : String → Nat → Option (Option P)} {w : World P} {c : Call P}

/-- A call that only deletes rows past the end date, or adds some, leaves the ticker's entry sound. -/
theorem Sound.inserted (h : Sound final w) {entry : Entry} (hentry : existing w c = some entry)
    (hdf : fetched final w c ≠ []) (day : Nat) (hday : day ≤ entry.stop)
    (hstored : (c.ticker, day) ∈ storedKeys w.rows) :
    (c.ticker, day) ∈ storedKeys (insertedRows final w c) := by
  apply mem_storedKeys_insertOhlcv hstored
  intro _ _ hmem
  obtain ⟨r, hr, hkey⟩ := mem_storedKeys.mp hmem
  obtain ⟨-, hrow, -⟩ := mem_filtered.mp hr
  have hasked := ((mem_fetched hdf).mp hrow).2.1
  have hdate : r.date = day := congrArg Prod.snd hkey
  rw [asked, hentry, hdate] at hasked
  exact absurd hday (Nat.not_le.mpr hasked)

theorem registeredDays_stored {w' : World P} {df : List (Nat × Option P)}
    (hstored : ∀ row ∈ df, (c.ticker, row.1) ∈ storedKeys w'.rows) {day : Nat}
    (hday : day ∈ registeredDays w' c df) : (c.ticker, day) ∈ storedKeys w'.rows := by
  rw [registeredDays] at hday
  split at hday
  · obtain ⟨row, hrow, rfl⟩ := List.mem_map.mp hday
    exact hstored row hrow
  · rw [readBack] at hday
    split at hday
    · obtain ⟨r, hr, rfl⟩ := List.mem_map.mp hday
      obtain ⟨hmem, hticker⟩ := List.mem_filter.mp hr
      exact mem_storedKeys.mpr ⟨r, hmem, Prod.ext (of_decide_eq_true hticker) rfl⟩
    · cases hday
    · cases hday

theorem registeredDays_ne_nil {w' : World P} {df : List (Nat × Option P)} (hdf : df ≠ []) :
    registeredDays w' c df ≠ [] := by
  rw [registeredDays]
  split
  · simpa using hdf
  · assumption

theorem registered_entry {days : List Nat} (hdays : days ≠ []) {entry : Entry}
    (hentry : (registered w c.ticker days).registry c.ticker = some entry) :
    entry.stop ∈ days := by
  obtain ⟨entry', hrange, hmem⟩ := rangeOf_ne_nil hdays
  rw [registered] at hentry
  simp only [Function.update_self] at hentry
  obtain rfl := Option.some.inj (hrange.symm.trans hentry)
  exact hmem

theorem registered_isSome {days : List Nat} (hdays : days ≠ []) :
    ((registered w c.ticker days).registry c.ticker).isSome := by
  obtain ⟨entry, hrange, -⟩ := rangeOf_ne_nil hdays
  rw [registered]
  simp only [Function.update_self, hrange]
  rfl

/-- A call that fills the days up to the running one, and registers stored days. -/
theorem Sound.registered (h : Sound final w) {rows : List (OhlcvRow P)}
    (hrows : RowsSound final w.today rows)
    (hothers : ∀ ticker, ticker ≠ c.ticker →
      ∀ day, (ticker, day) ∈ storedKeys w.rows → (ticker, day) ∈ storedKeys rows)
    (hfilled : Filled final rows c.ticker (startOf w c) w.today) {days : List Nat}
    (hdays : days ≠ []) (hstored : ∀ day ∈ days, (c.ticker, day) ∈ storedKeys rows) :
    Sound final (FetchTool.noteStart c
      (FetchTool.registered { w with rows := rows } c.ticker days)) := by
  refine h.noteStart rfl rfl hrows ?_ (fun _ => registered_isSome hdays) ?_
  · intro ticker hticker
    exact ⟨Function.update_of_ne hticker _ _, hothers ticker hticker⟩
  · intro entry hentry
    have hstop := hstored _ (registered_entry hdays hentry)
    refine ⟨hstop, hfilled.mono (List.Subset.refl _) ?_⟩
    -- the registered end is a stored day, so it is no later than today
    obtain ⟨r, hr, hkey⟩ := mem_storedKeys.mp hstop
    have hdate : r.date = entry.stop := congrArg Prod.snd hkey
    rw [← hdate]
    exact hrows.le_today r hr

theorem Sound.idle (h : Sound final w) : Sound final (FetchTool.noteStart c w) := by
  refine h.noteStart rfl rfl h.rows (fun _ _ => ⟨rfl, fun _ hday => hday⟩) id ?_
  intro entry hentry
  exact ⟨h.stop_stored hentry, h.filled_start hentry⟩

theorem Outcome.frame {r : World P × Report} (hout : Outcome final w c r) :
    r.1.today = w.today ∧ r.1.since = w.since := by
  cases hout with
  | idle => exact ⟨rfl, rfl⟩
  | upToDate => exact ⟨rfl, rfl⟩
  | lost => exact ⟨rfl, rfl⟩
  | full => exact ⟨rfl, rfl⟩
  | inserted => exact ⟨rfl, rfl⟩
  | delta => exact ⟨rfl, rfl⟩

/-- A settled call keeps the world sound, and a good report means that the days up to the running one
are filled. -/
theorem Outcome.sound {r : World P × Report} (hout : Outcome final w c r) (h : Sound final w)
    (hsettled : Settled final w c) :
    Sound final (noteStart c r.1) ∧
      (r.2.good = true → Filled final r.1.rows c.ticker (startOf w c) w.today) := by
  cases hout with
  | idle hreport => exact ⟨h.idle, fun hgood => absurd hgood (by simp [hreport])⟩
  | upToDate hentry hstop =>
    refine ⟨h.idle, fun _ => ?_⟩
    exact (h.filled_start (existing_eq_some hentry)).mono (List.Subset.refl _) hstop
  | lost hregisters hlost =>
    have hstored := hsettled.inserted hregisters (Or.inl hlost)
    have hfilled := h.full_filled hsettled hregisters hstored (List.Subset.refl _)
    refine ⟨?_, fun _ => hfilled⟩
    apply h.registered h.rows (fun _ _ _ hday => hday) hfilled
    · simpa using hregisters.2.1
    · intro day hday
      obtain ⟨row, hrow, rfl⟩ := List.mem_map.mp hday
      exact hstored row hrow
  | full hregisters hdone report =>
    obtain ⟨hstored, hkept⟩ := hsettled.full_stores hregisters
    have hfilled := h.full_filled hsettled hregisters hstored hkept
    refine ⟨?_, fun _ => hfilled⟩
    have hrows := h.rows.insert hsettled hregisters.2.1 fun _ => ⟨hregisters.2.2.1, hdone⟩
    apply h.registered hrows (fun _ hticker => others_kept hticker) hfilled
    · simpa using hregisters.2.1
    · intro day hday
      obtain ⟨row, hrow, rfl⟩ := List.mem_map.mp hday
      exact hstored row hrow
  | inserted hentry hstop hdf =>
    refine ⟨?_, fun hgood => absurd hgood Bool.false_ne_true⟩
    have hrows := h.rows.insert hsettled hdf fun hnone => absurd (hnone.symm.trans hentry) (by simp)
    refine h.noteStart rfl rfl hrows (fun _ hticker => ⟨rfl, others_kept hticker⟩) id ?_
    intro entry hregistry
    obtain rfl := Option.some.inj ((existing_eq_some hentry).symm.trans hregistry)
    refine ⟨h.inserted hentry hdf _ (Nat.le_refl _) (h.stop_stored hregistry), ?_⟩
    intro day hstart hday hfinal
    have hold := h.filled_start (c := c) hregistry day hstart hday hfinal
    exact h.inserted hentry hdf day (Nat.le_of_lt hday) hold
  | delta hentry hstop hdf hraised report =>
    obtain ⟨hstored, hkept⟩ := insertOhlcv_stores (insertOhlcv_not_raised hraised)
    have hfilled := h.delta_filled hentry hdf hstored hkept
    refine ⟨?_, fun _ => hfilled⟩
    have hrows := h.rows.insert hsettled hdf fun hnone => absurd (hnone.symm.trans hentry) (by simp)
    exact h.registered hrows (fun _ hticker => others_kept hticker) hfilled
      (registeredDays_ne_nil hdf) fun day hday => registeredDays_stored hstored hday

end Call

/-! ## Runs -/

section Runs

variable {final : String → Nat → Option (Option P)} {w : World P} {c : Call P}

theorem Sound.arrive (h : Sound final w) : Sound final (arrive w c) where
  rows :=
    { is_final := h.rows.is_final
      le_today := fun r hr => Nat.le_trans (h.rows.le_today r hr) (Nat.le_add_right _ _)
      nodup := h.rows.nodup }
  known := h.known
  stop_stored := h.stop_stored
  filled := h.filled

theorem Sound.step (h : Sound final w) (hcareful : Careful final w c) :
    Sound final (step final w c) :=
  (fetch_outcome.sound h.arrive hcareful).1

theorem Sound.notAhead (h : Sound final w) : NotAhead w :=
  fun _ entry hentry => ⟨entry.stop, Nat.le_refl _, h.stop_stored hentry⟩

theorem Sound.promised (h : Sound final w) (hcareful : Careful final w c) :
    Promised final w c := by
  have hout := @fetch_outcome P final (FetchTool.arrive w c) c
  obtain ⟨htoday, hsince⟩ := hout.frame
  obtain ⟨hsound, hfilled⟩ := hout.sound h.arrive hcareful
  obtain ⟨htoday', hrows', -⟩ :=
    noteStart_rest (c := c) (w := (fetchStockData final (FetchTool.arrive w c) c).1)
  refine ⟨hsound.notAhead, ?_⟩
  intro hgood start hstart day hle hday
  have hstart' := noteStart_since_eq hstart
  rw [startOf, hsince] at hstart'
  rw [FetchTool.step, htoday', htoday] at hday
  apply hsound.rows.filter_eq
  rw [hrows']
  apply hfilled hgood day _ hday
  rw [startOf, ← hstart']
  exact hle

theorem sound_empty : Sound final ({} : World P) where
  rows :=
    { is_final := fun _ hr => absurd hr List.not_mem_nil
      le_today := fun _ hr => absurd hr List.not_mem_nil
      nodup := List.nodup_nil }
  known := fun _ => rfl
  stop_stored := fun hentry => absurd hentry (by simp)
  filled := fun hentry => absurd hentry (by simp)

/-- In a run of settled calls the registry never runs ahead of the stored prices, and after each good
report the ticker's rows before the day of the call are the final ones. -/
theorem exact_of_settled (final : String → Nat → Option (Option P)) (cs : List (Call P))
    (h : EveryStep (step final) (Careful final) {} cs) :
    EveryStep (step final) (Promised final) {} cs :=
  everyStep_of_invariant (fun _ _ => Sound.step) (fun _ _ => Sound.promised) sound_empty h

end Runs

/-- A source that trades every day and closes at the number of the day. -/
def dayCloses (_ticker : String) (day : Nat) : Option (Option Nat) := some (some day)

/-- A full fetch in the morning, a delta fetch after the close two days later, and one call more. -/
def morningAndEvening : List (Call Nat) :=
  [{ wait := 2, ticker := "TCS.NS", first := 0 },
    { wait := 2, ticker := "TCS.NS", first := 0, running := some (some 4) },
    { ticker := "TCS.NS", first := 0, running := some (some 4) }]

theorem exact_morningAndEvening :
    EveryStep (step dayCloses) (Promised dayCloses) {} morningAndEvening :=
  exact_of_settled dayCloses morningAndEvening (by decide)

/-- A full fetch in the middle of a day keeps the price of that moment for the day. -/
theorem running_day_stays :
    ¬∀ (final : String → Nat → Option (Option Nat)) (cs : List (Call Nat)),
      EveryStep (step final) (Promised final) {} cs := by
  intro hclaim
  have hrun := hclaim dayCloses
    [{ wait := 2, ticker := "TCS.NS", first := 0, running := some (some 7) },
      { wait := 2, ticker := "TCS.NS", first := 0 }]
  have hexact := hrun.2.1.2 (by decide) 0 (by decide) 2 (by decide) (by decide)
  exact absurd hexact (by decide)

end AsetPlatform.StockData.FetchTool
