import Mathlib.Data.List.Range

/-!
# The bulk price download

`_bulk_fetch_ohlcv` of `backend/jobs/batch_refresh.py`. Tickers are downloaded a hundred at a time from
the earliest start of those of them that have one; what is got of such a ticker is cut at its own
start. Tickers of which nothing was got are tried once more, fifty at a time, for the last five days.

`Source` stands for the market data service. Which downloads fail, and which tickers an answer leaves
out, is up to the service too and part of `Downloads`. Days are numbered.

`bulkFetch_eq` gives the days of a ticker's frame as one window of the source's trading days.
-/

set_option autoImplicit false

namespace AsetPlatform.StockData

/-- The service's trading calendars, and what it makes of the periods `10y` and `5d`. -/
structure Source where
  trades : String → Nat → Bool
  /-- The first day of the ten years before an end date. -/
  tenYears : Nat → Nat
  /-- The first of the last five days of trading up to a day. -/
  fiveDays : String → Nat → Nat

/-- The days of the rows between a first day and an exclusive end date. -/
def Source.days (src : Source) (ticker : String) (start stop : Nat) : List Nat :=
  (List.range stop).filter fun day => decide (start ≤ day) && src.trades ticker day

theorem Source.mem_days {src : Source} {ticker : String} {start stop day : Nat} :
    day ∈ src.days ticker start stop ↔
      day < stop ∧ start ≤ day ∧ src.trades ticker day = true := by
  rw [Source.days, List.mem_filter, List.mem_range, Bool.and_eq_true, decide_eq_true_eq]

theorem Source.filter_days (src : Source) (ticker : String) {start own : Nat} (stop : Nat)
    (h : start ≤ own) :
    (src.days ticker start stop).filter (own ≤ ·) = src.days ticker own stop := by
  rw [Source.days, Source.days, List.filter_filter]
  apply List.filter_congr
  intro day _
  rw [← Bool.and_assoc, ← Bool.decide_and]
  congr 1
  exact decide_eq_decide.mpr ⟨fun hday => hday.1, fun hday => ⟨hday, h.trans hday⟩⟩

/-- A value of `start_dates`. -/
inductive Start where
  | skip
  | since (day : Nat)
  | full
  deriving DecidableEq

/-- The start that counts for a batch. -/
def Start.known : Start → Option Nat
  | .skip => none
  | .since day => some day
  | .full => none

/-- What befalls the requests of one kind: which batches fail, and which tickers their answers leave
out. -/
structure Answers where
  fails : Nat → Bool := fun _ => false
  missing : Nat → String → Bool := fun _ _ => false

/-- The day and minute in India, and what befalls the downloads. `shown` are the tickers of which the
service has a row of the running day already. -/
structure Downloads where
  istDay : Nat
  istMinute : Nat
  bulk : Answers := {}
  retry : Answers := {}
  shown : String → Bool := fun _ => false

/-- `_get_fetch_end_date`, exclusive. -/
def Downloads.endDate (dl : Downloads) : Nat :=
  if dl.istMinute < 17 * 60 + 30 then dl.istDay else dl.istDay + 1

/-- `all_data`: the days of each ticker's frame. -/
abbrev Frames := String → Option (List Nat)

/-- `range(0, len(tickers), size)`, with the tickers of each step. -/
def batches (size : Nat) (tickers : List String) : List (List String × Nat) :=
  ((List.range ((tickers.length + size - 1) / size)).map fun i =>
    (tickers.drop (i * size)).take size).zipIdx

section Collect

variable (ans : Answers) (asked : List String → String → List Nat)
  (cut : String → List Nat → List Nat)

/-- One batch: `asked` are the source's rows, and `cut` is what is kept of them. -/
def collect (frames : Frames) (b : List String × Nat) : Frames :=
  if ans.fails b.2 then frames
  else b.1.foldl
    (fun frames ticker =>
      let rows := asked b.1 ticker
      if ans.missing b.2 ticker ∨ rows = [] then frames
      else Function.update frames ticker (some (cut ticker rows)))
    frames

/-- The batch gets something of the ticker. -/
def brings (ticker : String) (b : List String × Nat) : Bool :=
  decide (ticker ∈ b.1) && !ans.fails b.2 && !ans.missing b.2 ticker &&
    !(asked b.1 ticker).isEmpty

end Collect

section BulkFetch

variable (src : Source) (dl : Downloads) (starts : String → Start)

/-- The first day a batch is asked for. -/
def batchStart (batch : List String) : Nat :=
  (batch.filterMap fun ticker => (starts ticker).known).min?.getD (src.tenYears dl.endDate)

/-- Trim to the ticker's own start date. -/
def trim (ticker : String) (rows : List Nat) : List Nat :=
  match (starts ticker).known with
  | some day => rows.filter (day ≤ ·)
  | none => rows

/-- The rows a bulk download asks for. -/
def bulkRows (batch : List String) (ticker : String) : List Nat :=
  src.days ticker (batchStart src dl starts batch) dl.endDate

/-- The retry has no end date. -/
def retryStop (ticker : String) : Nat :=
  if dl.shown ticker then dl.istDay + 1 else dl.endDate

def retryRows (_batch : List String) (ticker : String) : List Nat :=
  src.days ticker (src.fiveDays ticker dl.istDay) (retryStop dl ticker)

/-- `all_data` before the retry. -/
def bulkFrames (tickers : List String) : Frames :=
  (batches 100 tickers).foldl (collect dl.bulk (bulkRows src dl starts) (trim starts))
    fun _ => none

/-- `_bulk_fetch_ohlcv` -/
def bulkFetch (tickers : List String) : Frames :=
  let allData := bulkFrames src dl starts tickers
  let failed := tickers.filter fun ticker => (allData ticker).isNone
  (batches 50 failed).foldl (collect dl.retry (retryRows src dl) fun _ rows => rows) allData

end BulkFetch

theorem mem_of_mem_batches {size : Nat} {tickers : List String} {b : List String × Nat}
    {ticker : String} (hb : b ∈ batches size tickers) (hticker : ticker ∈ b.1) :
    ticker ∈ tickers := by
  obtain ⟨i, -, hi⟩ := List.mem_map.mp (List.fst_mem_of_mem_zipIdx hb)
  rw [← hi] at hticker
  exact List.mem_of_mem_drop (List.mem_of_mem_take hticker)

/-! ## One kind of request -/

section Collect

variable {ans : Answers} {asked : List String → String → List Nat}
  {cut : String → List Nat → List Nat}

theorem brings_eq_true_iff {ticker : String} {b : List String × Nat} :
    brings ans asked ticker b = true ↔
      ticker ∈ b.1 ∧ ans.fails b.2 = false ∧ ans.missing b.2 ticker = false ∧
        asked b.1 ticker ≠ [] := by
  simp [brings, and_assoc]

/-- Entries set one after the other, each to its own value. -/
theorem foldl_update_apply {β : Type} (p : String → Prop) [DecidablePred p] (v : String → β)
    (frames : String → Option β) (tickers : List String) (ticker : String) :
    tickers.foldl (fun f t => if p t then f else Function.update f t (some (v t))) frames ticker =
      if ticker ∈ tickers ∧ ¬p ticker then some (v ticker) else frames ticker := by
  induction tickers generalizing frames with
  | nil => simp
  | cons t rest ih =>
    rw [List.foldl_cons, ih]
    by_cases hrest : ticker ∈ rest ∧ ¬p ticker
    · rw [if_pos hrest, if_pos ⟨List.mem_cons_of_mem _ hrest.1, hrest.2⟩]
    · rw [if_neg hrest]
      by_cases hsame : ticker = t
      · subst hsame
        by_cases hp : p ticker
        · simp [hp]
        · simp [hp]
      · have hiff : ticker ∈ t :: rest ∧ ¬p ticker ↔ ticker ∈ rest ∧ ¬p ticker := by
          rw [List.mem_cons, or_iff_right hsame]
        rw [if_neg (mt hiff.mp hrest)]
        by_cases hp : p t
        · rw [if_pos hp]
        · rw [if_neg hp, Function.update_of_ne hsame]

theorem collect_apply (frames : Frames) (b : List String × Nat) (ticker : String) :
    collect ans asked cut frames b ticker =
      if brings ans asked ticker b then some (cut ticker (asked b.1 ticker))
      else frames ticker := by
  rw [collect]
  by_cases hfails : ans.fails b.2 = true
  · rw [if_pos hfails, if_neg]
    rw [brings_eq_true_iff]
    rintro ⟨-, hnot, -⟩
    exact absurd hfails (by simp [hnot])
  · rw [if_neg hfails, foldl_update_apply]
    apply if_congr _ rfl rfl
    rw [brings_eq_true_iff, Bool.not_eq_true] at *
    simp only [hfails, true_and, not_or, Bool.not_eq_true, ne_eq]

/-- The last batch that brings a ticker is the one that counts. -/
theorem foldl_collect_apply (frames : Frames) (bs : List (List String × Nat)) (ticker : String) :
    bs.foldl (collect ans asked cut) frames ticker =
      ((bs.filter (brings ans asked ticker)).getLast?.map fun b =>
        cut ticker (asked b.1 ticker)).or (frames ticker) := by
  -- over the batches: one that brings the ticker overwrites what came before
  induction bs generalizing frames with
  | nil => rfl
  | cons b rest ih =>
    rw [List.foldl_cons, ih, collect_apply, List.filter_cons]
    by_cases hbrings : brings ans asked ticker b = true
    · rw [if_pos hbrings, if_pos hbrings, List.getLast?_cons]
      cases (rest.filter (brings ans asked ticker)).getLast? with
      | none => rfl
      | some b' => rfl
    · rw [if_neg hbrings, if_neg hbrings]

end Collect

/-! ## What is got of a ticker -/

section BulkFetch

variable (src : Source) (dl : Downloads) (starts : String → Start) (tickers : List String)
  (ticker : String)

/-- The last bulk download that brings the ticker. -/
def lastBulk : Option (List String × Nat) :=
  ((batches 100 tickers).filter (brings dl.bulk (bulkRows src dl starts) ticker)).getLast?

/-- The tickers to be tried again. -/
def leftOver : List String :=
  tickers.filter fun ticker => (lastBulk src dl starts tickers ticker).isNone

/-- The first day that is got of a ticker, and the exclusive end. -/
def fetchedWindow : Option (Nat × Nat) :=
  match lastBulk src dl starts tickers ticker with
  | some b => some ((starts ticker).known.getD (batchStart src dl starts b.1), dl.endDate)
  | none =>
    if (batches 50 (leftOver src dl starts tickers)).any (brings dl.retry (retryRows src dl) ticker)
    then some (src.fiveDays ticker dl.istDay, retryStop dl ticker)
    else none

variable {src dl starts tickers ticker}

theorem batchStart_le {batch : List String} {day : Nat} (hmem : ticker ∈ batch)
    (hknown : (starts ticker).known = some day) : batchStart src dl starts batch ≤ day := by
  have hday : day ∈ batch.filterMap fun ticker => (starts ticker).known :=
    List.mem_filterMap.mpr ⟨ticker, hmem, hknown⟩
  rw [batchStart]
  cases hmin : (batch.filterMap fun ticker => (starts ticker).known).min? with
  -- the batch has a known start, so the ten years do not come into it
  | none =>
    rw [List.min?_eq_none_iff.mp hmin] at hday
    exact absurd hday (List.not_mem_nil)
  | some first => exact (List.le_min?_iff hmin).mp (Nat.le_refl first) day hday

theorem trim_bulkRows {batch : List String} (hmem : ticker ∈ batch) :
    trim starts ticker (bulkRows src dl starts batch ticker) =
      src.days ticker ((starts ticker).known.getD (batchStart src dl starts batch))
        dl.endDate := by
  rw [trim, bulkRows]
  cases hknown : (starts ticker).known with
  | none => rfl
  | some day => exact src.filter_days ticker dl.endDate (batchStart_le hmem hknown)

theorem bulkFrames_eq :
    bulkFrames src dl starts tickers ticker =
      (lastBulk src dl starts tickers ticker).map fun b =>
        trim starts ticker (bulkRows src dl starts b.1 ticker) := by
  rw [bulkFrames, foldl_collect_apply, Option.or_none]
  rfl

theorem bulkFetch_eq :
    bulkFetch src dl starts tickers ticker =
      (fetchedWindow src dl starts tickers ticker).map fun w => src.days ticker w.1 w.2 := by
  have hfailed : (tickers.filter fun ticker => (bulkFrames src dl starts tickers ticker).isNone) =
      leftOver src dl starts tickers := by
    apply List.filter_congr
    intro ticker _
    rw [bulkFrames_eq, Option.isNone_map]
  rw [bulkFetch, hfailed, foldl_collect_apply, bulkFrames_eq, fetchedWindow]
  cases hlast : lastBulk src dl starts tickers ticker with
  | some b =>
    -- it is not tried again
    have hnone : (batches 50 (leftOver src dl starts tickers)).filter
        (brings dl.retry (retryRows src dl) ticker) = [] := by
      rw [List.filter_eq_nil_iff]
      intro b' hb' hbrings
      have hleft := mem_of_mem_batches hb' (brings_eq_true_iff.mp hbrings).1
      rw [leftOver, List.mem_filter, hlast] at hleft
      exact absurd hleft.2 Bool.false_ne_true
    have hmem := List.mem_of_getLast? hlast
    rw [List.mem_filter, brings_eq_true_iff] at hmem
    rw [hnone, Option.map_some, trim_bulkRows hmem.2.1]
    rfl
  | none =>
    rw [Option.map_none, Option.or_none]
    simp only
    cases hretry : ((batches 50 (leftOver src dl starts tickers)).filter
        (brings dl.retry (retryRows src dl) ticker)).getLast? with
    -- neither request brings it, and there is no frame
    | none =>
      have hnone := List.filter_eq_nil_iff.mp (List.getLast?_eq_none_iff.mp hretry)
      rw [if_neg]
      · rfl
      · rw [List.any_eq_true]
        rintro ⟨b, hb, hbrings⟩
        exact hnone b hb hbrings
    | some b =>
      obtain ⟨hb, hbrings⟩ := List.mem_filter.mp (List.mem_of_getLast? hretry)
      rw [if_pos (List.any_eq_true.mpr ⟨b, hb, hbrings⟩)]
      rfl

theorem endDate_le (dl : Downloads) : dl.istDay ≤ dl.endDate ∧ dl.endDate ≤ dl.istDay + 1 := by
  rw [Downloads.endDate]
  split
  · exact ⟨Nat.le_refl _, Nat.le_succ _⟩
  · exact ⟨Nat.le_succ _, Nat.le_refl _⟩

theorem fetchedWindow_stop {w : Nat × Nat}
    (h : fetchedWindow src dl starts tickers ticker = some w) :
    dl.endDate ≤ w.2 ∧ w.2 ≤ dl.istDay + 1 := by
  rw [fetchedWindow] at h
  split at h
  · obtain rfl := Option.some.inj h
    exact ⟨Nat.le_refl _, (endDate_le dl).2⟩
  · split at h
    · obtain rfl := Option.some.inj h
      rw [retryStop]
      split
      -- the retry shows the running day too
      · exact ⟨(endDate_le dl).2, Nat.le_refl _⟩
      · exact ⟨Nat.le_refl _, (endDate_le dl).2⟩
    · cases h

end BulkFetch

end AsetPlatform.StockData
