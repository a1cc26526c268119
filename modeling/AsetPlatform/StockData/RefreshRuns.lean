import AsetPlatform.StockData.BulkFetch
import AsetPlatform.StockData.BulkWrite

/-!
# Runs of the price refresh

`batch_data_refresh` of `backend/jobs/batch_refresh.py` as far as prices go: the start of each ticker
is its latest stored day, the download of `BulkFetch` runs from these, and the write of `BulkWrite`
stores what was got. A ticker is reported when its registry entry is updated, which is when its fetch
raised nothing and its frame is not empty.

`World.since` is no part of the program. It remembers from which day on a ticker's prices were to be
stored, which is ten years back for a ticker without history and the latest stored day otherwise.

`gap_free_iff` says which runs leave no gaps.
-/

set_option autoImplicit false

namespace AsetPlatform.StockData.RefreshRuns

open AsetPlatform.Library

universe u

variable {P : Type u}

/-! ## A run -/

/-- A run: its tickers, the server's day, whether the freshness query fails, the downloads, the prices
of the source at the time, and whose fetch raises. -/
structure Refresh (P : Type u) where
  tickers : List String
  today : Nat
  force : Bool := false
  freshnessFails : Bool := false
  downloads : Downloads
  price : String → Nat → P
  fetchFails : Nat → Bool := fun _ => false
  cancelled : Bool := false

structure World (P : Type u) where
  rows : List (OhlcvRow P)
  since : String → Option Nat := fun _ => none

section Step

variable (src : Source) (w : World P) (e : Refresh P)

def latestMap (ticker : String) : Option Nat :=
  if e.freshnessFails ∨ e.force then none else latest w.rows ticker

/-- `ohlcv_starts` -/
def ohlcvStarts (ticker : String) : Start :=
  match latestMap w e ticker with
  | some day => if e.today ≤ day then .skip else .since day
  | none => .full

def ohlcvTickers : List String := e.tickers.filter fun ticker => ohlcvStarts w e ticker ≠ .skip

/-- `bulk_ohlcv` -/
def bulkOhlcv : Frames := bulkFetch src e.downloads (ohlcvStarts w e) (ohlcvTickers w e)

/-- The price rows of the results. A run that is cancelled writes none. -/
def results : List (String × List (Nat × Option P)) :=
  -- a cancelled run returns before it writes
  if e.cancelled then []
  else (e.tickers.zipIdx.filter fun t => !e.fetchFails t.2).map fun t =>
    (t.1, ((bulkOhlcv src w e t.1).getD []).map fun day => (day, some (e.price t.1 day)))

/-- The tickers whose registry entry is updated. -/
def reported : List String :=
  ((results src w e).filter fun r => !r.2.isEmpty).map Prod.fst

/-- What is written, without faults of the database. -/
def toWrite : BulkWrite.Batch P := ⟨e.today, results src w e, {}⟩

/-- The day from which on a ticker's prices are to be stored by the run. -/
def due (ticker : String) : Nat :=
  (latest w.rows ticker).getD (src.tenYears e.downloads.endDate)

def step : World P where
  rows := BulkWrite.step w.rows (toWrite src w e)
  since := fun ticker =>
    if ticker ∈ reported src w e then
      some (((w.since ticker).map (min (due src w e ticker))).getD (due src w e ticker))
    else w.since ticker

/-- Of each ticker that is reported all trading days before the end date are stored, from the first day
on that any report of the ticker was about. -/
def GapFree : Prop :=
  ∀ ticker ∈ reported src w e, ∀ start ∈ (step src w e).since ticker,
    ∀ day ∈ src.days ticker start e.downloads.endDate,
      (ticker, day) ∈ closedKeys (step src w e).rows

/-- Trading days from the ticker's own start on that the download leaves out are stored already. They
are left out when the ticker is downloaded along with others that start later, or tried again. -/
def Covered : Prop :=
  ∀ ticker ∈ reported src w e,
    ∀ window ∈ fetchedWindow src e.downloads (ohlcvStarts w e) (ohlcvTickers w e) ticker,
      ∀ day ∈ src.days ticker (due src w e ticker) e.downloads.endDate,
        day < window.1 → (ticker, day) ∈ closedKeys w.rows

instance : Decidable (Covered src w e) := by
  unfold Covered
  infer_instance

instance : Decidable (GapFree src w e) := by
  unfold GapFree
  infer_instance

end Step

/-! ## What a run stores -/

section Step

variable {src : Source} {w : World P} {e : Refresh P} {ticker : String} {day : Nat}

theorem mem_reported :
    ticker ∈ reported src w e ↔ ∃ rows, (ticker, rows) ∈ results src w e ∧ rows ≠ [] := by
  rw [reported, List.mem_map]
  constructor
  · rintro ⟨r, hr, rfl⟩
    obtain ⟨hmem, hrows⟩ := List.mem_filter.mp hr
    exact ⟨r.2, hmem, by simpa using hrows⟩
  · rintro ⟨rows, hmem, hrows⟩
    exact ⟨(ticker, rows), List.mem_filter.mpr ⟨hmem, by simpa using hrows⟩, rfl⟩

theorem mem_results {rows : List (Nat × Option P)} (h : (ticker, rows) ∈ results src w e) :
    rows = ((bulkOhlcv src w e ticker).getD []).map fun day =>
      (day, some (e.price ticker day)) := by
  rw [results] at h
  split at h
  · cases h
  · obtain ⟨t, -, ht⟩ := List.mem_map.mp h
    rw [Prod.mk.injEq] at ht
    rw [← ht.2, ht.1]

theorem exists_window (h : ticker ∈ reported src w e) :
    ∃ window, fetchedWindow src e.downloads (ohlcvStarts w e) (ohlcvTickers w e) ticker =
      some window ∧ ∃ day, day ∈ src.days ticker window.1 window.2 := by
  obtain ⟨rows, hmem, hrows⟩ := mem_reported.mp h
  rw [mem_results hmem, bulkOhlcv, bulkFetch_eq] at hrows
  cases hwindow : fetchedWindow src e.downloads (ohlcvStarts w e) (ohlcvTickers w e) ticker with
  | none => simp [hwindow] at hrows
  | some window =>
    refine ⟨window, rfl, ?_⟩
    apply List.exists_mem_of_ne_nil
    intro hnil
    simp [hwindow, hnil] at hrows

theorem mem_combined_iff :
    (ticker, day) ∈ closedKeys (toWrite src w e).combined ↔
      ticker ∈ reported src w e ∧ ∃ window,
        fetchedWindow src e.downloads (ohlcvStarts w e) (ohlcvTickers w e) ticker = some window ∧
          day ∈ src.days ticker window.1 window.2 := by
  have hresult : ∀ rows, (ticker, rows) ∈ results src w e →
      ((∃ close : Option P, (day, close) ∈ rows ∧ close.isSome) ↔ ∃ window,
        fetchedWindow src e.downloads (ohlcvStarts w e) (ohlcvTickers w e) ticker = some window ∧
          day ∈ src.days ticker window.1 window.2) := by
    intro rows hmem
    rw [mem_results hmem, bulkOhlcv, bulkFetch_eq]
    cases fetchedWindow src e.downloads (ohlcvStarts w e) (ohlcvTickers w e) ticker with
    | none => simp
    | some window => simp
  rw [mem_closedKeys]
  constructor
  · rintro ⟨r, hr, hclose, hkey⟩
    obtain ⟨⟨ticker', rows⟩, hmem, hr⟩ := List.mem_flatMap.mp hr
    obtain ⟨row, hrow, rfl⟩ := List.mem_map.mp hr
    obtain ⟨rfl, rfl⟩ := Prod.mk.inj hkey
    exact ⟨mem_reported.mpr ⟨rows, hmem, List.ne_nil_of_mem hrow⟩,
      (hresult rows hmem).mp ⟨row.2, hrow, hclose⟩⟩
  · rintro ⟨hreported, hwindow⟩
    obtain ⟨rows, hmem, -⟩ := mem_reported.mp hreported
    obtain ⟨close, hrow, hclose⟩ := (hresult rows hmem).mpr hwindow
    refine ⟨⟨ticker, day, close⟩, ?_, hclose, rfl⟩
    exact List.mem_flatMap.mpr ⟨(ticker, rows), hmem, List.mem_map.mpr ⟨(day, close), hrow, rfl⟩⟩

/-- A run adds what was downloaded of the tickers it reports. -/
theorem mem_closedKeys_step :
    (ticker, day) ∈ closedKeys (step src w e).rows ↔
      (ticker, day) ∈ closedKeys w.rows ∨ ticker ∈ reported src w e ∧ ∃ window,
        fetchedWindow src e.downloads (ohlcvStarts w e) (ohlcvTickers w e) ticker = some window ∧
          day ∈ src.days ticker window.1 window.2 := by
  rw [← mem_combined_iff]
  apply BulkWrite.mem_closedKeys_step rfl
  intro r hr
  obtain ⟨⟨ticker', rows⟩, hmem, hr⟩ := List.mem_flatMap.mp hr
  obtain ⟨row, hrow, rfl⟩ := List.mem_map.mp hr
  rw [mem_results hmem] at hrow
  obtain ⟨day', -, rfl⟩ := List.mem_map.mp hrow
  rfl

theorem since_step_of_reported (h : ticker ∈ reported src w e) :
    (step src w e).since ticker =
      some (((w.since ticker).map (min (due src w e ticker))).getD (due src w e ticker)) :=
  if_pos h

theorem since_step_of_not_reported (h : ticker ∉ reported src w e) :
    (step src w e).since ticker = w.since ticker :=
  if_neg h

/-- A start is the run's own or an earlier one. -/
theorem since_step_cases (h : ticker ∈ reported src w e) :
    ∃ start, (step src w e).since ticker = some start ∧ start ≤ due src w e ticker ∧
      ∀ day, start ≤ day → day < due src w e ticker →
        ∃ start', w.since ticker = some start' ∧ start' ≤ day := by
  rw [since_step_of_reported h]
  cases hsince : w.since ticker with
  | none =>
    refine ⟨_, rfl, Nat.le_refl _, ?_⟩
    intro day hle hlt
    exact absurd hlt (Nat.not_lt.mpr hle)
  | some start' =>
    refine ⟨_, rfl, Nat.min_le_left _ _, ?_⟩
    intro day hle hlt
    refine ⟨start', rfl, ?_⟩
    have hmin : min (due src w e ticker) start' ≤ day := hle
    omega

end Step

/-! ## Gaps -/

/-- From a ticker's start to the latest of its days that is stored, all trading days are. -/
structure Filled (src : Source) (w : World P) : Prop where
  nonempty : ∀ {ticker start}, w.since ticker = some start →
    ∃ day, (ticker, day) ∈ closedKeys w.rows
  between : ∀ {ticker start day last}, w.since ticker = some start → start ≤ day → day ≤ last →
    (ticker, last) ∈ closedKeys w.rows → src.trades ticker day = true →
      (ticker, day) ∈ closedKeys w.rows

section Gaps

variable {src : Source} {w : World P} {e : Refresh P} {ticker : String} {day : Nat}

theorem Filled.before (h : Filled src w) {start : Nat} (hsince : w.since ticker = some start)
    (hstart : start ≤ day) (hday : day < due src w e ticker) (htrades : src.trades ticker day = true) :
    (ticker, day) ∈ closedKeys w.rows := by
  obtain ⟨day', hday'⟩ := h.nonempty hsince
  cases hlatest : latest w.rows ticker with
  | none => exact absurd hday' (latest_eq_none_iff.mp hlatest day')
  | some last =>
    rw [due, hlatest, Option.getD_some] at hday
    exact h.between hsince hstart hday.le (latest_mem hlatest) htrades

theorem gapFree_iff_covered (h : Filled src w) : GapFree src w e ↔ Covered src w e := by
  constructor
  · intro hgap ticker hreported window hwindow day hday hfirst
    obtain ⟨start, hsince, hle, -⟩ := since_step_cases hreported
    obtain ⟨hend, hdue, htrades⟩ := Source.mem_days.mp hday
    have hstored := hgap ticker hreported start hsince day
      (Source.mem_days.mpr ⟨hend, hle.trans hdue, htrades⟩)
    rcases mem_closedKeys_step.mp hstored with hstored | ⟨-, window', hwindow', hdays⟩
    · exact hstored
    · -- what is downloaded is not before the window
      obtain rfl := Option.some.inj (hwindow'.symm.trans hwindow)
      exact absurd (Source.mem_days.mp hdays).2.1 (Nat.not_le.mpr hfirst)
  · intro hcovered ticker hreported start hstart day hday
    obtain ⟨hend, hle, htrades⟩ := Source.mem_days.mp hday
    obtain ⟨start', hsince, -, hearlier⟩ := since_step_cases hreported
    obtain rfl := Option.some.inj (hsince.symm.trans hstart)
    apply mem_closedKeys_step.mpr
    by_cases hdue : due src w e ticker ≤ day
    -- from the run's own start on: the window has the day, or the condition
    · obtain ⟨window, hwindow, -⟩ := exists_window hreported
      by_cases hfirst : day < window.1
      · exact Or.inl (hcovered ticker hreported window hwindow day
          (Source.mem_days.mpr ⟨hend, hdue, htrades⟩) hfirst)
      · have hstop := (fetchedWindow_stop hwindow).1
        refine Or.inr ⟨hreported, window, hwindow, Source.mem_days.mpr ?_⟩
        exact ⟨Nat.lt_of_lt_of_le hend hstop, Nat.not_lt.mp hfirst, htrades⟩
    -- before it: the invariant has it
    · obtain ⟨start', hsince', hle'⟩ := hearlier day hle (Nat.not_le.mp hdue)
      exact Or.inl (h.before hsince' hle' (Nat.not_le.mp hdue) htrades)

theorem filled_step (h : Filled src w) (hcovered : Covered src w e) : Filled src (step src w e) := by
  have hgap := (gapFree_iff_covered h).mpr hcovered
  constructor
  · intro ticker start hsince
    by_cases hreported : ticker ∈ reported src w e
    · obtain ⟨window, hwindow, day, hday⟩ := exists_window hreported
      exact ⟨day, mem_closedKeys_step.mpr (Or.inr ⟨hreported, window, hwindow, hday⟩)⟩
    · rw [since_step_of_not_reported hreported] at hsince
      obtain ⟨day, hday⟩ := h.nonempty hsince
      exact ⟨day, mem_closedKeys_step.mpr (Or.inl hday)⟩
  · intro ticker start day last hsince hstart hlast hstored htrades
    -- days before the end date are the run's promise, later ones were stored or are the running day
    by_cases hreported : ticker ∈ reported src w e
    · by_cases hend : day < e.downloads.endDate
      · exact hgap ticker hreported start hsince day
          (Source.mem_days.mpr ⟨hend, hstart, htrades⟩)
      rcases mem_closedKeys_step.mp hstored with hold | ⟨-, window, hwindow, hdays⟩
      · apply mem_closedKeys_step.mpr
        left
        by_cases hdue : due src w e ticker ≤ day
        · -- no stored day is after the run's own start, which is the latest
          cases hlatest : latest w.rows ticker with
          | none => exact absurd hold (latest_eq_none_iff.mp hlatest last)
          | some day' =>
            rw [due, hlatest, Option.getD_some] at hdue
            have hsame : day = last :=
              Nat.le_antisymm hlast ((le_latest hlatest hold).trans hdue)
            rw [hsame]
            exact hold
        · obtain ⟨start', hsince', -, hearlier⟩ := since_step_cases hreported
          obtain rfl := Option.some.inj (hsince'.symm.trans hsince)
          obtain ⟨start', hsince', hle'⟩ := hearlier day hstart (Nat.not_le.mp hdue)
          exact h.before hsince' hle' (Nat.not_le.mp hdue) htrades
      · -- only the running day is downloaded past the end date
        have hsame : day = last := by
          have hstop := (fetchedWindow_stop hwindow).2
          have hrunning := (endDate_le e.downloads).1
          have := (Source.mem_days.mp hdays).1
          omega
        rw [hsame]
        exact hstored
    · rw [since_step_of_not_reported hreported] at hsince
      have hold : ∀ {day}, (ticker, day) ∈ closedKeys (step src w e).rows →
          (ticker, day) ∈ closedKeys w.rows := by
        intro day hday
        exact (mem_closedKeys_step.mp hday).resolve_right fun hnew => hreported hnew.1
      exact mem_closedKeys_step.mpr
        (Or.inl (h.between hsince hstart hlast (hold hstored) htrades))

/-- From any stored history, a run of refreshes stores all trading days of the tickers it reports, and
goes on to do so, if and only if each refresh covers what its downloads leave out. -/
theorem gap_free_iff (src : Source) (rows : List (OhlcvRow P)) (es : List (Refresh P)) :
    EveryStep (step src) (GapFree src) { rows := rows } es ↔
      EveryStep (step src) (Covered src) { rows := rows } es := by
  have hfilled : Filled src { rows := rows } := by
    constructor
    · intro ticker start hsince
      cases hsince
    · intro ticker start day last hsince
      cases hsince
  exact everyStep_iff_guarded (fun w e => filled_step) (fun w e => gapFree_iff_covered) hfilled

end Gaps

/-! ## A gap -/

/-- A source that trades every day. Five days of trading are five days, and ten years are twenty. -/
def everyDay : Source where
  trades := fun _ _ => true
  tenYears := fun stop => stop - 20
  fiveDays := fun _ day => day - 4

/-- The bulk download fails and the retry gets the last five days. -/
def failedBulk : Refresh Unit where
  tickers := ["TCS.NS"]
  today := 30
  price := fun _ _ => ()
  downloads := { istDay := 30, istMinute := 0, bulk := { fails := fun _ => true } }

theorem retry_leaves_gap :
    ¬∀ (src : Source) (rows : List (OhlcvRow Unit)) (es : List (Refresh Unit)),
      EveryStep (step src) (GapFree src) { rows := rows } es := by
  intro hclaim
  exact absurd (hclaim everyDay [⟨"TCS.NS", 10, some ()⟩] [failedBulk]) (by decide)

end AsetPlatform.StockData.RefreshRuns
