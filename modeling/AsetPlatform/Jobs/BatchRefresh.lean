import AsetPlatform.Jobs.Finalize
import AsetPlatform.Library.Interrupted

/-!
# The batch refresh

`execute_data_refresh` of `backend/jobs/executor.py` with `batch_data_refresh` of
`backend/jobs/batch_refresh.py`, as far as prices and the record go. Tickers are fetched in the order
in which they are given; in the code it is the order in which the workers finish.
-/

set_option autoImplicit false

namespace AsetPlatform.Jobs.BatchRefresh

open AsetPlatform.Library

/-- What the job meets. Days are numbered. -/
structure Input where
  registry : Registry
  scope : String
  force : Bool
  today : Nat
  /-- The day of the latest close of a ticker. -/
  latest : String → Option Nat
  /-- The bulk download, with its retries, brings prices. -/
  downloads : String → Bool
  /-- The error of `_fetch_one_ticker`. -/
  fetchError : String → Option String
  /-- The event is set when a fetch completes. -/
  cancelSet : Nat → Bool
  /-- A write of phase 2 or 3 raises. -/
  writeFails : Bool

namespace Input

variable (x : Input)

def tickers : List String := scopeFilter x.registry x.scope

def symbol (ticker : String) : String := yfTicker x.registry ticker

def yfTickers : List String := x.tickers.map x.symbol

/-- `ohlcv_starts[t] == "__skip__"`. -/
def skips (t : String) : Bool := !x.force && (x.latest t).any fun day => x.today ≤ day

/-- `ohlcv_tickers`. -/
def ohlcvTickers : List String := x.yfTickers.filter fun t => !x.skips t

/-- The keys of `bulk_ohlcv`. -/
def bulkOhlcv : List String := x.ohlcvTickers.filter x.downloads

end Input

/-- The lists and the counter of phase 1. -/
structure Phase1 where
  results : List String
  errors : List String
  done : Nat

/-- The fetch of a ticker completes. -/
def fetchOne (x : Input) (p : Phase1) (_ : Nat) (t : String) : Phase1 :=
  match x.fetchError t with
  | some error => { p with errors := p.errors ++ [t ++ ": " ++ error], done := p.done + 1 }
  | none => { p with results := p.results ++ [t], done := p.done + 1 }

/-- Phase 1, and whether it was cancelled. -/
def phase1 (x : Input) : Phase1 × Bool :=
  interrupted x.cancelSet (fetchOne x) 0 x.yfTickers ⟨[], [], 0⟩

/-- `batch_data_refresh`; it ends without a record when a write raises. -/
def batchDataRefresh (x : Input) : Option Finalized :=
  let p := (phase1 x).1
  let total := x.yfTickers.length
  if (phase1 x).2 then some (finalize total p.done p.errors (some .cancelled))
  else if x.writeFails then none
  else some (finalize total p.done p.errors none)

/-- The ticker was fetched without an error, and has prices of today or new ones. -/
def upToDate (x : Input) (ticker : String) : Bool :=
  decide (x.symbol ticker ∈ (phase1 x).1.results) &&
    (x.skips (x.symbol ticker) || decide (x.symbol ticker ∈ x.bulkOhlcv))

/-! ## When the record is honest -/

def failing (x : Input) : Nat := x.yfTickers.countP fun t => (x.fetchError t).isSome

/-- The tickers in scope whose fetch fails or that get no prices. -/
def missed (x : Input) : Nat :=
  x.yfTickers.countP fun t => (x.fetchError t).isSome || !(x.skips t || x.downloads t)

theorem foldl_fetchOne (x : Input) (ts : List String) (k : Nat) (p : Phase1) :
    (ts.zipIdx k).foldl (fun p t => fetchOne x p t.2 t.1) p =
      ⟨p.results ++ ts.filter fun t => (x.fetchError t).isNone,
        p.errors ++ ts.filterMap fun t => (x.fetchError t).map fun error => t ++ ": " ++ error,
        p.done + ts.length⟩ := by
  induction ts generalizing k p with
  | nil => simp
  | cons t ts ih =>
      rw [List.zipIdx_cons, List.foldl_cons, ih, fetchOne]
      cases herror : x.fetchError t <;> simp [herror, Nat.add_assoc, Nat.add_comm 1]

variable {x : Input}

/-- The event is not set when any of the fetches completes. -/
def Uncancelled (x : Input) : Prop := ∀ k < x.yfTickers.length, x.cancelSet k = false

theorem phase1_cancelled : (phase1 x).2 = false ↔ Uncancelled x := interrupted_zero_completes_iff

theorem phase1_eq (huncancelled : Uncancelled x) :
    (phase1 x).1 = ⟨x.yfTickers.filter fun t => (x.fetchError t).isNone,
      x.yfTickers.filterMap fun t => (x.fetchError t).map fun error => t ++ ": " ++ error,
      x.yfTickers.length⟩ := by
  rw [phase1, interrupted_zero_of_never huncancelled, foldl_fetchOne]
  simp

theorem length_errors (huncancelled : Uncancelled x) : (phase1 x).1.errors.length = failing x := by
  rw [phase1_eq huncancelled, List.length_filterMap_eq_countP]
  apply List.countP_congr
  intro t _
  simp

theorem leftBehind_eq (huncancelled : Uncancelled x) :
    leftBehind x.tickers (upToDate x) = missed x := by
  rw [missed, Input.yfTickers, List.countP_map]
  apply List.countP_congr
  intro t ht
  have hmem : x.symbol t ∈ x.yfTickers := List.mem_map_of_mem ht
  have hfetched : x.symbol t ∈ (phase1 x).1.results ↔ x.fetchError (x.symbol t) = none := by
    rw [phase1_eq huncancelled, List.mem_filter]
    simp [hmem]
  have hprices : x.symbol t ∈ x.bulkOhlcv ↔
      x.skips (x.symbol t) = false ∧ x.downloads (x.symbol t) = true := by
    rw [Input.bulkOhlcv, Input.ohlcvTickers, List.mem_filter, List.mem_filter]
    simp [hmem]
  cases herror : x.fetchError (x.symbol t) <;> cases hskips : x.skips (x.symbol t) <;>
    cases hdownloads : x.downloads (x.symbol t) <;>
      simp [upToDate, hfetched, hprices, herror, hskips, hdownloads]

/-- Fewer than one in twenty fails or gets no prices, or more than half fail. -/
def Sound (x : Input) : Prop :=
  Few (missed x) x.tickers.length ∨ x.tickers.length / 2 < failing x

/-- The run ends with a record, and not with one that says it was cancelled. -/
def Finishes (x : Input) : Prop := Uncancelled x ∧ x.writeFails = false

theorem honestRecord_iff :
    HonestRecord x.tickers (upToDate x) (batchDataRefresh x) ↔ (Finishes x → Sound x) := by
  have htotal : x.yfTickers.length = x.tickers.length := List.length_map _
  by_cases huncancelled : Uncancelled x
  · have hcancelled : ¬ (phase1 x).2 = true :=
      Bool.eq_false_iff.mp (phase1_cancelled.mpr huncancelled)
    rw [batchDataRefresh, if_neg hcancelled]
    cases hwrite : x.writeFails with
    | true =>
        refine iff_of_true ?_ ?_
        · intro run hrun
          cases hrun
        · intro hfinishes
          rw [hfinishes.2] at hwrite
          cases hwrite
    | false =>
        have hdone : (phase1 x).1.done = x.tickers.length := by
          rw [phase1_eq huncancelled]
          exact htotal
        rw [if_neg Bool.false_ne_true, htotal, hdone, honestRecord_finalize,
          length_errors huncancelled, leftBehind_eq huncancelled, Sound]
        constructor
        · intro hsuccess _
          by_cases hmany : x.tickers.length / 2 < failing x
          · exact Or.inr hmany
          · exact Or.inl (hsuccess (Nat.not_lt.mp hmany))
        · intro hsound hsuccess
          exact (hsound ⟨huncancelled, hwrite⟩).resolve_right (Nat.not_lt.mpr hsuccess)
  · have hcancelled : (phase1 x).2 = true := by
      rw [← Bool.not_eq_false]
      exact mt phase1_cancelled.mp huncancelled
    rw [batchDataRefresh, if_pos hcancelled]
    exact iff_of_true (honestRecord_of_cancelled rfl)
      fun hfinishes => absurd hfinishes.1 huncancelled

end AsetPlatform.Jobs.BatchRefresh
