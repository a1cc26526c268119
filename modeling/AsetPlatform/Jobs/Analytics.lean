import AsetPlatform.Jobs.Finalize
import AsetPlatform.Library.Interrupted
import AsetPlatform.Library.Paging
import Mathlib.Data.Finset.Card

/-!
# The analytics job

`execute_compute_analytics` of `backend/jobs/executor.py`: the tickers without an analysis of today,
fifty at a time. A batch whose prices cannot be read fails as a whole, and one without any prices is
passed over. A batch is worked through in its order; in the code it is the order in which the workers
finish.
-/

set_option autoImplicit false

namespace AsetPlatform.Jobs.Analytics

open AsetPlatform.Library

/-- What the job meets. -/
structure Input where
  registry : Registry
  scope : String
  force : Bool
  /-- The tickers that the freshness query finds. -/
  analysedToday : Finset String
  hasOhlcv : String → Bool
  /-- The read for a batch fails. -/
  readFails : Nat → Bool
  /-- The error of `_compute_one`. -/
  computeError : String → Option String
  /-- The event is set at the start of a batch. -/
  cancelSet : Nat → Bool
  /-- The append of phase 2 raises. -/
  appendFails : Bool

namespace Input

variable (x : Input)

def tickers : List String := analyzableTickers x.registry (scopeFilter x.registry x.scope)

def symbol (ticker : String) : String := yfTicker x.registry ticker

/-- `analysis_fresh`. -/
def analysisFresh : Finset String := if x.force then ∅ else x.analysedToday

/-- `compute_tickers`. -/
def computeTickers : List String := (x.tickers.map x.symbol).filter fun t => t ∉ x.analysisFresh

end Input

/-- What becomes of a ticker of a batch. -/
inductive Turn where
  | computed
  | failed (error : String)
  | passedOver
  deriving DecidableEq

/-- A ticker of the batch with the number `k`. -/
def turn (x : Input) (k : Nat) (batch : List String) (t : String) : Turn :=
  if x.readFails k then .failed (t ++ ": OHLCV read failed")
  else if batch.all fun t => !x.hasOhlcv t then .passedOver
  else if x.hasOhlcv t then
    match x.computeError t with
    | none => .computed
    | some error => .failed (t ++ ": " ++ error)
  else .failed (t ++ ": No OHLCV for " ++ t)

def Turn.error : Turn → Option String
  | failed error => some error
  | _ => none

/-- `BATCH_SIZE`. -/
def batchSize : Nat := 50

def batches (tickers : List String) : List (List String) :=
  (List.range ((tickers.length + (batchSize - 1)) / batchSize)).map (slice batchSize tickers)

/-- The lists of phase 1. -/
structure Phase1 where
  results : List String
  errors : List String

/-- The batch with the number `k`. -/
def computeBatch (x : Input) (p : Phase1) (k : Nat) (batch : List String) : Phase1 where
  results := p.results ++ batch.filter fun t => turn x k batch t = .computed
  errors := p.errors ++ batch.filterMap fun t => (turn x k batch t).error

/-- Phase 1, and whether it was cancelled. -/
def phase1 (x : Input) : Phase1 × Bool :=
  interrupted x.cancelSet (computeBatch x) 0 (batches x.computeTickers) ⟨[], []⟩

/-- `execute_compute_analytics`; it ends without a record when the append raises. -/
def executeComputeAnalytics (x : Input) : Option Finalized :=
  let p := (phase1 x).1
  let done := p.results.length + x.analysisFresh.card
  if p.results ≠ [] ∧ x.appendFails = true then none
  else some (finalizeRun done x.tickers.length p.errors (phase1 x).2)

/-- The ticker was analysed today, before or by this run. -/
def upToDate (x : Input) (ticker : String) : Bool :=
  x.symbol ticker ∈ x.analysisFresh || x.symbol ticker ∈ (phase1 x).1.results

/-! ## What becomes of the tickers -/

/-- What becomes of each ticker that is to be computed, if the run is not cancelled. -/
def turns (x : Input) : List (String × Turn) :=
  (batches x.computeTickers).zipIdx.flatMap fun p => p.1.map fun t => (t, turn x p.2 p.1 t)

def computed (x : Input) : Nat := (turns x).countP fun t => t.2 = .computed

def failing (x : Input) : Nat := (turns x).countP fun t => t.2.error.isSome

def passedOver (x : Input) : Nat := (turns x).countP fun t => t.2 = .passedOver

/-- The tickers in scope that were analysed before. -/
def freshInScope (x : Input) : Nat := x.tickers.countP fun t => x.symbol t ∈ x.analysisFresh

/-- The tickers in scope that were not, and that no batch computes. -/
def missed (x : Input) : Nat :=
  x.tickers.countP fun t => x.symbol t ∉ x.analysisFresh ∧ (x.symbol t, .computed) ∉ turns x

theorem flatten_batches (tickers : List String) : (batches tickers).flatten = tickers := by
  have hall : tickers.length ≤ (tickers.length + (batchSize - 1)) / batchSize * batchSize := by
    have hdiv := Nat.div_add_mod (tickers.length + (batchSize - 1)) batchSize
    have hmod := Nat.mod_lt (tickers.length + (batchSize - 1)) (show 0 < batchSize by decide)
    simp only [batchSize] at *
    omega
  rw [batches, ← List.flatMap_def, List.range_eq_range', flatMap_slice, Nat.zero_mul, List.drop_zero]
  exact List.take_of_length_le hall

theorem length_turns (x : Input) : (turns x).length = x.computeTickers.length := by
  have hlength : ∀ (bs : List (List String)) (k : Nat), ((bs.zipIdx k).flatMap fun p =>
      p.1.map fun t => (t, turn x p.2 p.1 t)).length = bs.flatten.length := by
    intro bs
    induction bs with
    | nil => exact fun k => rfl
    | cons batch rest ih =>
        intro k
        rw [List.zipIdx_cons, List.flatMap_cons, List.flatten_cons, List.length_append,
          List.length_append, ih, List.length_map]
  rw [turns, hlength, flatten_batches]

theorem length_computeTickers (x : Input) :
    x.computeTickers.length = computed x + failing x + passedOver x := by
  have hone : ∀ t : String × Turn, ([fun t : String × Turn => decide (t.2 = .computed),
      fun t => t.2.error.isSome, fun t => decide (t.2 = .passedOver)].map fun p =>
        (p t).toNat).sum = 1 := by
    rintro ⟨name, turn⟩
    cases turn <;> rfl
  have hclasses := length_eq_sum_countP _ hone (turns x)
  simp only [List.map_cons, List.map_nil, List.sum_cons, List.sum_nil] at hclasses
  rw [← length_turns, hclasses, computed, failing, passedOver]
  omega

theorem length_tickers (x : Input) :
    x.tickers.length = freshInScope x + (computed x + failing x + passedOver x) := by
  rw [← length_computeTickers, Input.computeTickers, freshInScope, ← List.countP_eq_length_filter,
    List.countP_map]
  have hsplit := List.length_eq_countP_add_countP (fun t => decide (x.symbol t ∈ x.analysisFresh))
    (l := x.tickers)
  rw [hsplit]
  congr 1
  apply List.countP_congr
  intro t _
  simp

/-! ## The loop -/

/-- The event is not set at the start of any batch. -/
def Uncancelled (x : Input) : Prop := ∀ k < (batches x.computeTickers).length, x.cancelSet k = false

theorem foldl_computeBatch (x : Input) (bs : List (List String)) (k : Nat) (p : Phase1) :
    (bs.zipIdx k).foldl (fun p b => computeBatch x p b.2 b.1) p =
      let ts := (bs.zipIdx k).flatMap fun b => b.1.map fun t => (t, turn x b.2 b.1 t)
      ⟨p.results ++ (ts.filter fun t => t.2 = .computed).map Prod.fst,
        p.errors ++ ts.filterMap fun t => t.2.error⟩ := by
  induction bs generalizing k p with
  | nil => simp
  | cons batch rest ih =>
      have hresults : ((batch.map fun t => (t, turn x k batch t)).filter
          fun t => t.2 = .computed).map Prod.fst =
          batch.filter fun t => turn x k batch t = .computed := by
        rw [List.filter_map, List.map_map]
        exact List.map_id _
      have herrors : (batch.map fun t => (t, turn x k batch t)).filterMap (fun t => t.2.error) =
          batch.filterMap fun t => (turn x k batch t).error := by
        rw [List.filterMap_map]
        rfl
      rw [List.zipIdx_cons, List.foldl_cons, ih]
      simp only [List.flatMap_cons, List.filter_append, List.map_append, List.filterMap_append,
        hresults, herrors, computeBatch, List.append_assoc]

/-! ## When the record is honest -/

section Record

variable {x : Input}

theorem phase1_cancelled : (phase1 x).2 = false ↔ Uncancelled x := interrupted_zero_completes_iff

theorem phase1_eq (huncancelled : Uncancelled x) :
    (phase1 x).1 = ⟨((turns x).filter fun t => t.2 = .computed).map Prod.fst,
      (turns x).filterMap fun t => t.2.error⟩ := by
  rw [phase1, interrupted_zero_of_never huncancelled, foldl_computeBatch]
  rfl

theorem length_results (huncancelled : Uncancelled x) : (phase1 x).1.results.length = computed x := by
  rw [phase1_eq huncancelled, List.length_map, computed, List.countP_eq_length_filter]

theorem length_errors (huncancelled : Uncancelled x) : (phase1 x).1.errors.length = failing x := by
  rw [phase1_eq huncancelled, List.length_filterMap_eq_countP]
  rfl

theorem leftBehind_eq (huncancelled : Uncancelled x) :
    leftBehind x.tickers (upToDate x) = missed x := by
  apply List.countP_congr
  intro t _
  have hmem : x.symbol t ∈ (phase1 x).1.results ↔ (x.symbol t, Turn.computed) ∈ turns x := by
    rw [phase1_eq huncancelled, List.mem_map]
    constructor
    · rintro ⟨⟨name, turn⟩, hturn, hname⟩
      obtain ⟨hturn, hcomputed⟩ := List.mem_filter.mp hturn
      have hcomputed : turn = .computed := by simpa using hcomputed
      rw [hcomputed] at hturn
      exact hname ▸ hturn
    · intro hturn
      exact ⟨_, List.mem_filter.mpr ⟨hturn, by simp⟩, rfl⟩
  simp [upToDate, hmem]

/-- No more tickers outside the scope were analysed today than tickers in scope are left; and fewer than
one in twenty is left, or some fail and all that are done are at most twenty times as many. -/
def Sound (x : Input) : Prop :=
  x.analysisFresh.card ≤ freshInScope x + failing x + passedOver x ∧
    (Few (missed x) x.tickers.length ∨
      0 < failing x ∧ computed x + x.analysisFresh.card ≤ 20 * failing x)

/-- The run ends with a record, and not with one that says it was cancelled. -/
def Finishes (x : Input) : Prop := Uncancelled x ∧ ¬ (0 < computed x ∧ x.appendFails = true)

theorem executeComputeAnalytics_eq (hfinishes : Finishes x) :
    executeComputeAnalytics x = some (finalizeRun (computed x + x.analysisFresh.card)
      x.tickers.length (phase1 x).1.errors false) := by
  obtain ⟨huncancelled, happends⟩ := hfinishes
  have hlength := length_results huncancelled
  have hnot : ¬ ((phase1 x).1.results ≠ [] ∧ x.appendFails = true) := by
    rintro ⟨hresults, hfails⟩
    exact happends ⟨hlength ▸ List.length_pos_iff.mpr hresults, hfails⟩
  rw [executeComputeAnalytics, if_neg hnot, hlength, phase1_cancelled.mpr huncancelled]

theorem finishes_of_record {run : Finalized} (hrun : executeComputeAnalytics x = some run)
    (hstatus : run.status ≠ .cancelled) : Finishes x := by
  rw [executeComputeAnalytics] at hrun
  split at hrun
  · cases hrun
  · rename_i hnot
    have huncancelled : (phase1 x).2 = false := by
      by_contra hcancelled
      apply hstatus
      rw [Bool.not_eq_false] at hcancelled
      rw [← Option.some.inj hrun, finalizeRun, hcancelled]
      rfl
    have hall := phase1_cancelled.mp huncancelled
    refine ⟨hall, ?_⟩
    rintro ⟨hcomputed, hfails⟩
    exact hnot ⟨List.length_pos_iff.mp (length_results hall ▸ hcomputed), hfails⟩

theorem honestRecord_iff :
    HonestRecord x.tickers (upToDate x) (executeComputeAnalytics x) ↔ (Finishes x → Sound x) := by
  have hrecord : Finishes x → (HonestRecord x.tickers (upToDate x) (executeComputeAnalytics x) ↔
      Sound x) := by
    intro hfinishes
    have htickers := length_tickers x
    rw [executeComputeAnalytics_eq hfinishes, honestRecord_finalizeRun, length_errors hfinishes.1,
      leftBehind_eq hfinishes.1, Sound]
    refine and_congr ?_ ?_
    · omega
    · constructor
      · intro hsuccess
        by_cases hbad : 0 < failing x ∧ computed x + x.analysisFresh.card ≤ 20 * failing x
        · exact Or.inr hbad
        · exact Or.inl (hsuccess (by omega))
      · rintro (hfew | hbad) hsuccess
        · exact hfew
        · omega
  constructor
  · intro hhonest hfinishes
    exact (hrecord hfinishes).mp hhonest
  · intro hsound run hrun hstatus
    have hfinishes := finishes_of_record hrun hstatus
    exact (hrecord hfinishes).mpr (hsound hfinishes) run hrun hstatus

end Record

end AsetPlatform.Jobs.Analytics
