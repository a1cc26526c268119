import AsetPlatform.Jobs.Finalize
import AsetPlatform.Library.Interrupted

/-!
# The sentiment job

`execute_run_sentiment` of `backend/jobs/executor.py`: the tickers in scope are classed as fresh,
dormant, learning, hot and cold, some of them are checked for headlines, and the gap fill gives the
market score to all that have none. `refresh_sentiment` catches every exception, so no check raises and
there are no errors. Checks complete in the order in which they are given; in the code it is the order in
which the workers finish.
-/

set_option autoImplicit false

namespace AsetPlatform.Jobs.Sentiment

open AsetPlatform.Library

/-- What the job meets. -/
structure Input where
  registry : Registry
  scope : String
  force : Bool
  /-- The tickers that the freshness query finds. -/
  scoredFresh : String → Bool
  dormant : String → Bool
  /-- `get_dormant_eligible_for_probe`; the ticker is the key of its table. -/
  probes : Nat → List String
  probes_nodup : ∀ limit, (probes limit).Nodup
  historyDays : String → Nat
  hot : String → Bool
  marketCap : String → ℚ
  /-- `random.sample`. -/
  sample : List String → Nat → List String
  sample_subperm : ∀ cold size, (sample cold size).Subperm cold
  /-- The tickers with a score of today in the table. -/
  scoredBefore : List String
  /-- `refresh_sentiment` stores a score. -/
  stores : String → Bool
  /-- The event is set when a check completes. -/
  cancelSet : Nat → Bool
  /-- The gap fill raises before or in its append. -/
  gapFillFails : Bool

theorem take_subperm (cold : List String) (size : Nat) : (cold.take size).Subperm cold :=
  (List.take_sublist size cold).subperm

namespace Input

variable (x : Input)

def tickers : List String := analyzableTickers x.registry (scopeFilter x.registry x.scope)

def symbol (ticker : String) : String := yfTicker x.registry ticker

/-! ## The classes -/

/-- `all_yf`. -/
def allYf : List String := x.tickers.map x.symbol

/-- `t in sentiment_fresh`. -/
def fresh (t : String) : Bool := !x.force && x.scoredFresh t

def toSkip : List String := x.allYf.filter x.fresh

def inScopeDormant : List String := x.allYf.filter fun t => x.dormant t && !x.fresh t

/-- `probe_n`. -/
def probeSize : Nat := max 1 (x.inScopeDormant.length * 5 / 100)

def dormantProbe : List String :=
  if x.force then []
  else ((x.probes x.probeSize).filter fun t => t ∈ x.inScopeDormant).take x.probeSize

def dormantSkip : List String :=
  if x.force then [] else x.inScopeDormant.filter fun t => t ∉ x.dormantProbe

def remaining : List String := x.allYf.filter fun t => !x.fresh t && decide (t ∉ x.dormantSkip)

def learningFull : List String :=
  x.remaining.filter fun t => decide (x.historyDays t < 10) && decide (t ∉ x.dormantProbe)

def hotTickers : List String :=
  x.remaining.filter fun t =>
    x.hot t && decide (t ∉ x.learningFull) && decide (t ∉ x.dormantProbe)

def cold : List String :=
  x.remaining.filter fun t =>
    !x.hot t && decide (t ∉ x.learningFull) && decide (t ∉ x.dormantProbe)

/-- The tickers with the shortest history; over fifty, those with the greatest market cap. -/
def learning : List String :=
  if 50 < x.learningFull.length then
    (x.learningFull.insertionSort fun a b => x.marketCap b ≤ x.marketCap a).take 50
  else x.learningFull

def trickle : List String :=
  if x.cold = [] then []
  else x.sample x.cold (min (max 1 (x.cold.length * 15 / 100)) x.cold.length)

def checkTickers : List String := x.hotTickers ++ x.learning ++ x.trickle ++ x.dormantProbe

end Input

/-! ## The run -/

/-- The counter, and the tickers with a score of today. -/
structure Progress where
  done : Nat
  scored : List String

/-- The check of a ticker completes. -/
def checkOne (x : Input) (p : Progress) (_ : Nat) (t : String) : Progress where
  done := p.done + 1
  scored := if x.stores t then p.scored ++ [asciiUpper t] else p.scored

/-- The checks, and whether they were cancelled. -/
def check (x : Input) : Progress × Bool :=
  interrupted x.cancelSet (checkOne x) 0 x.checkTickers ⟨x.toSkip.length, x.scoredBefore⟩

/-- Step 5: the market score for all tickers without a score. -/
def gapFill (x : Input) (p : Progress) : Progress :=
  if x.gapFillFails then p
  else
    let unscored := x.allYf.filter fun t => t ∉ p.scored
    ⟨p.done + unscored.length, p.scored ++ unscored.map asciiUpper⟩

/-- `execute_run_sentiment`. -/
def executeRunSentiment (x : Input) : Finalized :=
  if (check x).2 then finalizeRun (check x).1.done x.tickers.length [] true
  else finalizeRun (gapFill x (check x).1).done x.tickers.length [] false

/-- The ticker has a score of today. -/
def upToDate (x : Input) (ticker : String) : Bool :=
  x.symbol ticker ∈ (gapFill x (check x).1).scored ||
    asciiUpper (x.symbol ticker) ∈ (gapFill x (check x).1).scored

/-! ## When the record is honest -/

/-- The tickers with a score when the gaps are filled. -/
def scoredToday (x : Input) : List String :=
  x.scoredBefore ++ (x.checkTickers.filter x.stores).map asciiUpper

/-- The tickers in scope that are skipped or checked. -/
def counted (x : Input) : Nat := x.toSkip.length + x.checkTickers.length

/-- The tickers in scope without a score when the gaps are filled. -/
def unscored (x : Input) : Nat := x.allYf.countP fun t => t ∉ scoredToday x

/-- Those of them that have none in upper case either. -/
def missed (x : Input) : Nat :=
  x.allYf.countP fun t => t ∉ scoredToday x ∧ asciiUpper t ∉ scoredToday x

theorem foldl_checkOne (x : Input) (ts : List String) (k : Nat) (p : Progress) :
    (ts.zipIdx k).foldl (fun p t => checkOne x p t.2 t.1) p =
      ⟨p.done + ts.length, p.scored ++ (ts.filter x.stores).map asciiUpper⟩ := by
  induction ts generalizing k p with
  | nil => simp
  | cons t ts ih =>
      rw [List.zipIdx_cons, List.foldl_cons, ih, checkOne]
      cases hstores : x.stores t <;> simp [hstores, Nat.add_assoc, Nat.add_comm 1]

variable {x : Input}

theorem length_remaining (x : Input) :
    x.remaining.length = x.remaining.countP (fun t => t ∈ x.dormantProbe) + x.learningFull.length +
      x.hotTickers.length + x.cold.length := by
  have hlearning : ∀ t ∈ x.remaining, decide (t ∉ x.learningFull) =
      !(decide (x.historyDays t < 10) && !decide (t ∈ x.dormantProbe)) := by
    intro t ht
    rw [Bool.eq_iff_iff]
    simp only [Input.learningFull, List.mem_filter, ht, true_and]
    simp
  have hfull : x.learningFull.length = x.remaining.countP fun t =>
      decide (x.historyDays t < 10) && !decide (t ∈ x.dormantProbe) := by
    rw [Input.learningFull, ← List.countP_eq_length_filter]
    apply List.countP_congr
    intro t _
    simp
  have hhot : x.hotTickers.length = x.remaining.countP fun t => x.hot t &&
      !(decide (x.historyDays t < 10) && !decide (t ∈ x.dormantProbe)) &&
        !decide (t ∈ x.dormantProbe) := by
    rw [Input.hotTickers, ← List.countP_eq_length_filter]
    apply List.countP_congr
    intro t ht
    rw [hlearning t ht]
    simp
  have hcold : x.cold.length = x.remaining.countP fun t => !x.hot t &&
      !(decide (x.historyDays t < 10) && !decide (t ∈ x.dormantProbe)) &&
        !decide (t ∈ x.dormantProbe) := by
    rw [Input.cold, ← List.countP_eq_length_filter]
    apply List.countP_congr
    intro t ht
    rw [hlearning t ht]
    simp
  have hone : ∀ t, ([fun t => decide (t ∈ x.dormantProbe),
      fun t => decide (x.historyDays t < 10) && !decide (t ∈ x.dormantProbe),
      fun t => x.hot t && !(decide (x.historyDays t < 10) && !decide (t ∈ x.dormantProbe)) &&
        !decide (t ∈ x.dormantProbe),
      fun t => !x.hot t && !(decide (x.historyDays t < 10) && !decide (t ∈ x.dormantProbe)) &&
        !decide (t ∈ x.dormantProbe)].map fun p => (p t).toNat).sum = 1 := by
    intro t
    simp only [List.map_cons, List.map_nil]
    cases decide (t ∈ x.dormantProbe) <;> cases decide (x.historyDays t < 10) <;>
      cases x.hot t <;> rfl
  have hclasses := length_eq_sum_countP _ hone x.remaining
  simp only [List.map_cons, List.map_nil, List.sum_cons, List.sum_nil] at hclasses
  rw [hfull, hhot, hcold, hclasses]
  omega

theorem length_dormantProbe_le (x : Input) :
    x.dormantProbe.length ≤ x.remaining.countP fun t => t ∈ x.dormantProbe := by
  rw [List.countP_eq_length_filter]
  apply List.Subperm.length_le
  apply List.subperm_of_subset
  · rw [Input.dormantProbe]
    split
    · exact List.nodup_nil
    · exact ((x.probes_nodup _).filter _).sublist (List.take_sublist _ _)
  · intro t ht
    rw [List.mem_filter]
    refine ⟨?_, by simpa using ht⟩
    have hdormant : t ∈ x.inScopeDormant := by
      rw [Input.dormantProbe] at ht
      split at ht
      · cases ht
      · simpa using (List.mem_filter.mp (List.mem_of_mem_take ht)).2
    obtain ⟨hall, hfresh⟩ := List.mem_filter.mp hdormant
    have hskip : t ∉ x.dormantSkip := by
      rw [Input.dormantSkip]
      split
      · exact List.not_mem_nil
      · intro hmem
        have hprobe := (List.mem_filter.mp hmem).2
        simp [ht] at hprobe
    rw [Input.remaining, List.mem_filter]
    refine ⟨hall, ?_⟩
    rw [Bool.and_eq_true] at hfresh
    simp [hfresh.2, hskip]

theorem counted_le (x : Input) : counted x ≤ x.tickers.length := by
  have hsplit := List.length_eq_countP_add_countP x.fresh (l := x.allYf)
  have hlength : x.allYf.length = x.tickers.length := List.length_map _
  have hskip : x.toSkip.length = x.allYf.countP x.fresh :=
    (List.countP_eq_length_filter ..).symm
  have hremaining : x.remaining.length ≤ x.allYf.countP fun t => decide ¬ x.fresh t = true := by
    rw [Input.remaining, ← List.countP_eq_length_filter]
    apply List.countP_mono_left
    intro t _ ht
    rw [Bool.and_eq_true] at ht
    simpa using ht.1
  have hlearning : x.learning.length ≤ x.learningFull.length := by
    rw [Input.learning]
    split
    · rw [List.length_take, List.length_insertionSort]
      exact Nat.min_le_right ..
    · exact Nat.le_refl _
  have htrickle : x.trickle.length ≤ x.cold.length := by
    rw [Input.trickle]
    split
    · exact Nat.zero_le _
    · exact (x.sample_subperm _ _).length_le
  have hprobe := length_dormantProbe_le x
  have hclasses := length_remaining x
  rw [counted, Input.checkTickers, List.length_append, List.length_append, List.length_append]
  omega

/-! ### The record -/

/-- The event is not set when any of the checks completes. -/
def Uncancelled (x : Input) : Prop := ∀ k < x.checkTickers.length, x.cancelSet k = false

theorem check_cancelled : (check x).2 = false ↔ Uncancelled x := interrupted_zero_completes_iff

theorem check_eq (huncancelled : Uncancelled x) : (check x).1 = ⟨counted x, scoredToday x⟩ := by
  rw [check, interrupted_zero_of_never huncancelled, foldl_checkOne]
  rfl

theorem leftBehind_filled (huncancelled : Uncancelled x) (hfill : x.gapFillFails = false) :
    leftBehind x.tickers (upToDate x) = 0 := by
  rw [leftBehind, List.countP_eq_zero]
  intro t ht
  have hmem : x.symbol t ∈ x.allYf := List.mem_map_of_mem ht
  rw [upToDate, gapFill, check_eq huncancelled, if_neg (Bool.eq_false_iff.mp hfill)]
  by_cases hscored : x.symbol t ∈ scoredToday x
  · simp [hscored]
  · have hfilled : x.symbol t ∈ x.allYf.filter fun t => t ∉ scoredToday x := by
      rw [List.mem_filter]
      exact ⟨hmem, by simpa using hscored⟩
    have hupper := List.mem_map_of_mem (f := asciiUpper) hfilled
    simp only [List.mem_append, hupper, or_true, decide_true, Bool.or_true, Bool.not_true]
    exact Bool.false_ne_true

theorem leftBehind_unfilled (huncancelled : Uncancelled x) (hfill : x.gapFillFails = true) :
    leftBehind x.tickers (upToDate x) = missed x := by
  rw [missed, Input.allYf, List.countP_map]
  apply List.countP_congr
  intro t _
  simp [upToDate, gapFill, check_eq huncancelled, hfill]

/-- If the gap fill works, no more tickers lack a score then than were neither skipped nor checked. If it
fails, fewer than one in twenty lacks one. -/
def Sound (x : Input) : Prop :=
  if x.gapFillFails then Few (missed x) x.tickers.length
  else unscored x ≤ x.tickers.length - counted x

theorem honestRecord_iff :
    HonestRecord x.tickers (upToDate x) (some (executeRunSentiment x)) ↔
      (Uncancelled x → Sound x) := by
  by_cases huncancelled : Uncancelled x
  · have hcancelled : ¬ (check x).2 = true :=
      Bool.eq_false_iff.mp (check_cancelled.mpr huncancelled)
    have hcounted := counted_le x
    rw [executeRunSentiment, if_neg hcancelled, check_eq huncancelled, honestRecord_finalizeRun,
      Sound, gapFill]
    simp only [huncancelled, true_implies, List.length_nil, true_or]
    cases hfill : x.gapFillFails with
    | true =>
        rw [leftBehind_unfilled huncancelled hfill]
        simp only [if_true]
        exact and_iff_right hcounted
    | false =>
        rw [leftBehind_filled huncancelled hfill]
        have hlength : (x.allYf.filter fun t => t ∉ scoredToday x).length = unscored x :=
          (List.countP_eq_length_filter ..).symm
        simp only [Bool.false_eq_true, if_false, hlength]
        constructor
        · intro hhonest
          exact Nat.le_sub_of_add_le' hhonest.1
        · intro hsound
          exact ⟨by omega, Or.inl rfl⟩
  · have hcancelled : (check x).2 = true := by
      rw [← Bool.not_eq_false]
      exact mt check_cancelled.mp huncancelled
    rw [executeRunSentiment, if_pos hcancelled]
    exact iff_of_true (honestRecord_of_cancelled rfl) fun h => absurd h huncancelled

end AsetPlatform.Jobs.Sentiment
