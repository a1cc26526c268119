import AsetPlatform.Jobs.SchedulerRuns
import AsetPlatform.Library.Dict
import AsetPlatform.Library.Text
import Mathlib.Algebra.BigOperators.Group.List.Basic
import Mathlib.Tactic.Linarith

/-!
# Tickers in scope and the end of a run

The helpers of `backend/jobs/executor.py` that the batch jobs share, and `_finalize` of
`backend/jobs/batch_refresh.py`. `Honest` says what the record of a finished run should tell about its
tickers.
-/

set_option autoImplicit false

namespace AsetPlatform.Jobs

open AsetPlatform.Library

/-! ## The registry -/

structure Meta where
  market : String
  tickerType : String

/-- `get_all_registry`. -/
abbrev Registry := Dict String Meta

/-- `ticker.endswith((".NS", ".BO"))`. -/
def indianSuffix (ticker : String) : Bool :=
  ".NS".toList.isSuffixOf ticker.toList || ".BO".toList.isSuffixOf ticker.toList

def indianMarkets : List String := ["NSE", "BSE", "INDIA"]

/-- `is_indian_market`. -/
def isIndianMarket (ticker market : String) : Bool :=
  indianSuffix ticker || decide (ticker ∈ ["^NSEI", "^BSESN", "^INDIAVIX"]) ||
    decide (asciiUpper market ∈ indianMarkets)

def Registry.market (registry : Registry) (ticker : String) : String :=
  ((registry.get? ticker).map Meta.market).getD ""

def Registry.tickerType (registry : Registry) (ticker : String) : String :=
  ((registry.get? ticker).map Meta.tickerType).getD "stock"

/-- `_scope_filter`. -/
def scopeFilter (registry : Registry) (scope : String) : List String :=
  if scope = "india" then
    registry.keys.filter fun t => isIndianMarket t (Registry.market registry t)
  else if scope = "us" then
    registry.keys.filter fun t => !isIndianMarket t (Registry.market registry t)
  else registry.keys

/-- `_analyzable_tickers`. -/
def analyzableTickers (registry : Registry) (tickers : List String) : List String :=
  tickers.filter fun t => Registry.tickerType registry t ∈ ["stock", "etf"]

/-- `_has_financials`. -/
def hasFinancials (registry : Registry) (tickers : List String) : List String :=
  tickers.filter fun t => Registry.tickerType registry t = "stock"

/-- The symbol of a ticker by `_yf_ticker_map`. -/
def yfTicker (registry : Registry) (ticker : String) : String :=
  if indianSuffix ticker then ticker
  else if asciiUpper (Registry.market registry ticker) ∈ indianMarkets then ticker ++ ".NS"
  else ticker

/-! ## The end of a run -/

/-- What a run ends with in `scheduler_runs`. -/
structure Finalized where
  status : Status
  total : Nat
  done : Nat
  errorMessage : Option String

/-- `"; ".join(errors[:5])`. -/
def joinErrors (errors : List String) : Option String :=
  if errors = [] then none else some ("; ".intercalate (errors.take 5))

/-- `_finalize_run`. -/
def finalizeRun (done total : Nat) (errors : List String) (cancelled : Bool) : Finalized where
  status :=
    if cancelled then .cancelled
    else if errors ≠ [] ∧ 0 < done then
      if (1 / 20 : ℚ) ≤ errors.length / (max done 1 : Nat) then .failed else .success
    else if errors ≠ [] then .failed
    else .success
  total := total
  done := done
  errorMessage := joinErrors errors

/-- `_finalize` of the batch refresh; the total was written when the run began. -/
def finalize (total done : Nat) (errors : List String) (forcedStatus : Option Status) : Finalized where
  status :=
    match forcedStatus with
    | some status => status
    | none =>
        if errors ≠ [] then if total / 2 < errors.length then .failed else .success
        else .success
  total := total
  done := done
  errorMessage := joinErrors errors

/-! ## Honest records -/

/-- The tickers in scope that the run has left behind. -/
def leftBehind (inScope : List String) (upToDate : String → Bool) : Nat :=
  inScope.countP fun t => !upToDate t

/-- The record of a run is in order: as many tickers as there are in scope, no more of them done, and
success only if fewer than one in twenty is left behind. -/
structure Honest (inScope : List String) (upToDate : String → Bool) (run : Finalized) : Prop where
  done_le : run.done ≤ run.total
  total_eq : run.total = inScope.length
  success : run.status = .success →
    (leftBehind inScope upToDate : ℚ) / inScope.length < 1 / 20

/-- The record of a run, if it ends with one and not as cancelled, is in order. -/
def HonestRecord (inScope : List String) (upToDate : String → Bool) (record : Option Finalized) :
    Prop :=
  ∀ run ∈ record, run.status ≠ .cancelled → Honest inScope upToDate run

/-- Fewer than one in twenty of `total`, or none. -/
def Few (count total : Nat) : Prop := count = 0 ∨ 20 * count < total

instance (count total : Nat) : Decidable (Few count total) := inferInstanceAs (Decidable (_ ∨ _))

theorem few_iff {count total : Nat} (hle : count ≤ total) :
    (count : ℚ) / total < 1 / 20 ↔ Few count total := by
  rcases Nat.eq_zero_or_pos total with rfl | hpos
  · have hzero : count = 0 := Nat.le_zero.mp hle
    rw [hzero]
    exact iff_of_true (by norm_num) (Or.inl rfl)
  · have htotal : (0 : ℚ) < total := Nat.cast_pos.mpr hpos
    have hcast : (count : ℚ) / total < 1 / 20 ↔ 20 * count < total := by
      rw [div_lt_div_iff₀ htotal (by norm_num), one_mul, mul_comm]
      exact_mod_cast Iff.rfl
    rw [hcast, Few]
    omega

theorem leftBehind_le (inScope : List String) (upToDate : String → Bool) :
    leftBehind inScope upToDate ≤ inScope.length := List.countP_le_length

theorem length_eq_sum_countP {α : Type} (classes : List (α → Bool))
    (hone : ∀ a, (classes.map fun p => (p a).toNat).sum = 1) (l : List α) :
    l.length = (classes.map fun p => l.countP p).sum := by
  induction l with
  | nil => simp
  | cons a l ih =>
      have hcons : (classes.map fun p => (a :: l).countP p) =
          classes.map fun p => l.countP p + (p a).toNat := by
        apply List.map_congr_left
        intro p _
        rw [List.countP_cons]
        cases p a <;> rfl
      rw [List.length_cons, hcons, List.sum_map_add, ← ih, hone]

theorem finalizeRun_success_iff {done total : Nat} {errors : List String} :
    (finalizeRun done total errors false).status = .success ↔
      errors = [] ∨ 20 * errors.length < done := by
  rw [finalizeRun]
  simp only [Bool.false_eq_true, if_false]
  by_cases herrors : errors = []
  · rw [if_neg (by simp [herrors]), if_neg (by simp [herrors])]
    exact iff_of_true rfl (Or.inl herrors)
  · rcases Nat.eq_zero_or_pos done with rfl | hpos
    · rw [if_neg (by simp), if_pos herrors]
      exact iff_of_false (by decide) (by simp [herrors])
    · have hmax : max done 1 = done := Nat.max_eq_left hpos
      have hdone : (0 : ℚ) < done := Nat.cast_pos.mpr hpos
      have hrate : (1 / 20 : ℚ) ≤ errors.length / done ↔ done ≤ 20 * errors.length := by
        rw [div_le_div_iff₀ (by norm_num) hdone, one_mul, mul_comm]
        exact_mod_cast Iff.rfl
      rw [if_pos ⟨herrors, hpos⟩, hmax]
      by_cases hfailed : (1 / 20 : ℚ) ≤ errors.length / done
      · rw [if_pos hfailed]
        have hmany := hrate.mp hfailed
        exact iff_of_false (by decide) (by simp [herrors, hmany])
      · rw [if_neg hfailed]
        exact iff_of_true rfl (Or.inr (Nat.not_le.mp (mt hrate.mpr hfailed)))

theorem finalize_success_iff {total done : Nat} {errors : List String} :
    (finalize total done errors none).status = .success ↔ errors.length ≤ total / 2 := by
  rw [finalize]
  by_cases herrors : errors = []
  · simp [herrors]
  · by_cases hmany : total / 2 < errors.length
    · simp [herrors, hmany]
    · simp [herrors, hmany, Nat.not_lt.mp hmany]

/-- What is left to check of a record whose total is right. -/
theorem honest_iff {inScope : List String} {upToDate : String → Bool} {run : Finalized}
    (htotal : run.total = inScope.length) :
    Honest inScope upToDate run ↔
      run.done ≤ inScope.length ∧
        (run.status = .success → Few (leftBehind inScope upToDate) inScope.length) := by
  have hfew := few_iff (leftBehind_le inScope upToDate)
  constructor
  · intro hhonest
    exact ⟨htotal ▸ hhonest.done_le, fun hsuccess => hfew.mp (hhonest.success hsuccess)⟩
  · rintro ⟨hdone, hsuccess⟩
    exact ⟨htotal ▸ hdone, htotal, fun h => hfew.mpr (hsuccess h)⟩

theorem honestRecord_some {inScope : List String} {upToDate : String → Bool} {run : Finalized}
    (hstatus : run.status ≠ .cancelled) :
    HonestRecord inScope upToDate (some run) ↔ Honest inScope upToDate run := by
  constructor
  · intro hhonest
    exact hhonest run rfl hstatus
  · intro hhonest run' hrun' _
    cases hrun'
    exact hhonest

theorem honestRecord_of_cancelled {inScope : List String} {upToDate : String → Bool}
    {run : Finalized} (hstatus : run.status = .cancelled) :
    HonestRecord inScope upToDate (some run) := by
  intro run' hrun' hne
  cases hrun'
  exact absurd hstatus hne

theorem finalizeRun_ne_cancelled {done total : Nat} {errors : List String} :
    (finalizeRun done total errors false).status ≠ .cancelled := by
  rw [finalizeRun]
  simp only [Bool.false_eq_true, if_false]
  split
  · split <;> decide
  · split <;> decide

/-- What is left to check of a record that `_finalize_run` writes. -/
theorem honestRecord_finalizeRun {inScope : List String} {upToDate : String → Bool} {done : Nat}
    {errors : List String} :
    HonestRecord inScope upToDate (some (finalizeRun done inScope.length errors false)) ↔
      done ≤ inScope.length ∧ (errors.length = 0 ∨ 20 * errors.length < done →
        Few (leftBehind inScope upToDate) inScope.length) := by
  rw [honestRecord_some finalizeRun_ne_cancelled, honest_iff rfl, finalizeRun_success_iff,
    List.length_eq_zero_iff]
  rfl

theorem finalize_ne_cancelled {total done : Nat} {errors : List String} :
    (finalize total done errors none).status ≠ .cancelled := by
  rw [finalize]
  simp only
  split
  · split <;> decide
  · decide

theorem honestRecord_finalize {inScope : List String} {upToDate : String → Bool}
    {errors : List String} :
    HonestRecord inScope upToDate (some (finalize inScope.length inScope.length errors none)) ↔
      (errors.length ≤ inScope.length / 2 → Few (leftBehind inScope upToDate) inScope.length) := by
  rw [honestRecord_some finalize_ne_cancelled, honest_iff rfl, finalize_success_iff]
  exact and_iff_right (Nat.le_refl _)

end AsetPlatform.Jobs
