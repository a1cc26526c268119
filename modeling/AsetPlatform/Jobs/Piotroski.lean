import AsetPlatform.Jobs.Finalize

/-!
# The Piotroski job

`execute_run_piotroski` of `backend/jobs/executor.py` and the counts of `run_screen` in
`backend/pipeline/screener/screen.py`. A ticker without the quarterly results of two years is skipped;
all that fail together make one error.
-/

set_option autoImplicit false

namespace AsetPlatform.Jobs.Piotroski

inductive Screened where
  | scored
  | skipped
  | failed
  deriving DecidableEq

/-- What the job meets. -/
structure Input where
  registry : Registry
  scope : String
  /-- The event is set before the screen. -/
  cancelSet : Bool
  screen : String → Screened
  /-- The error of `run_screen`, such as that of the write. -/
  screenError : Option String

namespace Input

variable (x : Input)

def tickers : List String := hasFinancials x.registry (scopeFilter x.registry x.scope)

def yfTickers : List String := x.tickers.map (yfTicker x.registry)

end Input

/-- The counts of `run_screen`. -/
structure Summary where
  scored : Nat
  skipped : Nat
  failed : Nat

/-- The loop of `run_screen` over its tickers. -/
def countScreened (screen : String → Screened) : List String → Summary → Summary
  | [], s => s
  | t :: rest, s =>
      countScreened screen rest <|
        match screen t with
        | .scored => { s with scored := s.scored + 1 }
        | .skipped => { s with skipped := s.skipped + 1 }
        | .failed => { s with failed := s.failed + 1 }

/-- `run_screen`. -/
def runScreen (x : Input) (tickers : List String) : Except String Summary :=
  match x.screenError with
  | some exc => .error exc
  | none => .ok (countScreened x.screen tickers ⟨0, 0, 0⟩)

/-- `execute_run_piotroski`. -/
def executeRunPiotroski (x : Input) : Finalized :=
  let total := x.yfTickers.length
  if x.cancelSet then finalizeRun 0 total [] true
  else
    match runScreen x x.yfTickers with
    | .ok result =>
        let errors := if 0 < result.failed then [toString result.failed ++ " tickers failed scoring"]
          else []
        finalizeRun result.scored total errors false
    | .error exc => finalizeRun 0 total [String.ofList (exc.toList.take 500)] false

/-- The ticker was scored by this run. -/
def upToDate (x : Input) (ticker : String) : Bool :=
  x.screenError.isNone && decide (x.screen (yfTicker x.registry ticker) = .scored)

/-! ## When the record is honest -/

def count (x : Input) (outcome : Screened) : Nat := x.yfTickers.countP fun t => x.screen t = outcome

theorem countScreened_eq (screen : String → Screened) (tickers : List String) (s : Summary) :
    countScreened screen tickers s =
      ⟨s.scored + tickers.countP fun t => screen t = .scored,
        s.skipped + tickers.countP fun t => screen t = .skipped,
        s.failed + tickers.countP fun t => screen t = .failed⟩ := by
  induction tickers generalizing s with
  | nil => rfl
  | cons t rest ih =>
      rw [countScreened, ih, List.countP_cons, List.countP_cons, List.countP_cons]
      cases screen t <;> simp <;> omega

variable {x : Input}

theorem length_tickers :
    x.tickers.length = count x .scored + (count x .skipped + count x .failed) := by
  have hone : ∀ t, ([fun t => decide (x.screen t = .scored), fun t => decide (x.screen t = .skipped),
      fun t => decide (x.screen t = .failed)].map fun p => (p t).toNat).sum = 1 := by
    intro t
    simp only [List.map_cons, List.map_nil]
    cases x.screen t <;> rfl
  have hclasses := length_eq_sum_countP _ hone x.yfTickers
  simp only [List.map_cons, List.map_nil, List.sum_cons, List.sum_nil] at hclasses
  have hlength : x.tickers.length = x.yfTickers.length := (List.length_map _).symm
  rw [hlength, hclasses]
  rfl

theorem leftBehind_eq (hscreen : x.screenError = none) :
    leftBehind x.tickers (upToDate x) = count x .skipped + count x .failed := by
  have hscored : count x .scored = x.tickers.countP (upToDate x) := by
    rw [count, Input.yfTickers, List.countP_map]
    apply List.countP_congr
    intro t _
    simp [upToDate, hscreen]
  have hsplit := List.length_eq_countP_add_countP (upToDate x) (l := x.tickers)
  have hlength := @length_tickers x
  have hbehind : leftBehind x.tickers (upToDate x) =
      x.tickers.countP fun t => decide ¬ upToDate x t = true := by
    apply List.countP_congr
    intro t _
    simp
  omega

/-- Fewer than one in twenty is skipped or fails; or some fail and no more than twenty are scored. -/
def Sound (x : Input) : Prop :=
  x.screenError = none →
    Few (count x .skipped + count x .failed) x.tickers.length ∨
      0 < count x .failed ∧ count x .scored ≤ 20

/-- The record of a Piotroski run is honest if and only if the run is sound or was cancelled. -/
theorem honestRecord_iff :
    HonestRecord x.tickers (upToDate x) (some (executeRunPiotroski x)) ↔
      (x.cancelSet = false → Sound x) := by
  have htotal : x.yfTickers.length = x.tickers.length := List.length_map _
  cases hcancel : x.cancelSet with
  | true =>
      rw [executeRunPiotroski, if_pos hcancel]
      exact iff_of_true (honestRecord_of_cancelled rfl) fun h => absurd h (by decide)
  | false =>
      rw [executeRunPiotroski, if_neg (Bool.eq_false_iff.mp hcancel), htotal, runScreen]
      cases hscreen : x.screenError with
      | some exc =>
          simp only
          rw [honestRecord_finalizeRun]
          refine iff_of_true ⟨Nat.zero_le _, fun h => ?_⟩ fun _ hnone => ?_
          · simp at h
          · rw [hscreen] at hnone
            cases hnone
      | none =>
          have hlength := @length_tickers x
          have hsummary : countScreened x.screen x.yfTickers ⟨0, 0, 0⟩ =
              ⟨count x .scored, count x .skipped, count x .failed⟩ := by
            rw [countScreened_eq]
            simp only [Nat.zero_add]
            rfl
          simp only
          rw [hsummary, honestRecord_finalizeRun, leftBehind_eq hscreen, Sound]
          simp only [hscreen, true_implies]
          by_cases hfailed : 0 < count x .failed
          · -- one error, however many fail
            rw [if_pos hfailed, List.length_singleton]
            constructor
            · rintro ⟨-, hsuccess⟩
              by_cases hscored : count x .scored ≤ 20
              · exact Or.inr ⟨hfailed, hscored⟩
              · exact Or.inl (hsuccess (by omega))
            · rintro (hfew | ⟨-, hscored⟩)
              · exact ⟨by omega, fun _ => hfew⟩
              · exact ⟨by omega, fun hsuccess => by omega⟩
          · rw [if_neg hfailed]
            constructor
            · rintro ⟨-, hsuccess⟩
              exact Or.inl (hsuccess (Or.inl rfl))
            · rintro (hfew | ⟨hpos, -⟩)
              · exact ⟨by omega, fun _ => hfew⟩
              · exact absurd hpos hfailed

end AsetPlatform.Jobs.Piotroski
