import AsetPlatform.Recommendations.CompositeScore

/-!
# Composite scores that behave well

A row with values in their stored ranges is `WellBehaved` when its score is a number from 0 to 100, moves
with each present factor in the intended direction, and would not be lower for every value in the
place of a missing one. `wellBehaved_iff` says for which rows this holds: no NaN among the Piotroski
score, the sentiment and the signals, and none as the target of a forecast whose errors leave no accuracy.
-/

set_option autoImplicit false

namespace AsetPlatform.Recommendations.CompositeScore

open AsetPlatform.Library

def InRange : Column → ℚ → Prop
  | .piotroski, q => 0 ≤ q ∧ q ≤ 9
  | .sentiment, q => -1 ≤ q ∧ q ≤ 1
  | _, _ => True

/-- Columns of which more is better. -/
def gains : List Column := [.piotroski, .sharpeRatio, .annualizedReturnPct, .target3mPctChange, .sentiment]

def errors : List Column := [.mape, .mae, .rmse]

/-- Two scores are numbers, and the first is not above the second. -/
def NotAbove (a b : Option (Option ℚ)) : Prop :=
  ∃ x y, a = some (some x) ∧ b = some (some y) ∧ x ≤ y

namespace ScoreRow

variable (r : ScoreRow)

/-- Each number that is present lies in its range. -/
def Stored : Prop := ∀ c q, r.number c = some (some q) → InRange c q

structure WellBehaved : Prop where
  bounded : ∃ s, r.compositeScore = some (some s) ∧ 0 ≤ s ∧ s ≤ 100
  rises : ∀ c ∈ gains, ∀ x y, r.number c = some (some x) → x ≤ y → InRange c y →
    NotAbove r.compositeScore (r.withNumber c (some (some y))).compositeScore
  buys : ∀ c s, r.signal c = some (.text s) →
    NotAbove r.compositeScore (r.withSignal c "buy").compositeScore
  /-- With a positive target, a larger error does not raise the score. -/
  falls : ∀ t, r.number .target3mPctChange = some (some t) → 0 < t →
    ∀ c ∈ errors, ∀ x y, r.number c = some (some x) → x ≤ y →
      NotAbove (r.withNumber c (some (some y))).compositeScore r.compositeScore
  /-- A missing number is not better than every present one. -/
  neutral : ∀ c, r.number c = none ∨ r.number c = some none →
    ∃ y, InRange c y ∧ NotAbove r.compositeScore (r.withNumber c (some (some y))).compositeScore
  neutralSignal : ∀ c, r.signal c = none ∨ r.signal c = some .nan →
    ∃ s, NotAbove r.compositeScore (r.withSignal c s).compositeScore

/-- No NaN where the score does not survive it, and none as a target that no accuracy is left for. -/
structure Clean : Prop where
  readable : r.Readable
  target : r.number .target3mPctChange = some none → r.accuracy ≠ some 0

end ScoreRow

namespace ScoreRow

section Moves

variable {r r' : ScoreRow} {c : Column} {x y t : ℚ}

theorem notAbove_of_raw (h : r.Readable) (h' : r'.Readable) (hRaw : r.raw ≤ r'.raw) :
    NotAbove r.compositeScore r'.compositeScore :=
  ⟨_, _, compositeScore_eq h, compositeScore_eq h', round2_mono hRaw⟩

theorem Readable.withNumber (h : r.Readable) (c : Column) (q : ℚ) :
    (r.withNumber c (some (some q))).Readable := by
  have hKept : ∀ d, r.number d ≠ some none → (r.withNumber c (some (some q))).number d ≠ some none := by
    intro d hNum
    rw [ScoreRow.withNumber]
    by_cases hd : d = c
    · simp [hd]
    · simpa [hd] using hNum
  exact ⟨hKept _ h.piotroski, hKept _ h.sentiment, h.signal⟩

theorem Readable.withSignal (h : r.Readable) (c : SignalColumn) (s : String) :
    (r.withSignal c s).Readable := by
  refine ⟨h.piotroski, h.sentiment, fun d => ?_⟩
  rw [ScoreRow.withSignal]
  by_cases hd : d = c
  · simp [hd]
  · simpa [hd] using h.signal d

/-- The sum rises with each of its terms. -/
theorem raw_le
    (hPiotroski : (orZero (r.number .piotroski)).getD 0 ≤ (orZero (r'.number .piotroski)).getD 0)
    (hSharpe : level (orZero (r.number .sharpeRatio)) (-2) 4 ≤
      level (orZero (r'.number .sharpeRatio)) (-2) 4)
    (hReturn : level (orZero (r.number .annualizedReturnPct)) (-50) 100 ≤
      level (orZero (r'.number .annualizedReturnPct)) (-50) 100)
    (hForecast : level ((orZero (r.number .target3mPctChange)).map fun t => t * r.accuracyLevel) (-30) 50 ≤
      level ((orZero (r'.number .target3mPctChange)).map fun t => t * r'.accuracyLevel) (-30) 50)
    (hSentiment : (orZero (r.number .sentiment)).getD 0 ≤ (orZero (r'.number .sentiment)).getD 0)
    (hPoints : r.points ≤ r'.points) : r.raw ≤ r'.raw := by
  have hCast : (r.points : ℚ) ≤ r'.points := by exact_mod_cast hPoints
  rw [raw, raw]
  linarith

theorem orZero_inRange (h : r.Stored) {q : ℚ} (hq : orZero (r.number c) = some q) : InRange c q := by
  rcases hNumber : r.number c with _ | _ | v
  · rw [hNumber] at hq
    obtain rfl := Option.some.inj hq
    cases c <;> simp [InRange]
  · rw [hNumber] at hq
    cases hq
  · rw [hNumber] at hq
    obtain rfl := Option.some.inj hq
    exact h c _ hNumber

theorem raw_bounds (h : r.Stored) (hReadable : r.Readable) : 0 ≤ r.raw ∧ r.raw ≤ 100 := by
  obtain ⟨p, hP⟩ := exists_orZero hReadable.piotroski
  obtain ⟨s, hS⟩ := exists_orZero hReadable.sentiment
  obtain ⟨hLow, hHigh⟩ : 0 ≤ p ∧ p ≤ 9 := orZero_inRange h hP
  obtain ⟨hSad, hGlad⟩ : -1 ≤ s ∧ s ≤ 1 := orZero_inRange h hS
  have hSharpe := level_nonneg (by norm_num : (-2 : ℚ) < 4) (orZero (r.number .sharpeRatio))
  have hSharpe' := level_le (by norm_num : (-2 : ℚ) < 4) (orZero (r.number .sharpeRatio))
  have hReturn := level_nonneg (by norm_num : (-50 : ℚ) < 100) (orZero (r.number .annualizedReturnPct))
  have hReturn' := level_le (by norm_num : (-50 : ℚ) < 100) (orZero (r.number .annualizedReturnPct))
  have hForecast := level_nonneg (by norm_num : (-30 : ℚ) < 50)
    ((orZero (r.number .target3mPctChange)).map fun t => t * r.accuracyLevel)
  have hForecast' := level_le (by norm_num : (-30 : ℚ) < 50)
    ((orZero (r.number .target3mPctChange)).map fun t => t * r.accuracyLevel)
  have hPoints : (0 : ℚ) ≤ r.points := Nat.cast_nonneg _
  have hPoints' : (r.points : ℚ) ≤ 4 := by exact_mod_cast points_le hReadable
  rw [raw, hP, hS]
  simp only [Option.getD_some]
  constructor
  · linarith
  · linarith

theorem score_bounds (h : r.Stored) (hReadable : r.Readable) :
    ∃ s, r.compositeScore = some (some s) ∧ 0 ≤ s ∧ s ≤ 100 := by
  obtain ⟨hLow, hHigh⟩ := raw_bounds h hReadable
  refine ⟨_, compositeScore_eq hReadable, ?_, ?_⟩
  · have hZero : round2 0 = 0 := by decide +kernel
    rw [← hZero]
    exact round2_mono hLow
  · have hFull : round2 100 = 100 := by decide +kernel
    rw [← hFull]
    exact round2_mono hHigh

/-! ## One factor moves -/

theorem raw_rises (hc : c ∈ gains) (hx : r.number c = some (some x)) (hxy : x ≤ y) :
    r.raw ≤ (r.withNumber c (some (some y))).raw := by
  have hAccuracy := r.accuracyLevel_nonneg
  simp only [gains, List.mem_cons, List.not_mem_nil, or_false] at hc
  rcases hc with rfl | rfl | rfl | rfl | rfl
  · refine raw_le ?_ (le_refl _) (le_refl _) (le_refl _) (le_refl _) (le_refl _)
    rw [hx]
    exact hxy
  · refine raw_le (le_refl _) ?_ (le_refl _) (le_refl _) (le_refl _) (le_refl _)
    rw [hx]
    exact level_mono (by norm_num) hxy
  · refine raw_le (le_refl _) (le_refl _) ?_ (le_refl _) (le_refl _) (le_refl _)
    rw [hx]
    exact level_mono (by norm_num) hxy
  · refine raw_le (le_refl _) (le_refl _) (le_refl _) ?_ (le_refl _) (le_refl _)
    rw [hx]
    exact level_mono (by norm_num) (mul_le_mul_of_nonneg_right hxy hAccuracy)
  · refine raw_le (le_refl _) (le_refl _) (le_refl _) (le_refl _) ?_ (le_refl _)
    rw [hx]
    exact hxy

theorem accuracyLevel_falls (hc : c ∈ errors) (hx : r.number c = some (some x)) (hxy : x ≤ y) :
    (r.withNumber c (some (some y))).accuracyLevel ≤ r.accuracyLevel := by
  have hMape : remaining (some y) 100 ≤ remaining (some x) 100 := remaining_antitone (by norm_num) hxy
  simp only [errors, List.mem_cons, List.not_mem_nil, or_false] at hc
  rcases hc with rfl | rfl | rfl
  · simp only [accuracyLevel, withNumber, hx, reduceCtorEq, if_true, if_false, orZero, Option.getD_some]
    cases hPrice : positivePrice (r.number .currentPrice) with
    | none =>
        simp only
        linarith
    | some price =>
        simp only
        linarith
  · simp only [accuracyLevel, withNumber, hx, reduceCtorEq, if_true, if_false, orZero, Option.getD_some]
    cases hPrice : positivePrice (r.number .currentPrice) with
    | none => exact le_refl _
    | some price =>
        have hMae := remaining_antitone (positivePrice_pos hPrice) hxy
        simp only
        linarith
  · simp only [accuracyLevel, withNumber, hx, reduceCtorEq, if_true, if_false, orZero, Option.getD_some]
    cases hPrice : positivePrice (r.number .currentPrice) with
    | none => exact le_refl _
    | some price =>
        have hRmse := remaining_antitone (positivePrice_pos hPrice) hxy
        simp only
        linarith

/-- When the other columns stay, the forecast decides. -/
theorem raw_le_of_forecast (hSame : ∀ d ∈ gains, r'.number d = r.number d) (hPoints : r'.points = r.points)
    (hForecast : level ((orZero (r.number .target3mPctChange)).map fun t => t * r.accuracyLevel) (-30) 50 ≤
      level ((orZero (r.number .target3mPctChange)).map fun t => t * r'.accuracyLevel) (-30) 50) :
    r.raw ≤ r'.raw := by
  apply raw_le
  · rw [hSame _ (by decide)]
  · rw [hSame _ (by decide)]
  · rw [hSame _ (by decide)]
  · rwa [hSame _ (by decide)]
  · rw [hSame _ (by decide)]
  · rw [hPoints]

theorem number_withError {v : Option (Option ℚ)} (hc : c ∉ gains) :
    ∀ d ∈ gains, (r.withNumber c v).number d = r.number d := by
  intro d hd
  have hOther : d ≠ c := by
    rintro rfl
    exact hc hd
  exact if_neg hOther

theorem raw_falls (hTarget : r.number .target3mPctChange = some (some t)) (ht : 0 < t) (hc : c ∈ errors)
    (hx : r.number c = some (some x)) (hxy : x ≤ y) : (r.withNumber c (some (some y))).raw ≤ r.raw := by
  have hAccuracy := accuracyLevel_falls hc hx hxy
  have hSame : ∀ d ∈ gains, (r.withNumber c (some (some y))).number d = r.number d := by
    apply number_withError
    revert hc
    cases c <;> decide
  apply raw_le_of_forecast (fun d hd => (hSame d hd).symm) rfl
  rw [hSame _ (by decide), hTarget]
  exact level_mono (by norm_num) (mul_le_mul_of_nonneg_left hAccuracy ht.le)

theorem points_withSignal (h : r.Readable) (c : SignalColumn) :
    r.points ≤ (r.withSignal c "buy").points := by
  have hPoint : ∀ d, (r.point d).getD 0 ≤ ((r.withSignal c "buy").point d).getD 0 := by
    intro d
    by_cases hd : d = c
    · subst hd
      obtain ⟨n, hn, hOne⟩ := exists_point h d
      have hBuy : (r.withSignal d "buy").point d = some 1 := by
        rw [point, withSignal]
        simp only [if_true]
        cases d <;> decide +kernel
      rw [hn, hBuy]
      exact hOne
    · have hSame : (r.withSignal c "buy").point d = r.point d := by
        rw [point, point, withSignal]
        simp only [if_neg hd]
      rw [hSame]
  rw [points, points]
  have h1 := hPoint .sma50Signal
  have h2 := hPoint .sma200Signal
  have h3 := hPoint .rsiSignal
  have h4 := hPoint .macdSignalText
  omega

/-! ## A value in the place of a missing one -/

theorem raw_of_none (h : r.number c = none) : (r.withNumber c (some (some 0))).raw = r.raw := by
  have hZero : ∀ d, orZero ((r.withNumber c (some (some 0))).number d) = orZero (r.number d) := by
    intro d
    rw [withNumber]
    by_cases hd : d = c
    · subst hd
      rw [h]
      simp [orZero]
    · simp [hd]
  have hPrice : positivePrice ((r.withNumber c (some (some 0))).number .currentPrice) =
      positivePrice (r.number .currentPrice) := by
    rw [withNumber]
    by_cases hc : Column.currentPrice = c
    · subst hc
      rw [h]
      simp [positivePrice]
    · simp [hc]
  have hPoints : (r.withNumber c (some (some 0))).points = r.points := rfl
  simp only [raw, accuracyLevel, hZero, hPrice, hPoints]

theorem raw_withTarget (v : Option (Option ℚ)) :
    (r.withNumber .target3mPctChange v).raw = r.raw +
      1 / 5 * (level ((orZero v).map fun t => t * r.accuracyLevel) (-30) 50 -
        level ((orZero (r.number .target3mPctChange)).map fun t => t * r.accuracyLevel) (-30) 50) := by
  have hOther : (r.withNumber .target3mPctChange v).raw =
      1 / 4 * ((orZero (r.number .piotroski)).getD 0 / 9 * 100) +
        1 / 5 * level (orZero (r.number .sharpeRatio)) (-2) 4 +
        3 / 20 * level (orZero (r.number .annualizedReturnPct)) (-50) 100 +
        1 / 5 * level ((orZero v).map fun t => t * r.accuracyLevel) (-30) 50 +
        1 / 10 * (((orZero (r.number .sentiment)).getD 0 + 1) / 2 * 100) +
        1 / 10 * ((r.points : ℚ) / 4 * 100) := rfl
  rw [hOther, raw]
  ring

theorem exists_error (hc : c ∈ errors) (h : r.number c = some none) :
    ∃ y, (r.withNumber c (some (some y))).accuracyLevel = r.accuracyLevel := by
  simp only [errors, List.mem_cons, List.not_mem_nil, or_false] at hc
  rcases hc with rfl | rfl | rfl
  · refine ⟨100, ?_⟩
    have hNone : remaining (some 100) 100 = 0 := remaining_scale (by norm_num)
    simp only [accuracyLevel, withNumber, h, reduceCtorEq, if_true, if_false, orZero, Option.getD_some,
      hNone]
    rfl
  · cases hPrice : positivePrice (r.number .currentPrice) with
    | none =>
        refine ⟨0, ?_⟩
        simp only [accuracyLevel, withNumber, reduceCtorEq, if_false, hPrice]
    | some price =>
        refine ⟨price, ?_⟩
        have hNone := remaining_scale (positivePrice_pos hPrice)
        simp only [accuracyLevel, withNumber, h, reduceCtorEq, if_true, if_false, orZero,
          Option.getD_some, hPrice, hNone]
        rfl
  · cases hPrice : positivePrice (r.number .currentPrice) with
    | none =>
        refine ⟨0, ?_⟩
        simp only [accuracyLevel, withNumber, reduceCtorEq, if_false, hPrice]
    | some price =>
        refine ⟨price, ?_⟩
        have hNone := remaining_scale (positivePrice_pos hPrice)
        simp only [accuracyLevel, withNumber, h, reduceCtorEq, if_true, if_false, orZero,
          Option.getD_some, hPrice, hNone]
        rfl

/-- A NaN counts as the best Sharpe ratio, return or target, as an error that leaves no accuracy, and as
no price. -/
theorem exists_of_nan (hClean : r.Clean) (h : r.number c = some none) :
    ∃ y, InRange c y ∧ r.raw ≤ (r.withNumber c (some (some y))).raw := by
  have hError : ∀ c ∈ errors, r.number c = some none →
      ∃ y, r.raw ≤ (r.withNumber c (some (some y))).raw := by
    intro c hc hNan
    obtain ⟨y, hSame⟩ := exists_error hc hNan
    refine ⟨y, raw_le_of_forecast (number_withError ?_) rfl (by rw [hSame])⟩
    revert hc
    cases c <;> decide
  cases c with
  | piotroski => exact absurd h hClean.readable.piotroski
  | sentiment => exact absurd h hClean.readable.sentiment
  | sharpeRatio =>
      refine ⟨4, trivial, ?_⟩
      refine raw_le (le_refl _) ?_ (le_refl _) (le_refl _) (le_refl _) (le_refl _)
      rw [h]
      exact (level_upper (by norm_num : (-2 : ℚ) < 4)).ge
  | annualizedReturnPct =>
      refine ⟨100, trivial, ?_⟩
      refine raw_le (le_refl _) (le_refl _) ?_ (le_refl _) (le_refl _) (le_refl _)
      rw [h]
      exact (level_upper (by norm_num : (-50 : ℚ) < 100)).ge
  | target3mPctChange =>
      have hLeft : r.accuracyLevel ≠ 0 := by
        intro hZero
        exact hClean.target h (by rw [accuracy_eq, hZero])
      refine ⟨50 / r.accuracyLevel, trivial, ?_⟩
      have hFull : level ((orZero (some (some (50 / r.accuracyLevel)))).map
          fun t => t * r.accuracyLevel) (-30) 50 = 100 := by
        have hProduct : 50 / r.accuracyLevel * r.accuracyLevel = 50 := div_mul_cancel₀ 50 hLeft
        simp only [orZero, Option.getD_some, Option.map_some, hProduct]
        exact level_upper (by norm_num)
      rw [raw_withTarget, hFull]
      have hLe := level_le (by norm_num : (-30 : ℚ) < 50)
        ((orZero (r.number .target3mPctChange)).map fun t => t * r.accuracyLevel)
      linarith
  | currentPrice =>
      refine ⟨0, trivial, ?_⟩
      have hSame : (r.withNumber .currentPrice (some (some 0))).accuracyLevel = r.accuracyLevel := by
        have hPrice : positivePrice (some (some 0)) = positivePrice (some none) := by decide
        simp only [accuracyLevel, withNumber, h, reduceCtorEq, if_true, if_false, hPrice]
      exact raw_le_of_forecast (number_withError (by decide)) rfl (by rw [hSame])
  | mape =>
      obtain ⟨y, hy⟩ := hError .mape (by decide) h
      exact ⟨y, trivial, hy⟩
  | mae =>
      obtain ⟨y, hy⟩ := hError .mae (by decide) h
      exact ⟨y, trivial, hy⟩
  | rmse =>
      obtain ⟨y, hy⟩ := hError .rmse (by decide) h
      exact ⟨y, trivial, hy⟩

/-! ## Rows that behave well -/

theorem Clean.wellBehaved (hClean : r.Clean) (h : r.Stored) : r.WellBehaved where
  bounded := score_bounds h hClean.readable
  rises := fun c hc x y hx hxy _ =>
    notAbove_of_raw hClean.readable (hClean.readable.withNumber c y) (raw_rises hc hx hxy)
  buys := fun c _ _ =>
    notAbove_of_raw hClean.readable (hClean.readable.withSignal c "buy") (by
      have hPoints := points_withSignal hClean.readable c
      exact raw_le (le_refl _) (le_refl _) (le_refl _) (le_refl _) (le_refl _) hPoints)
  falls := fun t hTarget ht c hc x y hx hxy =>
    notAbove_of_raw (hClean.readable.withNumber c y) hClean.readable (raw_falls hTarget ht hc hx hxy)
  neutral := by
    intro c hMissing
    rcases hMissing with hNone | hNan
    · refine ⟨0, ?_, ?_⟩
      · cases c <;> simp [InRange]
      · exact notAbove_of_raw hClean.readable (hClean.readable.withNumber c 0) (raw_of_none hNone).ge
    · obtain ⟨y, hy, hRaw⟩ := exists_of_nan hClean hNan
      exact ⟨y, hy, notAbove_of_raw hClean.readable (hClean.readable.withNumber c y) hRaw⟩
  neutralSignal := by
    intro c hMissing
    have hNone : r.signal c = none := hMissing.resolve_right (hClean.readable.signal c)
    refine ⟨"", notAbove_of_raw hClean.readable (hClean.readable.withSignal c "") ?_⟩
    have hPoint : ∀ d, (r.withSignal c "").point d = r.point d := by
      intro d
      rw [point, point, withSignal]
      by_cases hd : d = c
      · subst hd
        simp only [if_true, hNone]
        rfl
      · simp only [if_neg hd]
    have hPoints : (r.withSignal c "").points = r.points := by
      rw [points, points, hPoint, hPoint, hPoint, hPoint]
    exact raw_le (le_refl _) (le_refl _) (le_refl _) (le_refl _) (le_refl _) hPoints.ge

theorem WellBehaved.clean (h : r.WellBehaved) : r.Clean := by
  obtain ⟨s, hScore, -, -⟩ := h.bounded
  have hReadable := readable_of_score hScore
  refine ⟨hReadable, fun hNan hZero => ?_⟩
  have hLevel : r.accuracyLevel = 0 := by
    rw [accuracy_eq] at hZero
    exact Option.some.inj hZero
  obtain ⟨y, -, a, b, hA, hB, hLe⟩ := h.neutral .target3mPctChange (Or.inr hNan)
  rw [compositeScore_eq hReadable] at hA
  rw [compositeScore_eq (hReadable.withNumber _ y)] at hB
  obtain rfl := Option.some.inj (Option.some.inj hA)
  obtain rfl := Option.some.inj (Option.some.inj hB)
  have hPresent : level ((orZero (some (some y))).map fun t => t * r.accuracyLevel) (-30) 50 = 75 / 2 := by
    rw [hLevel]
    simp only [orZero, Option.getD_some, Option.map_some, mul_zero, level]
    norm_num
  have hRaw := raw_withTarget (r := r) (some (some y))
  have hMissing : level ((orZero (r.number .target3mPctChange)).map fun t => t * r.accuracyLevel)
      (-30) 50 = 100 := by
    rw [hNan]
    rfl
  rw [hPresent, hMissing] at hRaw
  have hHigh := le_round2 r.raw
  have hLow := round2_le (r.withNumber .target3mPctChange (some (some y))).raw
  linarith

/-- The score of a row behaves well if and only if no NaN reaches it unclamped, and none is the target
of a forecast without accuracy. -/
theorem wellBehaved_iff (h : r.Stored) : r.WellBehaved ↔ r.Clean :=
  ⟨WellBehaved.clean, fun hClean => hClean.wellBehaved h⟩

end Moves

end ScoreRow

/-! ## Rows with missing values -/

/-- A row without values. -/
def missingRow : ScoreRow := ⟨fun _ => none, fun _ => none⟩

theorem missingRow_stored : missingRow.Stored := by
  intro c q hq
  cases hq

/-- A good stock whose Sharpe ratio is NaN. -/
def sparseRow : ScoreRow :=
  ((missingRow.withNumber .piotroski (some (some 8))).withNumber .sharpeRatio (some none)).withSignal
    .sma50Signal "Buy"

theorem stored_withNumber {r : ScoreRow} (h : r.Stored) {c : Column} {v : Option (Option ℚ)}
    (hv : ∀ q, v = some (some q) → InRange c q) : (r.withNumber c v).Stored := by
  intro d q hq
  by_cases hd : d = c
  · subst hd
    exact hv q (by simpa [ScoreRow.withNumber] using hq)
  · exact h d q (by simpa [ScoreRow.withNumber, hd] using hq)

theorem sparseRow_wellBehaved : sparseRow.WellBehaved := by
  have hPiotroski : (missingRow.withNumber .piotroski (some (some 8))).Stored := by
    refine stored_withNumber missingRow_stored fun q hq => ?_
    obtain rfl := Option.some.inj (Option.some.inj hq)
    exact ⟨by norm_num, by norm_num⟩
  have hStored : sparseRow.Stored :=
    stored_withNumber hPiotroski fun q hq => by cases hq
  refine (ScoreRow.wellBehaved_iff hStored).mpr ⟨⟨?_, ?_, ?_⟩, ?_⟩
  · decide
  · decide
  · intro c
    cases c <;> decide
  · intro hNan
    exact absurd hNan (by decide)

def nanPiotroski : ScoreRow := missingRow.withNumber .piotroski (some none)

def nanSignal : ScoreRow := ⟨fun _ => none, fun _ => some .nan⟩

/-- The target is NaN, and the forecast is as far off as the price. -/
def nanTarget : ScoreRow :=
  (missingRow.withNumber .mape (some (some 100))).withNumber .target3mPctChange (some none)

/-- The score is NaN, the score raises, and a missing target is better than every present one. -/
theorem nan_not_neutral :
    (nanPiotroski.Stored ∧ ¬nanPiotroski.WellBehaved) ∧ (nanSignal.Stored ∧ ¬nanSignal.WellBehaved) ∧
      (nanTarget.Stored ∧ ¬nanTarget.WellBehaved) := by
  refine ⟨⟨?_, fun h => ?_⟩, ⟨?_, fun h => ?_⟩, ⟨?_, fun h => ?_⟩⟩
  · exact stored_withNumber missingRow_stored fun q hq => by cases hq
  · exact h.clean.readable.piotroski rfl
  · intro c q hq
    cases hq
  · exact h.clean.readable.signal .rsiSignal rfl
  · have hMape : (missingRow.withNumber .mape (some (some 100))).Stored :=
      stored_withNumber missingRow_stored fun _ _ => trivial
    exact stored_withNumber hMape fun q hq => by cases hq
  · exact h.clean.target rfl (by decide +kernel)

end AsetPlatform.Recommendations.CompositeScore
