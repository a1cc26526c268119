import AsetPlatform.Screening.Piotroski

/-!
# Points without evidence

A missing figure counts as 0, which may be the better side of a comparison. `needsEvidence_iff` says for
which years no criterion is met by a missing figure, and none would be by a figure that is taken away.
-/

set_option autoImplicit false

namespace AsetPlatform.Screening

/-! ## Evidence -/

def Figure.Present (x : Figure) : Prop := ∃ v, x = .number v

/-- The figures of two ratios are present, and the first ratio is greater. -/
def RatioRises (num den num' den' : Figure) : Prop :=
  (num.Present ∧ den.Present ∧ num'.Present ∧ den'.Present) ∧
    safe den ≠ 0 ∧ safe den' ≠ 0 ∧ safe num' / safe den' < safe num / safe den

section Years

variable (c p : Year)

/-- Each criterion that is met has its figures, and its comparison holds. -/
structure Earned : Prop where
  roaPositive : (computePiotroski c p).roaPositive = true →
    c.netIncome.Present ∧ c.totalAssets.Present ∧ 0 < safe c.netIncome / safe c.totalAssets
  operatingCfPositive : (computePiotroski c p).operatingCfPositive = true →
    c.operatingCashflow.Present ∧ 0 < safe c.operatingCashflow
  roaIncreasing : (computePiotroski c p).roaIncreasing = true →
    RatioRises c.netIncome c.totalAssets p.netIncome p.totalAssets
  cfGtNetIncome : (computePiotroski c p).cfGtNetIncome = true →
    c.operatingCashflow.Present ∧ c.netIncome.Present ∧ safe c.netIncome < safe c.operatingCashflow
  leverageDecreasing : (computePiotroski c p).leverageDecreasing = true →
    RatioRises p.totalDebt p.totalAssets c.totalDebt c.totalAssets
  currentRatioIncreasing : (computePiotroski c p).currentRatioIncreasing = true →
    RatioRises c.currentAssets c.currentLiabilities p.currentAssets p.currentLiabilities
  noDilution : (computePiotroski c p).noDilution = true →
    c.sharesOutstanding.Present ∧ p.sharesOutstanding.Present ∧
      safe c.sharesOutstanding ≤ safe p.sharesOutstanding
  grossMarginIncreasing : (computePiotroski c p).grossMarginIncreasing = true →
    RatioRises c.grossProfit c.revenue p.grossProfit p.revenue
  assetTurnoverIncreasing : (computePiotroski c p).assetTurnoverIncreasing = true →
    RatioRises c.revenue c.totalAssets p.revenue p.totalAssets

end Years

/-- The figure is still there, or it is taken away. -/
def Figure.Reduces (x' x : Figure) : Prop := x' = x ∨ x' = .none ∨ x' = .nan

/-- Some figures of a year are taken away. -/
structure Year.Reduces (y' y : Year) : Prop where
  netIncome : y'.netIncome.Reduces y.netIncome
  totalAssets : y'.totalAssets.Reduces y.totalAssets
  operatingCashflow : y'.operatingCashflow.Reduces y.operatingCashflow
  totalDebt : y'.totalDebt.Reduces y.totalDebt
  currentAssets : y'.currentAssets.Reduces y.currentAssets
  currentLiabilities : y'.currentLiabilities.Reduces y.currentLiabilities
  sharesOutstanding : y'.sharesOutstanding.Reduces y.sharesOutstanding
  grossProfit : y'.grossProfit.Reduces y.grossProfit
  revenue : y'.revenue.Reduces y.revenue

/-- Points need evidence, and no figures that are taken away add a point. -/
structure NeedsEvidence (c p : Year) : Prop where
  earned : Earned c p
  monotone : ∀ c' p' : Year, c'.Reduces c → p'.Reduces p →
    (computePiotroski c' p').totalScore ≤ (computePiotroski c p).totalScore

/-! ## The years with evidence -/

/-- A missing numerator does not make the first ratio the greater one. -/
def NoFreeRise (num den num' den' : Figure) : Prop :=
  safe den ≠ 0 → safe den' ≠ 0 →
    (¬num.Present → 0 ≤ safe num' / safe den') ∧ (¬num'.Present → safe num / safe den ≤ 0)

/-- The first of two ratios is greater. -/
def Rises (num den num' den' : ℚ) : Prop := den ≠ 0 ∧ den' ≠ 0 ∧ num' / den' < num / den

/-- The first ratio is greater once one of the numerators is taken away. -/
def CanRise (num den num' den' : ℚ) : Prop :=
  den ≠ 0 ∧ den' ≠ 0 ∧ (0 < num / den ∨ num' / den' < 0)

open Classical in
/-- A criterion as a point. -/
noncomputable def point (P : Prop) : Nat := if P then 1 else 0

/-- Missing figures meet no criterion. -/
structure NoFreePoint (c p : Year) : Prop where
  roa : NoFreeRise c.netIncome c.totalAssets p.netIncome p.totalAssets
  netIncome : ¬c.netIncome.Present → safe c.operatingCashflow ≤ 0
  operatingCashflow : ¬c.operatingCashflow.Present → 0 ≤ safe c.netIncome
  leverage : NoFreeRise p.totalDebt p.totalAssets c.totalDebt c.totalAssets
  currentRatio : NoFreeRise c.currentAssets c.currentLiabilities p.currentAssets p.currentLiabilities
  shares : ¬c.sharesOutstanding.Present → safe p.sharesOutstanding ≤ 0
  grossMargin : NoFreeRise c.grossProfit c.revenue p.grossProfit p.revenue
  assetTurnover : NoFreeRise c.revenue c.totalAssets p.revenue p.totalAssets

/-- No figure keeps a point from a year. -/
structure NothingToHide (c p : Year) : Prop where
  /-- Without the net income of the year before -/
  netIncomeBefore :
    safe c.totalAssets ≠ 0 → safe p.totalAssets ≠ 0 → 0 < safe c.netIncome / safe c.totalAssets →
      safe p.netIncome / safe p.totalAssets < safe c.netIncome / safe c.totalAssets
  /-- Without the net income: two criteria that may be met, and the three that are given up -/
  netIncome :
    point (Rises 0 (safe c.totalAssets) (safe p.netIncome) (safe p.totalAssets)) +
        point (0 < safe c.operatingCashflow) ≤
      point (0 < safe c.netIncome / safe c.totalAssets) +
        point (Rises (safe c.netIncome) (safe c.totalAssets) (safe p.netIncome) (safe p.totalAssets)) +
        point (safe c.netIncome < safe c.operatingCashflow)
  /-- Without the cash flow -/
  operatingCashflow : safe c.netIncome < 0 → safe c.netIncome < safe c.operatingCashflow
  leverage :
    CanRise (safe p.totalDebt) (safe p.totalAssets) (safe c.totalDebt) (safe c.totalAssets) →
      Rises (safe p.totalDebt) (safe p.totalAssets) (safe c.totalDebt) (safe c.totalAssets)
  currentRatio :
    CanRise (safe c.currentAssets) (safe c.currentLiabilities) (safe p.currentAssets)
        (safe p.currentLiabilities) →
      Rises (safe c.currentAssets) (safe c.currentLiabilities) (safe p.currentAssets)
        (safe p.currentLiabilities)
  shares : 0 < safe p.sharesOutstanding → safe c.sharesOutstanding ≤ safe p.sharesOutstanding
  grossMargin :
    CanRise (safe c.grossProfit) (safe c.revenue) (safe p.grossProfit) (safe p.revenue) →
      Rises (safe c.grossProfit) (safe c.revenue) (safe p.grossProfit) (safe p.revenue)
  /-- Without a revenue, whose margin is given up -/
  assetTurnover :
    CanRise (safe c.revenue) (safe c.totalAssets) (safe p.revenue) (safe p.totalAssets) →
      Rises (safe c.revenue) (safe c.totalAssets) (safe p.revenue) (safe p.totalAssets) ∨
        Rises (safe c.grossProfit) (safe c.revenue) (safe p.grossProfit) (safe p.revenue)

/-! ## What a criterion is met by -/

section Criteria

variable {c p : Year}

theorem present_of_ne_zero {x : Figure} (h : safe x ≠ 0) : x.Present := by
  cases x with
  | none => exact absurd rfl h
  | nan => exact absurd rfl h
  | number v => exact ⟨v, rfl⟩

theorem safe_of_not_present {x : Figure} (h : ¬x.Present) : safe x = 0 := by
  by_contra hValue
  exact h (present_of_ne_zero hValue)

theorem roaPositive_iff : (computePiotroski c p).roaPositive = true ↔
    0 < safe c.netIncome / safe c.totalAssets :=
  decide_eq_true_iff.trans getD_ratio_pos_iff

theorem operatingCfPositive_iff : (computePiotroski c p).operatingCfPositive = true ↔
    0 < safe c.operatingCashflow := decide_eq_true_iff

theorem cfGtNetIncome_iff : (computePiotroski c p).cfGtNetIncome = true ↔
    safe c.netIncome < safe c.operatingCashflow := decide_eq_true_iff

theorem noDilution_iff : (computePiotroski c p).noDilution = true ↔
    safe c.sharesOutstanding ≤ safe p.sharesOutstanding ∧ 0 < safe p.sharesOutstanding := by
  change (decide _ && (decide _ || decide _)) = true ↔ _
  rw [Bool.and_eq_true, Bool.or_eq_true, decide_eq_true_iff, decide_eq_true_iff, decide_eq_true_iff]
  refine and_congr_right fun hLe => ⟨?_, Or.inr⟩
  rintro (hNow | hBefore)
  · exact lt_of_lt_of_le hNow hLe
  · exact hBefore

/-- A criterion on two ratios has its evidence exactly when no missing numerator meets it. -/
theorem noFreeRise_iff (num den num' den' : Figure) :
    (rises (ratio (safe num) (safe den)) (ratio (safe num') (safe den')) = true →
        RatioRises num den num' den') ↔
      NoFreeRise num den num' den' := by
  rw [rises_ratio_iff]
  constructor
  · intro h hDen hDen'
    refine ⟨fun hMissing => ?_, fun hMissing => ?_⟩
    · by_contra hNegative
      have hRises : safe num' / safe den' < safe num / safe den := by
        rw [safe_of_not_present hMissing, zero_div]
        exact not_le.mp hNegative
      exact hMissing (h ⟨hDen, hDen', hRises⟩).1.1
    · by_contra hPositive
      have hRises : safe num' / safe den' < safe num / safe den := by
        rw [safe_of_not_present hMissing, zero_div]
        exact not_le.mp hPositive
      exact hMissing (h ⟨hDen, hDen', hRises⟩).1.2.2.1
  · rintro h ⟨hDen, hDen', hRises⟩
    obtain ⟨hNum, hNum'⟩ := h hDen hDen'
    have hPresent : num.Present := by
      by_contra hMissing
      rw [safe_of_not_present hMissing, zero_div] at hRises
      exact absurd (hNum hMissing) (not_le_of_gt hRises)
    have hPresent' : num'.Present := by
      by_contra hMissing
      rw [safe_of_not_present hMissing, zero_div] at hRises
      exact absurd (hNum' hMissing) (not_le_of_gt hRises)
    exact ⟨⟨hPresent, present_of_ne_zero hDen, hPresent', present_of_ne_zero hDen'⟩, hDen, hDen',
      hRises⟩

theorem earned_iff : Earned c p ↔ NoFreePoint c p := by
  constructor
  · intro h
    refine ⟨(noFreeRise_iff _ _ _ _).mp h.roaIncreasing, fun hMissing => ?_, fun hMissing => ?_,
      (noFreeRise_iff _ _ _ _).mp h.leverageDecreasing,
      (noFreeRise_iff _ _ _ _).mp h.currentRatioIncreasing, fun hMissing => ?_,
      (noFreeRise_iff _ _ _ _).mp h.grossMarginIncreasing,
      (noFreeRise_iff _ _ _ _).mp h.assetTurnoverIncreasing⟩
    · by_contra hPositive
      refine hMissing (h.cfGtNetIncome (cfGtNetIncome_iff.mpr ?_)).2.1
      rw [safe_of_not_present hMissing]
      exact not_le.mp hPositive
    · by_contra hNegative
      refine hMissing (h.cfGtNetIncome (cfGtNetIncome_iff.mpr ?_)).1
      rw [safe_of_not_present hMissing]
      exact not_le.mp hNegative
    · by_contra hPositive
      refine hMissing (h.noDilution (noDilution_iff.mpr ⟨?_, not_le.mp hPositive⟩)).1
      rw [safe_of_not_present hMissing]
      exact le_of_lt (not_le.mp hPositive)
  · intro h
    refine ⟨fun hMet => ?_, fun hMet => ?_, (noFreeRise_iff _ _ _ _).mpr h.roa, fun hMet => ?_,
      (noFreeRise_iff _ _ _ _).mpr h.leverage, (noFreeRise_iff _ _ _ _).mpr h.currentRatio,
      fun hMet => ?_, (noFreeRise_iff _ _ _ _).mpr h.grossMargin,
      (noFreeRise_iff _ _ _ _).mpr h.assetTurnover⟩
    · have hRoa := roaPositive_iff.mp hMet
      have hNonzero := div_ne_zero_iff.mp hRoa.ne'
      exact ⟨present_of_ne_zero hNonzero.1, present_of_ne_zero hNonzero.2, hRoa⟩
    · have hFlow := operatingCfPositive_iff.mp hMet
      exact ⟨present_of_ne_zero hFlow.ne', hFlow⟩
    · have hLess := cfGtNetIncome_iff.mp hMet
      refine ⟨?_, ?_, hLess⟩
      · by_contra hMissing
        rw [safe_of_not_present hMissing] at hLess
        exact absurd (h.operatingCashflow hMissing) (not_le_of_gt hLess)
      · by_contra hMissing
        rw [safe_of_not_present hMissing] at hLess
        exact absurd (h.netIncome hMissing) (not_le_of_gt hLess)
    · obtain ⟨hLe, hBefore⟩ := noDilution_iff.mp hMet
      refine ⟨?_, present_of_ne_zero hBefore.ne', hLe⟩
      by_contra hMissing
      exact absurd (h.shares hMissing) (not_le_of_gt hBefore)

end Criteria

/-! ## Figures that are taken away -/

section Removal

variable {P Q : Prop}

theorem point_of_true (h : P) : point P = 1 := if_pos h

theorem point_of_false (h : ¬P) : point P = 0 := if_neg h

theorem point_le_of_imp (h : P → Q) : point P ≤ point Q := by
  by_cases hP : P
  · rw [point_of_true hP, point_of_true (h hP)]
  · rw [point_of_false hP]
    exact Nat.zero_le _

theorem imp_of_point_le (h : point P ≤ point Q) (hP : P) : Q := by
  by_contra hQ
  rw [point_of_true hP, point_of_false hQ] at h
  exact absurd h (by decide)

theorem toNat_eq_point {b : Bool} (h : b = true ↔ P) : b.toNat = point P := by
  cases b with
  | true => rw [point_of_true (h.mp rfl)]; rfl
  | false => rw [point_of_false fun hP => Bool.false_ne_true (h.mpr hP)]; rfl

theorem rises_toNat (num den num' den' : ℚ) :
    (rises (ratio num den) (ratio num' den')).toNat = point (Rises num den num' den') :=
  toNat_eq_point rises_ratio_iff

/-- The score as a sum of points. -/
theorem totalScore_eq (c p : Year) : (computePiotroski c p).totalScore =
    point (0 < safe c.netIncome / safe c.totalAssets) + point (0 < safe c.operatingCashflow) +
    point (Rises (safe c.netIncome) (safe c.totalAssets) (safe p.netIncome) (safe p.totalAssets)) +
    point (safe c.netIncome < safe c.operatingCashflow) +
    point (Rises (safe p.totalDebt) (safe p.totalAssets) (safe c.totalDebt) (safe c.totalAssets)) +
    point (Rises (safe c.currentAssets) (safe c.currentLiabilities) (safe p.currentAssets)
      (safe p.currentLiabilities)) +
    point (safe c.sharesOutstanding ≤ safe p.sharesOutstanding ∧ 0 < safe p.sharesOutstanding) +
    point (Rises (safe c.grossProfit) (safe c.revenue) (safe p.grossProfit) (safe p.revenue)) +
    point (Rises (safe c.revenue) (safe c.totalAssets) (safe p.revenue) (safe p.totalAssets)) := by
  have hSum : (computePiotroski c p).totalScore =
      (computePiotroski c p).roaPositive.toNat + ((computePiotroski c p).operatingCfPositive.toNat +
        ((computePiotroski c p).roaIncreasing.toNat + ((computePiotroski c p).cfGtNetIncome.toNat +
        ((computePiotroski c p).leverageDecreasing.toNat +
        ((computePiotroski c p).currentRatioIncreasing.toNat +
        ((computePiotroski c p).noDilution.toNat + ((computePiotroski c p).grossMarginIncreasing.toNat +
        ((computePiotroski c p).assetTurnoverIncreasing.toNat + 0)))))))) := rfl
  have hRoa : (computePiotroski c p).roaIncreasing.toNat = point (Rises (safe c.netIncome)
      (safe c.totalAssets) (safe p.netIncome) (safe p.totalAssets)) := rises_toNat _ _ _ _
  have hLeverage : (computePiotroski c p).leverageDecreasing.toNat = point (Rises (safe p.totalDebt)
      (safe p.totalAssets) (safe c.totalDebt) (safe c.totalAssets)) := rises_toNat _ _ _ _
  have hCurrent : (computePiotroski c p).currentRatioIncreasing.toNat = point (Rises
      (safe c.currentAssets) (safe c.currentLiabilities) (safe p.currentAssets)
      (safe p.currentLiabilities)) := rises_toNat _ _ _ _
  have hMargin : (computePiotroski c p).grossMarginIncreasing.toNat = point (Rises (safe c.grossProfit)
      (safe c.revenue) (safe p.grossProfit) (safe p.revenue)) := rises_toNat _ _ _ _
  have hTurnover : (computePiotroski c p).assetTurnoverIncreasing.toNat = point (Rises (safe c.revenue)
      (safe c.totalAssets) (safe p.revenue) (safe p.totalAssets)) := rises_toNat _ _ _ _
  rw [hSum, toNat_eq_point roaPositive_iff, toNat_eq_point operatingCfPositive_iff, hRoa,
    toNat_eq_point cfGtNetIncome_iff, hLeverage, hCurrent, toNat_eq_point noDilution_iff, hMargin,
    hTurnover]
  omega

theorem Year.Reduces.refl (y : Year) : y.Reduces y :=
  ⟨.inl rfl, .inl rfl, .inl rfl, .inl rfl, .inl rfl, .inl rfl, .inl rfl, .inl rfl, .inl rfl⟩

theorem safe_none : safe .none = 0 := rfl

variable {c p : Year}

theorem rises_of_removals {n d n' d' : ℚ} (h : point (Rises 0 d n' d') ≤ point (Rises n d n' d'))
    (h' : point (Rises n d 0 d') ≤ point (Rises n d n' d')) : CanRise n d n' d' → Rises n d n' d' := by
  rintro ⟨hDen, hDen', hPositive | hNegative⟩
  · refine imp_of_point_le h' ⟨hDen, hDen', ?_⟩
    rwa [zero_div]
  · refine imp_of_point_le h ⟨hDen, hDen', ?_⟩
    rwa [zero_div]

/-- Each figure is taken away for itself. -/
theorem nothingToHide_of_monotone (h : ∀ c' p' : Year, c'.Reduces c → p'.Reduces p →
    (computePiotroski c' p').totalScore ≤ (computePiotroski c p).totalScore) : NothingToHide c p := by
  have hGone : ∀ x : Figure, Figure.none.Reduces x := fun x => .inr (.inl rfl)
  have hNow : ∀ c' : Year, c'.Reduces c →
      (computePiotroski c' p).totalScore ≤ (computePiotroski c p).totalScore :=
    fun c' hc => h c' p hc (.refl p)
  have hBefore : ∀ p' : Year, p'.Reduces p →
      (computePiotroski c p').totalScore ≤ (computePiotroski c p).totalScore :=
    fun p' hp => h c p' (.refl c) hp
  refine ⟨?_, ?_, ?_, ?_, ?_, ?_, ?_, ?_⟩
  · intro hTa hTa' hRoa
    have hScore := hBefore { p with netIncome := .none }
      { Year.Reduces.refl p with netIncome := hGone _ }
    simp only [totalScore_eq, safe_none] at hScore
    have hRises : point (Rises (safe c.netIncome) (safe c.totalAssets) 0 (safe p.totalAssets)) ≤
        point (Rises (safe c.netIncome) (safe c.totalAssets) (safe p.netIncome)
          (safe p.totalAssets)) := by omega
    refine (imp_of_point_le hRises ⟨hTa, hTa', ?_⟩).2.2
    rwa [zero_div]
  · have hScore := hNow { c with netIncome := .none }
      { Year.Reduces.refl c with netIncome := hGone _ }
    simp only [totalScore_eq, safe_none, zero_div, lt_irrefl] at hScore
    rw [point_of_false not_false] at hScore
    omega
  · intro hLoss
    have hScore := hNow { c with operatingCashflow := .none }
      { Year.Reduces.refl c with operatingCashflow := hGone _ }
    simp only [totalScore_eq, safe_none, lt_irrefl] at hScore
    rw [point_of_false not_false, point_of_true hLoss] at hScore
    by_contra hLess
    have hFlow : ¬0 < safe c.operatingCashflow :=
      fun hFlow => hLess (lt_trans hLoss hFlow)
    rw [point_of_false hFlow, point_of_false hLess] at hScore
    omega
  · have hScore := hNow { c with totalDebt := .none }
      { Year.Reduces.refl c with totalDebt := hGone _ }
    have hScore' := hBefore { p with totalDebt := .none }
      { Year.Reduces.refl p with totalDebt := hGone _ }
    simp only [totalScore_eq, safe_none] at hScore hScore'
    exact rises_of_removals (by omega) (by omega)
  · have hScore := hNow { c with currentAssets := .none }
      { Year.Reduces.refl c with currentAssets := hGone _ }
    have hScore' := hBefore { p with currentAssets := .none }
      { Year.Reduces.refl p with currentAssets := hGone _ }
    simp only [totalScore_eq, safe_none] at hScore hScore'
    exact rises_of_removals (by omega) (by omega)
  · intro hPositive
    have hScore := hNow { c with sharesOutstanding := .none }
      { Year.Reduces.refl c with sharesOutstanding := hGone _ }
    simp only [totalScore_eq, safe_none] at hScore
    have hKept : point (0 ≤ safe p.sharesOutstanding ∧ 0 < safe p.sharesOutstanding) ≤
        point (safe c.sharesOutstanding ≤ safe p.sharesOutstanding ∧
          0 < safe p.sharesOutstanding) := by omega
    exact (imp_of_point_le hKept ⟨le_of_lt hPositive, hPositive⟩).1
  · have hScore := hNow { c with grossProfit := .none }
      { Year.Reduces.refl c with grossProfit := hGone _ }
    have hScore' := hBefore { p with grossProfit := .none }
      { Year.Reduces.refl p with grossProfit := hGone _ }
    simp only [totalScore_eq, safe_none] at hScore hScore'
    exact rises_of_removals (by omega) (by omega)
  · have hScore := hNow { c with revenue := .none }
      { Year.Reduces.refl c with revenue := hGone _ }
    have hScore' := hBefore { p with revenue := .none }
      { Year.Reduces.refl p with revenue := hGone _ }
    simp only [totalScore_eq, safe_none] at hScore hScore'
    -- without a revenue there is no margin
    have hNoMargin : ∀ n n' d : ℚ, ¬Rises n 0 n' d ∧ ¬Rises n d n' 0 :=
      fun n n' d => ⟨fun hRises => hRises.1 rfl, fun hRises => hRises.2.1 rfl⟩
    rw [point_of_false (hNoMargin _ _ _).1] at hScore
    rw [point_of_false (hNoMargin _ _ _).2] at hScore'
    by_cases hMargin : Rises (safe c.grossProfit) (safe c.revenue) (safe p.grossProfit)
        (safe p.revenue)
    · exact fun _ => Or.inr hMargin
    · rw [point_of_false hMargin] at hScore hScore'
      exact fun hCan => Or.inl (rises_of_removals (by omega) (by omega) hCan)

/-- A value that is kept, or counts as 0. -/
def Kept (x' x : ℚ) : Prop := x' = x ∨ x' = 0

theorem Figure.Reduces.kept {x' x : Figure} (h : x'.Reduces x) : Kept (safe x') (safe x) := by
  rcases h with rfl | rfl | rfl
  · exact Or.inl rfl
  · exact Or.inr rfl
  · exact Or.inr rfl

theorem Kept.eq {x' x : ℚ} (h : Kept x' x) (hNonzero : x' ≠ 0) : x' = x := h.resolve_right hNonzero

section Kept

variable {n d n' d' m e m' e' : ℚ}

theorem CanRise.of_kept (hn : Kept m n) (hd : Kept e d) (hn' : Kept m' n') (hd' : Kept e' d')
    (h : Rises m e m' e') : CanRise n d n' d' := by
  obtain ⟨hDen, hDen', hLess⟩ := h
  obtain rfl : e = d := hd.eq hDen
  obtain rfl : e' = d' := hd'.eq hDen'
  refine ⟨hDen, hDen', ?_⟩
  by_cases hPositive : 0 < n / e
  · exact Or.inl hPositive
  · right
    have hBelow : m / e ≤ 0 := by
      rcases hn with rfl | rfl
      · exact not_lt.mp hPositive
      · rw [zero_div]
    have hNegative : m' / e' < 0 := lt_of_lt_of_le hLess hBelow
    rcases hn' with rfl | rfl
    · exact hNegative
    · rw [zero_div] at hNegative
      exact absurd hNegative (lt_irrefl _)

/-- The margin and the turnover, which share the revenues. -/
theorem efficiency_le {g r a g' r' a' kg kr ka kg' kr' ka' : ℚ} (hg : Kept kg g) (hr : Kept kr r)
    (ha : Kept ka a) (hg' : Kept kg' g') (hr' : Kept kr' r') (ha' : Kept ka' a')
    (hMargin : CanRise g r g' r' → Rises g r g' r')
    (hTurnover : CanRise r a r' a' → Rises r a r' a' ∨ Rises g r g' r') :
    point (Rises kg kr kg' kr') + point (Rises kr ka kr' ka') ≤
      point (Rises g r g' r') + point (Rises r a r' a') := by
  by_cases hKept : Rises kg kr kg' kr'
  · have hRises : Rises g r g' r' := hMargin (CanRise.of_kept hg hr hg' hr' hKept)
    have hLater : Rises kr ka kr' ka' → Rises r a r' a' := by
      intro hKeptLater
      have hRevenue : kr = r := hr.eq hKept.1
      have hRevenue' : kr' = r' := hr'.eq hKept.2.1
      rw [hRevenue, hRevenue', ha.eq hKeptLater.1, ha'.eq hKeptLater.2.1] at hKeptLater
      exact hKeptLater
    rw [point_of_true hKept, point_of_true hRises]
    exact Nat.add_le_add_left (point_le_of_imp hLater) 1
  · rw [point_of_false hKept, Nat.zero_add]
    by_cases hLater : Rises kr ka kr' ka'
    · rw [point_of_true hLater]
      rcases hTurnover (CanRise.of_kept hr ha hr' ha' hLater) with hRises | hRises
      · rw [point_of_true hRises]
        omega
      · rw [point_of_true hRises]
        omega
    · rw [point_of_false hLater]
      exact Nat.zero_le _

/-- The criteria on the net income and the cash flow. -/
theorem profitability_le {i a f i' a' ki ka kf ki' ka' : ℚ} (hi : Kept ki i) (ha : Kept ka a)
    (hf : Kept kf f) (hi' : Kept ki' i') (ha' : Kept ka' a')
    (hBefore : a ≠ 0 → a' ≠ 0 → 0 < i / a → i' / a' < i / a)
    (hNow : point (Rises 0 a i' a') + point (0 < f) ≤
      point (0 < i / a) + point (Rises i a i' a') + point (i < f))
    (hFlow : i < 0 → i < f) :
    point (0 < ki / ka) + point (0 < kf) + point (Rises ki ka ki' ka') + point (ki < kf) ≤
      point (0 < i / a) + point (0 < f) + point (Rises i a i' a') + point (i < f) := by
  have hCash : point (0 < kf) ≤ point (0 < f) := by
    refine point_le_of_imp fun hPositive => ?_
    rwa [hf.eq hPositive.ne'] at hPositive
  rcases hi with rfl | rfl
  · have hPositive : point (0 < ki / ka) ≤ point (0 < ki / a) := by
      refine point_le_of_imp fun hRoa => ?_
      rwa [ha.eq (div_ne_zero_iff.mp hRoa.ne').2] at hRoa
    have hRoa : point (Rises ki ka ki' ka') ≤ point (Rises ki a i' a') := by
      refine point_le_of_imp fun hRises => ?_
      obtain ⟨hDen, hDen', hLess⟩ := hRises
      obtain rfl : ka = a := ha.eq hDen
      obtain rfl : ka' = a' := ha'.eq hDen'
      refine ⟨hDen, hDen', ?_⟩
      rcases hi' with rfl | rfl
      · exact hLess
      · rw [zero_div] at hLess
        exact hBefore hDen hDen' hLess
    have hLess : point (ki < kf) ≤ point (ki < f) := by
      refine point_le_of_imp fun hBelow => ?_
      rcases hf with rfl | rfl
      · exact hBelow
      · exact hFlow hBelow
    omega
  · -- without the net income
    have hNone : point (0 < (0 : ℚ) / ka) = 0 := by
      refine point_of_false ?_
      rw [zero_div]
      exact lt_irrefl 0
    have hRoa : point (Rises 0 ka ki' ka') ≤ point (Rises 0 a i' a') := by
      refine point_le_of_imp fun hRises => ?_
      obtain ⟨hDen, hDen', hLess⟩ := hRises
      obtain rfl : ka = a := ha.eq hDen
      obtain rfl : ka' = a' := ha'.eq hDen'
      refine ⟨hDen, hDen', ?_⟩
      rcases hi' with rfl | rfl
      · exact hLess
      · rw [zero_div, zero_div] at hLess
        exact absurd hLess (lt_irrefl 0)
    omega

end Kept

/-- No figures that are taken away together add a point. -/
theorem NothingToHide.monotone (h : NothingToHide c p) {c' p' : Year} (hc : c'.Reduces c)
    (hp : p'.Reduces p) :
    (computePiotroski c' p').totalScore ≤ (computePiotroski c p).totalScore := by
  have hProfit := profitability_le hc.netIncome.kept hc.totalAssets.kept hc.operatingCashflow.kept
    hp.netIncome.kept hp.totalAssets.kept h.netIncomeBefore h.netIncome h.operatingCashflow
  have hLeverage := point_le_of_imp fun hRises => h.leverage (CanRise.of_kept hp.totalDebt.kept
    hp.totalAssets.kept hc.totalDebt.kept hc.totalAssets.kept hRises)
  have hCurrent := point_le_of_imp fun hRises => h.currentRatio (CanRise.of_kept
    hc.currentAssets.kept hc.currentLiabilities.kept hp.currentAssets.kept
    hp.currentLiabilities.kept hRises)
  have hShares : point (safe c'.sharesOutstanding ≤ safe p'.sharesOutstanding ∧
        0 < safe p'.sharesOutstanding) ≤
      point (safe c.sharesOutstanding ≤ safe p.sharesOutstanding ∧
        0 < safe p.sharesOutstanding) := by
    refine point_le_of_imp fun hKept => ?_
    have hPositive : 0 < safe p.sharesOutstanding := by
      rw [← hp.sharesOutstanding.kept.eq hKept.2.ne']
      exact hKept.2
    exact ⟨h.shares hPositive, hPositive⟩
  have hEfficiency := efficiency_le hc.grossProfit.kept hc.revenue.kept hc.totalAssets.kept
    hp.grossProfit.kept hp.revenue.kept hp.totalAssets.kept h.grossMargin h.assetTurnover
  rw [totalScore_eq, totalScore_eq]
  omega

end Removal

/-- Points need evidence exactly in the years in which no missing figure meets a criterion, and none
would that is there. -/
theorem needsEvidence_iff (c p : Year) : NeedsEvidence c p ↔ NoFreePoint c p ∧ NothingToHide c p := by
  constructor
  · exact fun h => ⟨earned_iff.mp h.earned, nothingToHide_of_monotone h.monotone⟩
  · rintro ⟨hPoints, hNothing⟩
    exact ⟨earned_iff.mpr hPoints, fun c' p' hc hp => hNothing.monotone hc hp⟩

/-- Debt that is no longer reported -/
theorem unreported_debt_scores :
    ¬NeedsEvidence ⟨.number 10, .number 100, .number 15, .none, .number 40, .number 20, .number 7,
        .number 30, .number 60⟩
      ⟨.number 10, .number 100, .number 15, .number 30, .number 40, .number 20, .number 7,
        .number 30, .number 60⟩ := by
  intro h
  obtain ⟨⟨-, -, ⟨v, hDebt⟩, -⟩, -⟩ := h.earned.leverageDecreasing (by decide +kernel)
  cases hDebt

end AsetPlatform.Screening
