import AsetPlatform.Reports.PriceMovement

/-!
# Figures of a series of values

The figures that `backend/tools/portfolio_tools.py` takes from the daily values of a portfolio: total
return, daily returns and drawdown. A figure of floats may be infinite or not a number, when it is a
quotient by zero. The figures are all zero exactly if the values stay the same, and are not zero
(`still_iff`).

Values are exact, and figures are not rounded.
-/

set_option autoImplicit false

namespace AsetPlatform.Portfolio.Chat

open AsetPlatform.Reports.PriceMovement (cummax)

/-! ## Figures -/

/-- A float that is a quotient. -/
inductive Figure where
  | nan
  | infinite
  | finite (x : ℚ)
  deriving DecidableEq

/-- `x / y` -/
def quotient (x y : ℚ) : Figure :=
  if y = 0 then if x = 0 then .nan else .infinite else .finite (x / y)

def Figure.map (f : ℚ → ℚ) : Figure → Figure
  | .nan => .nan
  | .infinite => .infinite
  | .finite x => .finite (f x)

def Figure.value : Figure → Option ℚ
  | .finite x => some x
  | _ => none

/-- `dropna()` -/
def dropna (figures : List Figure) : List Figure := figures.filter (· ≠ .nan)

/-- `min()`, where an infinite figure is below all others. -/
def least (figures : List Figure) : Figure :=
  if .infinite ∈ figures then .infinite
  else
    match (figures.filterMap Figure.value).min? with
    | some x => .finite x
    | none => .nan

/-- `pct_change()`, from the second value on. -/
def pctChange (values : List ℚ) : List Figure :=
  List.zipWith (fun before after => (quotient after before).map (· - 1)) values values.tail

/-- `daily_returns` -/
def dailyReturns (values : List ℚ) : List Figure := dropna (pctChange values)

/-- `total_return` -/
def totalReturn (values : List ℚ) : Figure :=
  match values.head?, values.getLast? with
  | some first, some last => (quotient last first).map fun q => (q - 1) * 100
  | _, _ => .nan

/-- `drawdown` -/
def drawdown (values : List ℚ) : List Figure :=
  List.zipWith (fun value peak => quotient (value - peak) peak) values (cummax values)

/-- `max_dd` -/
def maxDrawdown (values : List ℚ) : Figure := (least (drawdown values)).map (· * 100)

structure Metrics where
  totalReturn : Figure
  dailyReturns : List Figure
  maxDrawdown : Figure
  deriving DecidableEq

def metrics (values : List ℚ) : Metrics where
  totalReturn := totalReturn values
  dailyReturns := dailyReturns values
  maxDrawdown := maxDrawdown values

/-- All figures are zero. -/
structure Metrics.Still (m : Metrics) : Prop where
  totalReturn : m.totalReturn = .finite 0
  dailyReturns : ∀ r ∈ m.dailyReturns, r = .finite 0
  maxDrawdown : m.maxDrawdown = .finite 0

/-! ## Values that stay the same -/

theorem quotient_of_ne {x y : ℚ} (h : y ≠ 0) : quotient x y = .finite (x / y) := if_neg h

theorem percent_eq_zero_iff (before after : ℚ) :
    (quotient after before).map (fun q => (q - 1) * 100) = .finite 0 ↔ before ≠ 0 ∧ after = before := by
  rw [quotient]
  by_cases hZero : before = 0
  · rw [if_pos hZero]
    split <;> simp [Figure.map, hZero]
  · rw [if_neg hZero]
    simp [Figure.map, hZero, sub_eq_zero, div_eq_one_iff_eq]

section Values

variable {v w : ℚ} {values : List ℚ}

theorem dailyReturns_cons_cons (hNe : v ≠ 0) : dailyReturns (v :: w :: values) =
    .finite (w / v - 1) :: dailyReturns (w :: values) := by
  have hStep : pctChange (v :: w :: values) =
      (quotient w v).map (· - 1) :: pctChange (w :: values) := rfl
  rw [dailyReturns, dropna, hStep, quotient_of_ne hNe]
  exact List.filter_cons_of_pos (by simp [Figure.map])

theorem dailyReturns_iff (hNe : v ≠ 0) :
    (∀ r ∈ dailyReturns (v :: values), r = .finite 0) ↔ ∀ x ∈ values, x = v := by
  induction values with
  | nil => exact iff_of_true (fun r hr => by simp [dailyReturns, pctChange, dropna] at hr) (by simp)
  | cons w values ih =>
      rw [dailyReturns_cons_cons hNe, List.forall_mem_cons, List.forall_mem_cons, Figure.finite.injEq,
        sub_eq_zero, div_eq_one_iff_eq hNe]
      apply and_congr_right
      rintro rfl
      exact ih

theorem totalReturn_iff : totalReturn (v :: values) = .finite 0 ↔
    v ≠ 0 ∧ (v :: values).getLast (List.cons_ne_nil _ _) = v := by
  rw [totalReturn, List.head?_cons, List.getLast?_eq_some_getLast (List.cons_ne_nil _ _)]
  exact percent_eq_zero_iff _ _

theorem cummax_replicate (v : ℚ) (n : Nat) : cummax (List.replicate n v) = List.replicate n v := by
  cases n with
  | zero => rfl
  | succ n =>
      rw [List.replicate_succ, cummax]
      induction n with
      | zero => rfl
      | succ n ih => rw [List.replicate_succ, List.scanl_cons, max_self, ih]

theorem maxDrawdown_replicate (hNe : v ≠ 0) (n : Nat) :
    maxDrawdown (List.replicate (n + 1) v) = .finite 0 := by
  have hDrawdown : drawdown (List.replicate (n + 1) v) = List.replicate (n + 1) (.finite 0) := by
    rw [drawdown, cummax_replicate, List.zipWith_replicate, Nat.min_self, sub_self, quotient_of_ne hNe,
      zero_div]
  have hFinite : (List.replicate (n + 1) (Figure.finite 0)).filterMap Figure.value =
      List.replicate (n + 1) 0 :=
    List.filterMap_replicate_of_some rfl
  have hInfinite : Figure.infinite ∉ List.replicate (n + 1) (Figure.finite 0) := by
    intro hMem
    cases List.eq_of_mem_replicate hMem
  have hLeast : (List.replicate (n + 1) (0 : ℚ)).min? = some 0 := by
    rw [List.min?_replicate_of_pos (Nat.succ_pos n)]
  rw [maxDrawdown, hDrawdown, least, if_neg hInfinite, hFinite, hLeast]
  simp [Figure.map]

theorem still_iff (hSome : values ≠ []) :
    (metrics values).Still ↔ ∃ v, v ≠ 0 ∧ ∀ x ∈ values, x = v := by
  obtain ⟨v, values, rfl⟩ := List.exists_cons_of_ne_nil hSome
  constructor
  · intro h
    have hNe := (totalReturn_iff.mp h.totalReturn).1
    exact ⟨v, hNe, List.forall_mem_cons.mpr ⟨rfl, (dailyReturns_iff hNe).mp h.dailyReturns⟩⟩
  · rintro ⟨u, hNe, hSame⟩
    obtain ⟨rfl, hRest⟩ := List.forall_mem_cons.mp hSame
    have hAll : v :: values = List.replicate (values.length + 1) v :=
      List.eq_replicate_iff.mpr ⟨rfl, hSame⟩
    refine ⟨totalReturn_iff.mpr ⟨hNe, ?_⟩, (dailyReturns_iff hNe).mpr hRest, ?_⟩
    · exact hSame _ (List.getLast_mem _)
    · show maxDrawdown (v :: values) = .finite 0
      rw [hAll]
      exact maxDrawdown_replicate hNe _

theorem dailyReturns_ne_nil (hNe : v ≠ 0) : dailyReturns (v :: w :: values) ≠ [] := by
  rw [dailyReturns_cons_cons hNe]
  exact List.cons_ne_nil _ _

end Values

end AsetPlatform.Portfolio.Chat
