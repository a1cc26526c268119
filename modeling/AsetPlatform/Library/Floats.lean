import Mathlib.Data.Rat.Floor

/-!
# Floats with NaN

A float is a rational, or NaN (`none`). NaN compares false with everything. `round2` rounds to the
nearest hundredth and `round4` to the nearest ten-thousandth, ties to even.
-/

set_option autoImplicit false

namespace AsetPlatform.Library

/-- `x > bound`. -/
def above (x : Option ℚ) (bound : ℚ) : Bool := x.any fun v => bound < v

/-- `x < bound`. -/
def below (x : Option ℚ) (bound : ℚ) : Bool := x.any fun v => v < bound

/-- `x > y`. -/
def greater (x y : Option ℚ) : Bool := y.any fun bound => above x bound

@[simp]
theorem above_none (bound : ℚ) : above none bound = false := rfl

@[simp]
theorem below_none (bound : ℚ) : below none bound = false := rfl

@[simp]
theorem greater_none_left (y : Option ℚ) : greater none y = false := by
  cases y <;> rfl

@[simp]
theorem greater_none_right (x : Option ℚ) : greater x none = false := rfl

/-- `round(x, 2)`. -/
def round2 (x : ℚ) : ℚ :=
  let n := (x * 100).floor
  let rest := x * 100 - n
  if rest < 1 / 2 ∨ rest = 1 / 2 ∧ n % 2 = 0 then n / 100 else (n + 1) / 100

theorem round2_mono {x y : ℚ} (h : x ≤ y) : round2 x ≤ round2 y := by
  have hScaled : x * 100 ≤ y * 100 := mul_le_mul_of_nonneg_right h (by norm_num)
  have hFloor : (x * 100).floor ≤ (y * 100).floor := Rat.floor_monotone hScaled
  rcases hFloor.eq_or_lt with hSame | hLess
  · -- on the same floor, what is left over decides
    rw [round2, round2]
    simp only [← hSame]
    have hRest : x * 100 - (x * 100).floor ≤ y * 100 - (x * 100).floor := sub_le_sub_right hScaled _
    split
    · split <;> linarith
    · rename_i hUp
      rw [if_neg]
      rintro (hLow | ⟨hHalf, hEven⟩)
      · exact hUp (Or.inl (hRest.trans_lt hLow))
      · rcases (hRest.trans_eq hHalf).lt_or_eq with hLow | hTie
        · exact hUp (Or.inl hLow)
        · exact hUp (Or.inr ⟨hTie, hEven⟩)
  · have hStep : ((x * 100).floor : ℚ) + 1 ≤ (y * 100).floor := by exact_mod_cast hLess
    have hLeft : round2 x ≤ ((x * 100).floor + 1) / 100 := by
      rw [round2]
      split <;> linarith
    have hRight : ((y * 100).floor : ℚ) / 100 ≤ round2 y := by
      rw [round2]
      split <;> linarith
    linarith

theorem round2_le (x : ℚ) : round2 x ≤ x + 1 / 100 := by
  have hFloor : ((x * 100).floor : ℚ) ≤ x * 100 := Rat.floor_le _
  rw [round2]
  split <;> linarith

theorem le_round2 (x : ℚ) : x - 1 / 100 ≤ round2 x := by
  have hFloor : x * 100 < (x * 100).floor + 1 := by exact_mod_cast Rat.lt_floor_add_one (x * 100)
  rw [round2]
  split <;> linarith

/-- `round(x, 4)`. -/
def round4 (x : ℚ) : ℚ :=
  let n := (x * 10000).floor
  let rest := x * 10000 - n
  if rest < 1 / 2 ∨ rest = 1 / 2 ∧ n % 2 = 0 then n / 10000 else (n + 1) / 10000

/-- `max(x, y)`, which is `x` unless `y` is greater. -/
def maxOf (x y : Option ℚ) : Option ℚ := if greater y x then y else x

/-- `min(x, y)`, which is `x` unless `y` is less. -/
def minOf (x y : Option ℚ) : Option ℚ := if greater x y then y else x

@[simp]
theorem minOf_none_right (x : Option ℚ) : minOf x none = x := by
  rw [minOf, greater_none_right]
  rfl

@[simp]
theorem maxOf_some (x y : ℚ) : maxOf (some x) (some y) = some (max x y) := by
  rw [maxOf, max_def]
  by_cases h : x < y
  · simp [greater, above, h, h.le]
  · simp only [greater, above, Option.any_some, decide_eq_false h, Bool.false_eq_true, if_false]
    split
    · rename_i hLe
      rw [le_antisymm hLe (not_lt.mp h)]
    · rfl

@[simp]
theorem minOf_some (x y : ℚ) : minOf (some x) (some y) = some (min x y) := by
  rw [minOf, min_def]
  by_cases h : y < x
  · simp [greater, above, h, not_le.mpr h]
  · simp [greater, above, h, not_lt.mp h]

/-! ## Sums and products -/

/-- `x * y`. -/
def times (x y : Option ℚ) : Option ℚ := x.bind fun a => y.map fun b => a * b

/-- `x + y`. -/
def plus (x y : Option ℚ) : Option ℚ := x.bind fun a => y.map fun b => a + b

/-- `c * x`, for a number `c`. -/
def scaled (c : ℚ) (x : Option ℚ) : Option ℚ := x.map (c * ·)

/-- The sum of floats; it is NaN if one of them is. -/
def nanSum (xs : List (Option ℚ)) : Option ℚ := xs.foldl plus (some 0)

theorem nanSum_map_some (xs : List ℚ) : nanSum (xs.map some) = some xs.sum := by
  have hFold : ∀ start : ℚ, (xs.map some).foldl plus (some start) = some (start + xs.sum) := by
    induction xs with
    | nil => exact fun start => by rw [List.sum_nil, add_zero]; rfl
    | cons x xs ih =>
        intro start
        rw [List.sum_cons, ← add_assoc]
        exact ih (start + x)
  rw [nanSum, hFold, zero_add]

end AsetPlatform.Library
