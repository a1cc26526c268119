import AsetPlatform.Library.Streaks
import Mathlib.Algebra.Order.Field.Basic
import Mathlib.Data.List.MinMax
import Mathlib.Tactic.NormNum

/-!
# Drawdown of the price movement

`backend/tools/_analysis_movement.py`, the drawdown of `_analyse_price_movement`: the least distance of
a close to its running maximum, and the longest streak of rows below it. The distances of a row to the
closes above are at least the one to the running maximum, which is one of them (`isGreatest_cummax`);
the streaks of the flags are the rows of one number (`AsetPlatform.Library.constant_iff`).

Closes are exact.
-/

set_option autoImplicit false

namespace AsetPlatform.Reports.PriceMovement

open AsetPlatform.Library

universe u

variable {α : Type u} [LinearOrder α]

/-- `close.cummax()` -/
def cummax : List α → List α
  | [] => []
  | p :: ps => ps.scanl max p

section Definitions

variable [Field α]

/-- `(close - rolling_max) / rolling_max` -/
def drawdown (close : List α) : List α :=
  List.zipWith (fun p top => (p - top) / top) close (cummax close)

/-- `(drawdown < 0).astype(int)` -/
def inDrawdown (close : List α) : List Nat := (drawdown close).map fun d => if d < 0 then 1 else 0

/-- The rows of a drawdown up to each row, or 0 outside. -/
def groups (flags : List Nat) : List Nat :=
  List.zipWith (fun flag above => flag * (above + 1)) flags (streaks flags)

/-- `max_drawdown_pct` and `max_drawdown_duration_days`. -/
structure Drawdown (α : Type u) where
  pct : α
  durationDays : Nat
  deriving DecidableEq, Repr

/-- The drawdown of `_analyse_price_movement`; without rows there is no duration and the call raises. -/
def analysePriceMovement (round : α → α) (close : List α) : Option (Drawdown α) :=
  (drawdown close).min?.bind fun least =>
    (groups (inDrawdown close)).max?.map fun longest =>
      { pct := round (least * 100), durationDays := longest }

/-- The returns from a close to itself or a later one. -/
def returns (close : List α) : Set α :=
  {x | ∃ i j : Fin close.length, i ≤ j ∧ x = close.get j / close.get i - 1}

end Definitions

/-- A row is below the running maximum. -/
def BelowPeak (close : List α) (k : Fin close.length) : Prop :=
  ∃ i ≤ k, close.get k < close.get i

/-- The lengths of the runs of consecutive rows below the running maximum. -/
def belowRuns (close : List α) : Set Nat :=
  {n | ∃ i, i + n ≤ close.length ∧
    ∀ k : Fin close.length, i ≤ k → (k : Nat) < i + n → BelowPeak close k}

/-! ## The running maximum -/

section RunningMaximum

variable {close : List α} {k : Nat} {p top : α}

theorem length_cummax (close : List α) : (cummax close).length = close.length := by
  cases close with
  | nil => rfl
  | cons p ps => rw [cummax, List.length_scanl, List.length_cons]

theorem isGreatest_cummax (hTop : (cummax close)[k]? = some top) :
    IsGreatest {p | ∃ i ≤ k, close[i]? = some p} top := by
  cases close with
  | nil => cases hTop
  | cons p ps =>
      rw [cummax] at hTop
      induction k generalizing top with
      | zero =>
          rw [List.getElem?_scanl_zero, Option.some.injEq] at hTop
          subst hTop
          refine ⟨⟨0, le_rfl, rfl⟩, ?_⟩
          rintro q ⟨i, hi, hq⟩
          rw [Nat.le_zero.mp hi] at hq
          exact le_of_eq (Option.some.inj hq).symm
      | succ k ih =>
          rw [List.getElem?_succ_scanl, Option.bind_eq_some_iff] at hTop
          obtain ⟨above, hAbove, hTop⟩ := hTop
          obtain ⟨q, hq, rfl⟩ := Option.map_eq_some_iff.mp hTop
          obtain ⟨⟨i, hi, hMem⟩, hUpper⟩ := ih hAbove
          constructor
          · rcases max_choice above q with hMax | hMax
            · exact ⟨i, Nat.le_succ_of_le hi, by rw [hMem, hMax]⟩
            · exact ⟨k + 1, le_rfl, by rw [List.getElem?_cons_succ, hq, hMax]⟩
          · rintro r ⟨j, hj, hr⟩
            rcases Nat.le_succ_iff.mp hj with hj | rfl
            · exact (hUpper ⟨j, hj, hr⟩).trans (le_max_left _ _)
            · rw [List.getElem?_cons_succ, hq, Option.some.injEq] at hr
              exact hr ▸ le_max_right _ _

theorem exists_cummax (hk : k < close.length) : ∃ top, (cummax close)[k]? = some top :=
  ⟨_, List.getElem?_eq_getElem (by rwa [length_cummax])⟩

end RunningMaximum

/-! ## Distances to the running maximum -/

section Distances

variable [Field α] {close : List α} {k : Nat} {p d : α}

theorem length_drawdown (close : List α) : (drawdown close).length = close.length := by
  rw [drawdown, List.length_zipWith, length_cummax, Nat.min_self]

theorem length_inDrawdown (close : List α) : (inDrawdown close).length = close.length := by
  rw [inDrawdown, List.length_map, length_drawdown]

theorem exists_peak (hp : close[k]? = some p) (hd : (drawdown close)[k]? = some d) :
    ∃ top, d = (p - top) / top ∧ IsGreatest {q | ∃ i ≤ k, close[i]? = some q} top := by
  obtain ⟨top, hTop⟩ := exists_cummax (List.getElem?_eq_some_iff.mp hp).1
  rw [drawdown, List.getElem?_zipWith, hp, hTop] at hd
  exact ⟨top, (Option.some.inj hd).symm, isGreatest_cummax hTop⟩

variable [IsStrictOrderedRing α]

theorem isLeast_returns {least : α} (hPos : ∀ p ∈ close, 0 < p)
    (hLeast : (drawdown close).min? = some least) : IsLeast (returns close) least := by
  obtain ⟨hMem, hLower⟩ := List.min?_eq_some_iff.mp hLeast
  constructor
  · obtain ⟨k, hk⟩ := List.mem_iff_getElem?.mp hMem
    have hLt : k < close.length := by
      rw [← length_drawdown]
      exact (List.getElem?_eq_some_iff.mp hk).1
    obtain ⟨top, rfl, ⟨i, hi, hTop⟩, -⟩ := exists_peak (List.getElem?_eq_getElem hLt) hk
    obtain ⟨hiLt, rfl⟩ := List.getElem?_eq_some_iff.mp hTop
    refine ⟨⟨i, hiLt⟩, ⟨k, hLt⟩, hi, ?_⟩
    rw [sub_div, div_self (hPos _ (List.getElem_mem hiLt)).ne']
    rfl
  · -- the running maximum is at least the earlier close
    rintro x ⟨i, j, hi, rfl⟩
    have hj : close[(j : Nat)]? = some (close.get j) := List.getElem?_eq_getElem j.isLt
    obtain ⟨d, hd⟩ : ∃ d, (drawdown close)[(j : Nat)]? = some d :=
      ⟨_, List.getElem?_eq_getElem (by rw [length_drawdown]; exact j.isLt)⟩
    obtain ⟨top, hEq, -, hUpper⟩ := exists_peak hj hd
    have hTop : close.get i ≤ top := hUpper ⟨i, hi, List.getElem?_eq_getElem i.isLt⟩
    have hStart : 0 < close.get i := hPos _ (List.get_mem _ _)
    have hEnd : 0 < close.get j := hPos _ (List.get_mem _ _)
    calc least ≤ d := hLower d (List.mem_of_getElem? hd)
      _ = close.get j / top - 1 := by rw [hEq, sub_div, div_self (hStart.trans_le hTop).ne']
      _ ≤ close.get j / close.get i - 1 :=
        sub_le_sub_right (div_le_div_of_nonneg_left hEnd.le hStart hTop) 1

theorem getElem?_inDrawdown (hPos : ∀ p ∈ close, 0 < p) (k : Fin close.length) :
    ∃ flag, (inDrawdown close)[(k : Nat)]? = some flag ∧ (flag = 1 ∧ BelowPeak close k ∨
      flag = 0 ∧ ¬ BelowPeak close k) := by
  have hp : close[(k : Nat)]? = some (close.get k) := List.getElem?_eq_getElem k.isLt
  obtain ⟨d, hd⟩ : ∃ d, (drawdown close)[(k : Nat)]? = some d :=
    ⟨_, List.getElem?_eq_getElem (by rw [length_drawdown]; exact k.isLt)⟩
  obtain ⟨top, rfl, ⟨i, hi, hTop⟩, hUpper⟩ := exists_peak hp hd
  have hTopPos : 0 < top := hPos top (List.mem_of_getElem? hTop)
  have hBelow : (close.get k - top) / top < 0 ↔ BelowPeak close k := by
    rw [div_lt_iff₀ hTopPos, zero_mul, sub_neg]
    constructor
    · intro hLt
      obtain ⟨hiLt, rfl⟩ := List.getElem?_eq_some_iff.mp hTop
      exact ⟨⟨i, hiLt⟩, hi, hLt⟩
    · rintro ⟨j, hj, hLt⟩
      exact hLt.trans_le (hUpper ⟨j, hj, List.getElem?_eq_getElem j.isLt⟩)
  refine ⟨_, by rw [inDrawdown, List.getElem?_map, hd]; rfl, ?_⟩
  by_cases hFlag : (close.get k - top) / top < 0
  · exact Or.inl ⟨if_pos hFlag, hBelow.mp hFlag⟩
  · exact Or.inr ⟨if_neg hFlag, fun hNot => hFlag (hBelow.mpr hNot)⟩

theorem inDrawdown_eq_one_iff (hPos : ∀ p ∈ close, 0 < p) (k : Fin close.length) :
    (inDrawdown close)[(k : Nat)]? = some 1 ↔ BelowPeak close k := by
  obtain ⟨flag, hFlag, ⟨rfl, hBelow⟩ | ⟨rfl, hAbove⟩⟩ := getElem?_inDrawdown hPos k
  · exact iff_of_true hFlag hBelow
  · refine iff_of_false ?_ hAbove
    rw [hFlag, Option.some.injEq]
    exact Nat.zero_ne_one

theorem isGreatest_belowRuns {longest : Nat} (hPos : ∀ p ∈ close, 0 < p)
    (hLongest : (groups (inDrawdown close)).max? = some longest) :
    IsGreatest (belowRuns close) longest := by
  obtain ⟨hMem, hUpper⟩ := List.max?_eq_some_iff.mp hLongest
  constructor
  · obtain ⟨k, hk⟩ := List.mem_iff_getElem?.mp hMem
    rw [groups, List.getElem?_zipWith_eq_some] at hk
    obtain ⟨flag, n, hFlag, hn, rfl⟩ := hk
    have hLt : k < close.length := by
      rw [← length_inDrawdown]
      exact (List.getElem?_eq_some_iff.mp hFlag).1
    obtain ⟨flag', hFlag', hCases⟩ := getElem?_inDrawdown hPos ⟨k, hLt⟩
    obtain rfl : flag = flag' := Option.some.inj (hFlag.symm.trans hFlag')
    rcases hCases with ⟨rfl, -⟩ | ⟨rfl, -⟩
    · -- the rows of the streak, up to this one
      have hStart : n ≤ k := streak_le hn
      rw [Nat.one_mul]
      refine ⟨k - n, by omega, ?_⟩
      intro j hFrom hTo
      have hConstant := (constant_iff hFlag hn (Nat.sub_le k n)).mpr (by omega)
      exact (inDrawdown_eq_one_iff hPos j).mp (hConstant j hFrom (by omega))
    · rw [Nat.zero_mul]
      exact ⟨0, Nat.zero_le _, fun j _ hTo => absurd hTo (Nat.not_lt_zero _)⟩
  · rintro length ⟨i, hEnd, hAll⟩
    cases length with
    | zero => exact Nat.zero_le _
    | succ m =>
        -- the last row of the run counts all of it
        have hFlags : ∀ j, i ≤ j → j ≤ i + m → (inDrawdown close)[j]? = some 1 := by
          intro j hFrom hTo
          exact (inDrawdown_eq_one_iff hPos ⟨j, by omega⟩).mpr
            (hAll ⟨j, by omega⟩ hFrom (Nat.lt_succ_of_le hTo))
        have hLast := hFlags (i + m) (Nat.le_add_right i m) le_rfl
        obtain ⟨n, hn⟩ := exists_streak hLast
        have hLong := (constant_iff hLast hn (Nat.le_add_right i m)).mp hFlags
        have hGroup : (groups (inDrawdown close))[i + m]? = some (n + 1) := by
          rw [groups, List.getElem?_zipWith_eq_some]
          exact ⟨1, n, hLast, hn, Nat.one_mul _⟩
        have hLe : n + 1 ≤ longest := hUpper _ (List.mem_of_getElem? hGroup)
        omega

/-- The drawdown is the least return from a close to itself or a later one, and its duration is the
length of the longest run of rows below the running maximum. -/
theorem drawdown_exact (round : α → α) (close : List α) (hne : close ≠ [])
    (hPos : ∀ p ∈ close, 0 < p) :
    ∃ least longest,
      analysePriceMovement round close = some ⟨round (least * 100), longest⟩ ∧
        IsLeast (returns close) least ∧ IsGreatest (belowRuns close) longest := by
  have hDrawdown : drawdown close ≠ [] := by
    rw [← List.length_pos_iff, length_drawdown]
    exact List.length_pos_iff.mpr hne
  have hGroups : groups (inDrawdown close) ≠ [] := by
    rw [← List.length_pos_iff, groups, List.length_zipWith, length_streaks, length_inDrawdown,
      Nat.min_self]
    exact List.length_pos_iff.mpr hne
  obtain ⟨least, hLeast⟩ := Option.isSome_iff_exists.mp (List.isSome_min?_of_ne_nil hDrawdown)
  obtain ⟨longest, hLongest⟩ := Option.isSome_iff_exists.mp (List.isSome_max?_of_ne_nil hGroups)
  refine ⟨least, longest, ?_, isLeast_returns hPos hLeast, isGreatest_belowRuns hPos hLongest⟩
  rw [analysePriceMovement, hLeast, hLongest]
  rfl

/-- Two drawdowns, of which the second lasts to the end. -/
theorem drawdown_exact_twice :
    ∃ least longest,
      analysePriceMovement id [(100 : ℚ), 80, 110, 99, 88, 100] =
          some ⟨id (least * 100), longest⟩ ∧
        IsLeast (returns [(100 : ℚ), 80, 110, 99, 88, 100]) least ∧
        IsGreatest (belowRuns [(100 : ℚ), 80, 110, 99, 88, 100]) longest :=
  drawdown_exact id _ (List.cons_ne_nil _ _) (by simp)

example : analysePriceMovement id [(100 : ℚ), 80, 110, 99, 88, 100] = some ⟨-20, 3⟩ := by
  decide +kernel

end Distances

end AsetPlatform.Reports.PriceMovement
