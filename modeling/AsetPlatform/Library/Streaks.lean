import Mathlib.Algebra.Order.Group.Nat
import Mathlib.Data.List.Count
import Mathlib.Data.List.Basic

/-!
# Streaks of equal entries

Rows are numbered by the changes before them (`cumsum` of `changes`), and each row counts the rows of
its number above it (`cumcount`). The count says how far the entries above a row are equal to its own
(`constant_iff`): a change starts a new number (`streak_succ`), since the numbers only grow.
-/

set_option autoImplicit false

namespace AsetPlatform.Library

universe u

variable {β : Type u} [DecidableEq β]

/-- The rows that differ from the one above; the first row does. -/
def changes (xs : List β) : List Bool :=
  List.zipWith (fun x before => decide (before ≠ some x)) xs (none :: xs.map some)

/-- The number of changes up to each row. -/
def cumsum (bs : List Bool) : List Nat := (bs.scanl (fun n b => n + b.toNat) 0).tail

/-- The rows above with the key of a row. -/
def cumcount (keys : List Nat) : List Nat :=
  keys.zipIdx.map fun row => (keys.take row.2).count row.1

/-- The equal entries directly above each row. -/
def streaks (xs : List β) : List Nat := cumcount (cumsum (changes xs))

/-! ## The numbers of the rows -/

theorem length_changes (xs : List β) : (changes xs).length = xs.length := by
  rw [changes, List.length_zipWith, List.length_cons, List.length_map]
  exact Nat.min_eq_left (Nat.le_succ _)

theorem length_cumsum (bs : List Bool) : (cumsum bs).length = bs.length := by
  rw [cumsum, List.length_tail, List.length_scanl, Nat.add_sub_cancel]

theorem length_cumcount (keys : List Nat) : (cumcount keys).length = keys.length := by
  rw [cumcount, List.length_map, List.length_zipIdx]

theorem length_streaks (xs : List β) : (streaks xs).length = xs.length := by
  rw [streaks, length_cumcount, length_cumsum, length_changes]

theorem getElem?_changes_succ {xs : List β} {k : Nat} {a b : β} (ha : xs[k]? = some a)
    (hb : xs[k + 1]? = some b) : (changes xs)[k + 1]? = some (decide (some a ≠ some b)) := by
  rw [changes, List.getElem?_zipWith, hb, List.getElem?_cons_succ, List.getElem?_map, ha]
  rfl

theorem getElem?_cumsum_succ {bs : List Bool} {k g : Nat} {b : Bool} (hg : (cumsum bs)[k]? = some g)
    (hb : bs[k + 1]? = some b) : (cumsum bs)[k + 1]? = some (g + b.toNat) := by
  rw [cumsum, List.getElem?_tail] at hg ⊢
  rw [List.getElem?_succ_scanl, hg, hb]
  rfl

theorem getElem?_numbers_succ {xs : List β} {k g : Nat} {a b : β} (ha : xs[k]? = some a)
    (hb : xs[k + 1]? = some b) (hg : (cumsum (changes xs))[k]? = some g) :
    (cumsum (changes xs))[k + 1]? = some (if a = b then g else g + 1) := by
  rw [getElem?_cumsum_succ hg (getElem?_changes_succ ha hb)]
  by_cases hEq : a = b
  · simp [hEq]
  · simp [hEq]

theorem getElem?_cumcount {keys : List Nat} {k g : Nat} (hg : keys[k]? = some g) :
    (cumcount keys)[k]? = some ((keys.take k).count g) := by
  rw [cumcount, List.getElem?_map, List.getElem?_zipIdx, hg]
  simp

section Numbers

variable {xs : List β} {k g : Nat}

theorem exists_number {a : β} (ha : xs[k]? = some a) : ∃ g, (cumsum (changes xs))[k]? = some g := by
  have hLt : k < (cumsum (changes xs)).length := by
    rw [length_cumsum, length_changes]
    exact (List.getElem?_eq_some_iff.mp ha).1
  exact ⟨_, List.getElem?_eq_getElem hLt⟩

theorem le_number (hg : (cumsum (changes xs))[k]? = some g) :
    ∀ e ∈ (cumsum (changes xs)).take (k + 1), e ≤ g := by
  induction k generalizing g with
  | zero =>
      intro e he
      rw [List.take_add_one, List.take_zero, hg] at he
      exact le_of_eq (List.mem_singleton.mp he)
  | succ k ih =>
      have hLt : k + 1 < xs.length := by
        rw [← length_changes xs, ← length_cumsum]
        exact (List.getElem?_eq_some_iff.mp hg).1
      have ha := List.getElem?_eq_getElem (Nat.lt_of_succ_lt hLt)
      obtain ⟨h, hh⟩ := exists_number ha
      have hNext := getElem?_numbers_succ ha (List.getElem?_eq_getElem hLt) hh
      have hStep : h ≤ g := by
        rw [hg, Option.some.injEq] at hNext
        rw [hNext]
        split
        · exact le_rfl
        · exact Nat.le_succ h
      intro e he
      rw [List.take_add_one, hg, List.mem_append] at he
      rcases he with he | he
      · exact (ih hh e he).trans hStep
      · exact le_of_eq (List.mem_singleton.mp he)

end Numbers

/-! ## The streak of a row -/

section Streaks

variable {xs : List β} {i k n : Nat} {a b : β}

theorem streak_succ (ha : xs[k]? = some a) (hb : xs[k + 1]? = some b) (hn : (streaks xs)[k]? = some n) :
    (streaks xs)[k + 1]? = some (if a = b then n + 1 else 0) := by
  obtain ⟨g, hg⟩ := exists_number ha
  have hNext := getElem?_numbers_succ ha hb hg
  have hCount : ((cumsum (changes xs)).take k).count g = n := by
    rw [streaks, getElem?_cumcount hg] at hn
    exact Option.some.inj hn
  rw [streaks, getElem?_cumcount hNext]
  congr 1
  by_cases hEq : a = b
  · rw [if_pos hEq, if_pos hEq, List.take_add_one, hg, List.count_append, hCount]
    exact congrArg (n + ·) List.count_singleton_self
  · rw [if_neg hEq, if_neg hEq, List.count_eq_zero]
    intro hMem
    exact absurd (le_number hg _ hMem) (Nat.not_succ_le_self g)

theorem exists_streak (ha : xs[k]? = some a) : ∃ n, (streaks xs)[k]? = some n := by
  obtain ⟨g, hg⟩ := exists_number ha
  exact ⟨_, getElem?_cumcount hg⟩

theorem streak_le (hn : (streaks xs)[k]? = some n) : n ≤ k := by
  have hLt : k < (cumsum (changes xs)).length := by
    rw [← length_cumcount]
    exact (List.getElem?_eq_some_iff.mp hn).1
  rw [streaks, getElem?_cumcount (List.getElem?_eq_getElem hLt)] at hn
  rw [← Option.some.inj hn]
  exact List.count_le_length.trans (List.length_take_le _ _)

theorem constant_iff (ha : xs[k]? = some a) (hn : (streaks xs)[k]? = some n) (hi : i ≤ k) :
    (∀ j, i ≤ j → j ≤ k → xs[j]? = some a) ↔ k ≤ i + n := by
  induction k generalizing a n with
  | zero =>
      constructor
      · exact fun _ => Nat.zero_le _
      · intro _ j _ hj
        rwa [Nat.le_zero.mp hj]
  | succ k ih =>
      have hLt : k < xs.length := Nat.lt_of_succ_lt (List.getElem?_eq_some_iff.mp ha).1
      have hb := List.getElem?_eq_getElem hLt
      obtain ⟨m, hm⟩ := exists_streak hb
      rw [streak_succ hb ha hm, Option.some.injEq] at hn
      subst hn
      rcases Nat.lt_or_ge k i with hLast | hBefore
      · -- the streak of the row alone
        obtain rfl : i = k + 1 := le_antisymm hi hLast
        constructor
        · exact fun _ => Nat.le_add_right _ _
        · intro _ j hFrom hTo
          rwa [le_antisymm hTo hFrom]
      · by_cases hEq : xs[k] = a
        · rw [if_pos hEq, ← Nat.add_assoc, Nat.succ_le_succ_iff, ← ih hb hm hBefore, hEq]
          constructor
          · exact fun hAll j hFrom hTo => hAll j hFrom (Nat.le_succ_of_le hTo)
          · intro hAll j hFrom hTo
            rcases Nat.le_succ_iff.mp hTo with hTo | rfl
            · exact hAll j hFrom hTo
            · exact ha
        · rw [if_neg hEq]
          constructor
          · intro hAll
            have hHere := hAll k hBefore (Nat.le_succ k)
            rw [hb, Option.some.injEq] at hHere
            exact absurd hHere hEq
          · intro hTo
            omega

end Streaks

end AsetPlatform.Library
