import Mathlib.Data.List.Sort

/-!
# Reading a growing list behind a cursor

A reader works through the items of a list in the order of their numbers, a batch at a time: a batch
holds the first items with a number above the cursor, and the cursor moves to each item that the
reader is done with. `Pending` says of a batch under way that no item above the cursor stands outside
of it before its end. It holds of a batch that was just read, when items are added with new numbers,
and when the first item is done with; so nothing but that item is passed (`Pending.eq_head`). A
reader that goes on batch after batch comes to every eligible item above the cursor
(`exists_mem_nextBatch`), and to no item below it (`not_mem_nextBatch`).
-/

set_option autoImplicit false

namespace AsetPlatform.Library

universe u

variable {α : Type u} (number : α → Nat) (eligible : α → Bool)

/-- The first `size` eligible items above the cursor, in their order. -/
def nextBatch (items : List α) (cursor size : Nat) : List α :=
  ((items.filter fun a => eligible a && decide (cursor < number a)).insertionSort
    fun a b => number a ≤ number b).take size

/-- The items of a batch are in order, above the cursor, and no eligible item is left out before the
last of them. -/
structure Pending (items : List α) (cursor : Nat) (batch : List α) : Prop where
  ordered : batch.Pairwise fun a b => number a < number b
  above : ∀ b ∈ batch, cursor < number b
  mem : ∀ b ∈ batch, b ∈ items ∧ eligible b = true
  complete : ∀ a ∈ items, eligible a = true → cursor < number a →
    a ∈ batch ∨ ∀ b ∈ batch, number b < number a

variable {number eligible} {items batch : List α} {cursor size : Nat} {a b : α}

theorem mem_above : a ∈ (items.filter fun a => eligible a && decide (cursor < number a)).insertionSort
      (fun a b => number a ≤ number b) ↔
    a ∈ items ∧ eligible a = true ∧ cursor < number a := by
  rw [List.mem_insertionSort, List.mem_filter, Bool.and_eq_true, decide_eq_true_eq]

theorem nextBatch_eq_nil_iff (hSize : 0 < size) : nextBatch number eligible items cursor size = [] ↔
    ∀ a ∈ items, eligible a = true → number a ≤ cursor := by
  rw [nextBatch, List.take_eq_nil_iff]
  constructor
  · intro h a hMem hEligible
    by_contra hLt
    have hAbove := mem_above.mpr ⟨hMem, hEligible, Nat.lt_of_not_le hLt⟩
    rcases h with h | h
    · exact absurd h (Nat.ne_of_gt hSize)
    · rw [h] at hAbove
      cases hAbove
  · intro h
    refine Or.inr (List.eq_nil_iff_forall_not_mem.mpr fun a hMem => ?_)
    obtain ⟨hMem, hEligible, hLt⟩ := mem_above.mp hMem
    exact absurd (h a hMem hEligible) (Nat.not_le_of_lt hLt)

theorem pending_nextBatch (hDistinct : (items.map number).Nodup) :
    Pending number eligible items cursor (nextBatch number eligible items cursor size) := by
  have hSorted : ((items.filter fun a => eligible a && decide (cursor < number a)).insertionSort
      fun a b => number a ≤ number b).Pairwise fun a b => number a < number b := by
    have hLe := List.pairwise_insertionSort (fun a b => number a ≤ number b)
      (items.filter fun a => eligible a && decide (cursor < number a))
    have hNe : ((items.filter fun a => eligible a && decide (cursor < number a)).insertionSort
        fun a b => number a ≤ number b).Pairwise fun a b => number a ≠ number b := by
      have hNodup := hDistinct.sublist
        ((List.filter_sublist (p := fun a => eligible a && decide (cursor < number a))).map number)
      exact List.pairwise_map.mp
        (((List.perm_insertionSort _ _).map number).nodup_iff.mpr hNodup)
    exact hLe.imp₂ (fun a b hLe hNe => Nat.lt_of_le_of_ne hLe hNe) hNe
  refine ⟨hSorted.sublist (List.take_sublist _ _), ?_, ?_, ?_⟩
  · intro b hb
    exact (mem_above.mp (List.mem_of_mem_take hb)).2.2
  · intro b hb
    obtain ⟨hMem, hEligible, -⟩ := mem_above.mp (List.mem_of_mem_take hb)
    exact ⟨hMem, hEligible⟩
  · intro a hMem hEligible hLt
    have hAbove := mem_above.mpr ⟨hMem, hEligible, hLt⟩
    rw [← List.take_append_drop size ((items.filter fun a =>
      eligible a && decide (cursor < number a)).insertionSort fun a b => number a ≤ number b)]
      at hAbove hSorted
    rcases List.mem_append.mp hAbove with hTake | hDrop
    · exact Or.inl hTake
    · -- what comes behind the batch has a greater number than all of it
      exact Or.inr fun b hb => (List.pairwise_append.mp hSorted).2.2 b hb a hDrop

namespace Pending

theorem eq_head (h : Pending number eligible items cursor (b :: batch)) (hMem : a ∈ items)
    (hEligible : eligible a = true) (hLe : number a ≤ number b) : number a ≤ cursor ∨ a = b := by
  by_cases hLt : cursor < number a
  · right
    rcases h.complete a hMem hEligible hLt with hBatch | hBefore
    · rcases List.mem_cons.mp hBatch with rfl | hTail
      · rfl
      · have hGreater := (List.pairwise_cons.mp h.ordered).1 a hTail
        omega
    · have hLess := hBefore b List.mem_cons_self
      omega
  · exact Or.inl (Nat.le_of_not_lt hLt)

theorem tail (h : Pending number eligible items cursor (b :: batch)) :
    Pending number eligible items (number b) batch := by
  obtain ⟨hHead, hTail⟩ := List.pairwise_cons.mp h.ordered
  refine ⟨hTail, hHead, fun x hx => h.mem x (List.mem_cons_of_mem _ hx), ?_⟩
  intro a hMem hEligible hLt
  have hCursor := h.above b List.mem_cons_self
  rcases h.complete a hMem hEligible (by omega) with hBatch | hBefore
  · rcases List.mem_cons.mp hBatch with rfl | hIn
    · exact absurd hLt (Nat.lt_irrefl _)
    · exact Or.inl hIn
  · exact Or.inr fun x hx => hBefore x (List.mem_cons_of_mem _ hx)

theorem concat (h : Pending number eligible items cursor batch)
    (hNew : ∀ x ∈ items, number x < number a) : Pending number eligible (items ++ [a]) cursor batch where
  ordered := h.ordered
  above := h.above
  mem := fun b hb => ⟨List.mem_append_left _ (h.mem b hb).1, (h.mem b hb).2⟩
  complete := by
    intro x hMem hEligible hLt
    rcases List.mem_append.mp hMem with hMem | hMem
    · exact h.complete x hMem hEligible hLt
    · rw [List.mem_singleton.mp hMem]
      exact Or.inr fun b hb => hNew b (h.mem b hb).1

end Pending

/-! ## Batch after batch -/

/-- The cursor once a batch is done with. -/
def nextPosition (number : α → Nat) (eligible : α → Bool) (items : List α) (size cursor : Nat) : Nat :=
  ((nextBatch number eligible items cursor size).getLast?.map number).getD cursor

/-- With batches of some size a reader comes to every item that it has not passed. -/
theorem exists_mem_nextBatch (hDistinct : (items.map number).Nodup) (hSize : 0 < size)
    (hMem : a ∈ items) (hEligible : eligible a = true) (hLt : cursor < number a) :
    ∃ n, a ∈ nextBatch number eligible items
      ((nextPosition number eligible items size)^[n] cursor) size := by
  -- the distance to the item decreases with each batch that does not hold it
  induction hDistance : number a - cursor using Nat.strong_induction_on generalizing cursor with
  | _ distance ih =>
      have hPending : Pending number eligible items cursor
          (nextBatch number eligible items cursor size) := pending_nextBatch hDistinct
      rcases hPending.complete a hMem hEligible hLt with hBatch | hBefore
      · exact ⟨0, hBatch⟩
      · cases hLast : (nextBatch number eligible items cursor size).getLast? with
        | none =>
            have hNil := List.getLast?_eq_none_iff.mp hLast
            have hPassed := (nextBatch_eq_nil_iff hSize).mp hNil a hMem hEligible
            omega
        | some b =>
            have hb := List.mem_of_getLast? hLast
            have hPosition : nextPosition number eligible items size cursor = number b := by
              rw [nextPosition, hLast]
              rfl
            have hAbove := hPending.above b hb
            have hBelow := hBefore b hb
            have hNearer : number a - number b < distance := by omega
            obtain ⟨n, hn⟩ := ih _ hNearer hBelow rfl
            exact ⟨n + 1, by rwa [Function.iterate_succ_apply, hPosition]⟩

theorem le_nextPosition : cursor ≤ nextPosition number eligible items size cursor := by
  rw [nextPosition]
  cases hLast : (nextBatch number eligible items cursor size).getLast? with
  | none => exact Nat.le_refl _
  | some b =>
      exact Nat.le_of_lt (mem_above.mp (List.mem_of_mem_take (List.mem_of_getLast? hLast))).2.2

theorem not_mem_nextBatch (hLe : number a ≤ cursor) (n : Nat) :
    a ∉ nextBatch number eligible items
      ((nextPosition number eligible items size)^[n] cursor) size := by
  induction n generalizing cursor with
  | zero =>
      intro hMem
      exact absurd (mem_above.mp (List.mem_of_mem_take hMem)).2.2 (Nat.not_lt_of_le hLe)
  | succ n ih =>
      rw [Function.iterate_succ_apply]
      exact ih (Nat.le_trans hLe le_nextPosition)

end AsetPlatform.Library
