import Mathlib.Data.List.Basic

/-!
# Loops that can be left early

Before each round a loop asks whether it should stop. A loop that is never stopped is a fold over the
numbered elements.
-/

set_option autoImplicit false

namespace AsetPlatform.Library

universe u v

variable {α : Type u} {β : Type v}

/-- The rounds from the number `k` on, and whether the loop was stopped. -/
def interrupted (stop : Nat → Bool) (body : β → Nat → α → β) : Nat → List α → β → β × Bool
  | _, [], b => (b, false)
  | k, a :: as, b => if stop k then (b, true) else interrupted stop body (k + 1) as (body b k a)

variable {stop : Nat → Bool} {body : β → Nat → α → β}

theorem interrupted_of_never {as : List α} {k : Nat} {b : β}
    (hnever : ∀ j < as.length, stop (k + j) = false) :
    interrupted stop body k as b =
      ((as.zipIdx k).foldl (fun b p => body b p.2 p.1) b, false) := by
  induction as generalizing k b with
  | nil => rfl
  | cons a as ih =>
      have hfirst : stop k = false := hnever 0 (Nat.zero_lt_succ _)
      have hrest : ∀ j < as.length, stop (k + 1 + j) = false := by
        intro j hj
        rw [Nat.add_assoc, Nat.add_comm 1 j]
        exact hnever (j + 1) (Nat.succ_lt_succ hj)
      rw [interrupted, if_neg (Bool.eq_false_iff.mp hfirst), ih hrest, List.zipIdx_cons,
        List.foldl_cons]

theorem interrupted_completes_iff {as : List α} {k : Nat} {b : β} :
    (interrupted stop body k as b).2 = false ↔ ∀ j < as.length, stop (k + j) = false := by
  constructor
  · intro hcompletes
    induction as generalizing k b with
    | nil => exact fun j hj => absurd hj (Nat.not_lt_zero j)
    | cons a as ih =>
        rw [interrupted] at hcompletes
        split at hcompletes
        · cases hcompletes
        · rename_i hfirst
          intro j hj
          cases j with
          | zero => exact Bool.eq_false_iff.mpr hfirst
          | succ j =>
              rw [Nat.add_comm j 1, ← Nat.add_assoc]
              exact ih hcompletes j (Nat.lt_of_succ_lt_succ hj)
  · intro hnever
    rw [interrupted_of_never hnever]

/-! ## Whole loops -/

theorem interrupted_zero_completes_iff {as : List α} {b : β} :
    (interrupted stop body 0 as b).2 = false ↔ ∀ j < as.length, stop j = false := by
  rw [interrupted_completes_iff]
  simp only [Nat.zero_add]

theorem interrupted_zero_of_never {as : List α} {b : β} (hnever : ∀ j < as.length, stop j = false) :
    (interrupted stop body 0 as b).1 = as.zipIdx.foldl (fun b p => body b p.2 p.1) b := by
  rw [interrupted_of_never fun j hj => by rw [Nat.zero_add]; exact hnever j hj]

end AsetPlatform.Library
