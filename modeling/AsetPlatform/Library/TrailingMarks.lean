import Mathlib.Data.List.TakeWhile

/-!
# Trailing marks

A mark of a list is trailing if behind it there are only blanks and then a closer. `Drops` is the
removal of one trailing mark with its blanks.
-/

set_option autoImplicit false

namespace AsetPlatform.Library

universe u

variable {α : Type u} (mark blank close : α → Bool)

def HasTrailing (l : List α) : Prop :=
  ∃ a m w c b, l = a ++ m :: (w ++ c :: b) ∧ mark m = true ∧ (∀ x ∈ w, blank x = true) ∧
    close c = true

/-- One trailing mark is gone, with the blanks behind it. -/
def Drops (l l' : List α) : Prop :=
  ∃ a m w c b, l = a ++ m :: (w ++ c :: b) ∧ mark m = true ∧ (∀ x ∈ w, blank x = true) ∧
    close c = true ∧ l' = a ++ c :: b

/-- A closer comes next, behind blanks. -/
def closesNext (l : List α) : Bool := (l.dropWhile blank).head?.any close

/-- Looking for a trailing mark. -/
def findsTrailing : List α → Bool
  | [] => false
  | x :: l => (mark x && closesNext blank close l) || findsTrailing l

variable {mark blank close} {x : α} {l l' : List α}

theorem closesNext_iff (hApart : ∀ x, close x = true → blank x = false) :
    closesNext blank close l = true ↔
      ∃ w c b, l = w ++ c :: b ∧ (∀ x ∈ w, blank x = true) ∧ close c = true := by
  rw [closesNext, Option.any_eq_true]
  constructor
  · rintro ⟨c, hHead, hClose⟩
    obtain ⟨b, hDrop⟩ := List.head?_eq_some_iff.mp hHead
    refine ⟨l.takeWhile blank, c, b, ?_, fun x hx => List.mem_takeWhile_imp hx, hClose⟩
    rw [← hDrop, List.takeWhile_append_dropWhile]
  · rintro ⟨w, c, b, rfl, hw, hClose⟩
    refine ⟨c, ?_, hClose⟩
    have hc := Bool.eq_false_iff.mp (hApart c hClose)
    rw [List.dropWhile_append_of_pos hw, List.dropWhile_cons_of_neg hc]
    rfl

theorem hasTrailing_cons_iff (hApart : ∀ x, close x = true → blank x = false) :
    HasTrailing mark blank close (x :: l) ↔
      (mark x = true ∧ closesNext blank close l = true) ∨ HasTrailing mark blank close l := by
  constructor
  · rintro ⟨a, m, w, c, b, hl, hMark, hw, hClose⟩
    cases a with
    | nil =>
        cases hl
        exact .inl ⟨hMark, (closesNext_iff hApart).mpr ⟨w, c, b, rfl, hw, hClose⟩⟩
    | cons y a =>
        cases hl
        exact .inr ⟨a, m, w, c, b, rfl, hMark, hw, hClose⟩
  · rintro (⟨hMark, hNext⟩ | ⟨a, m, w, c, b, rfl, hMark, hw, hClose⟩)
    · obtain ⟨w, c, b, rfl, hw, hClose⟩ := (closesNext_iff hApart).mp hNext
      exact ⟨[], x, w, c, b, rfl, hMark, hw, hClose⟩
    · exact ⟨x :: a, m, w, c, b, rfl, hMark, hw, hClose⟩

theorem not_hasTrailing_nil : ¬ HasTrailing mark blank close [] := by
  rintro ⟨a, m, w, c, b, hl, -⟩
  exact List.append_ne_nil_of_right_ne_nil a (List.cons_ne_nil m _) hl.symm

theorem findsTrailing_iff (hApart : ∀ x, close x = true → blank x = false) :
    findsTrailing mark blank close l = true ↔ HasTrailing mark blank close l := by
  induction l with
  | nil => exact iff_of_false Bool.false_ne_true not_hasTrailing_nil
  | cons x l ih =>
      rw [findsTrailing, hasTrailing_cons_iff hApart, Bool.or_eq_true, Bool.and_eq_true, ih]

theorem HasTrailing.append_left (h : HasTrailing mark blank close l) (a : List α) :
    HasTrailing mark blank close (a ++ l) := by
  obtain ⟨a', m, w, c, b, rfl, h⟩ := h
  exact ⟨a ++ a', m, w, c, b, (List.append_assoc a a' _).symm, h⟩

theorem Drops.cons (h : Drops mark blank close l l') (x : α) :
    Drops mark blank close (x :: l) (x :: l') := by
  obtain ⟨a, m, w, c, b, rfl, hMark, hw, hClose, rfl⟩ := h
  exact ⟨x :: a, m, w, c, b, rfl, hMark, hw, hClose, rfl⟩

end AsetPlatform.Library
