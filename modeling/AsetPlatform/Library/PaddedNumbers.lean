import Mathlib.Data.Char
import Mathlib.Data.List.Lex
import Mathlib.Tactic.Ring

/-!
# Texts that begin with a padded number

`padded width n` is the decimal text of a number with zeros in front up to a width. Texts of one length
are in the order of their numbers (`digits_lt_iff`), so that a text `padded width n ++ '-' :: rest` is
compared by the leading digits of the longer number (`padded_lt_iff`): a dash stands before every digit.
-/

set_option autoImplicit false

namespace AsetPlatform.Library

/-! ## The order of texts -/

section Order

variable {α : Type*} [LinearOrder α] {a b u v : List α}

theorem append_lt_append_iff (h : a.length = b.length) :
    a ++ u < b ++ v ↔ a < b ∨ a = b ∧ u < v := by
  induction a generalizing b with
  | nil =>
      obtain rfl := List.length_eq_zero_iff.mp h.symm
      simp
  | cons x a ih =>
      cases b with
      | nil => cases h
      | cons y b =>
          rw [List.cons_append, List.cons_append, List.cons_lt_cons_iff, List.cons_lt_cons_iff,
            ih (Nat.succ_inj.mp h), List.cons.injEq]
          tauto

end Order

/-! ## Digits -/

def numberOf (w : List Char) : Nat := Nat.ofDigitChars 10 w 0

section Digits

variable {a b : List Char}

theorem numberOf_cons (c : Char) (w : List Char) :
    numberOf (c :: w) = 10 ^ w.length * (c.toNat - 48) + numberOf w := by
  rw [numberOf, Nat.ofDigitChars_cons, Nat.ofDigitChars_eq_ofDigitChars_zero, Nat.mul_zero,
    Nat.zero_add]
  rfl

theorem numberOf_append (a b : List Char) :
    numberOf (a ++ b) = 10 ^ b.length * numberOf a + numberOf b := by
  rw [numberOf, Nat.ofDigitChars_append, Nat.ofDigitChars_eq_ofDigitChars_zero]
  rfl

theorem digit_bounds {c : Char} (h : c.isDigit = true) : 48 ≤ c.toNat ∧ c.toNat ≤ 57 := by
  rw [Char.isDigit, Bool.and_eq_true, decide_eq_true_eq, decide_eq_true_eq] at h
  exact h

theorem numberOf_lt (h : ∀ c ∈ a, c.isDigit = true) : numberOf a < 10 ^ a.length := by
  induction a with
  | nil => exact Nat.one_pos
  | cons c a ih =>
      have hTail := ih fun d hd => h d (List.mem_cons_of_mem _ hd)
      have hDigit : c.toNat - 48 ≤ 9 := by
        have hBounds := digit_bounds (h c List.mem_cons_self)
        omega
      have hHead : 10 ^ a.length * (c.toNat - 48) ≤ 10 ^ a.length * 9 := Nat.mul_le_mul_left _ hDigit
      rw [numberOf_cons, List.length_cons, Nat.pow_succ]
      omega

theorem digits_lt_iff (ha : ∀ c ∈ a, c.isDigit = true) (hb : ∀ c ∈ b, c.isDigit = true)
    (h : a.length = b.length) : a < b ↔ numberOf a < numberOf b := by
  induction a generalizing b with
  | nil =>
      obtain rfl := List.length_eq_zero_iff.mp h.symm
      exact iff_of_false (lt_irrefl _) (lt_irrefl _)
  | cons c a ih =>
      cases b with
      | nil => cases h
      | cons d b =>
          have hLength : a.length = b.length := Nat.succ_inj.mp h
          have hA := numberOf_lt fun e he => ha e (List.mem_cons_of_mem _ he)
          have hB := numberOf_lt fun e he => hb e (List.mem_cons_of_mem _ he)
          have hc := digit_bounds (ha c List.mem_cons_self)
          have hd := digit_bounds (hb d List.mem_cons_self)
          rw [List.cons_lt_cons_iff, numberOf_cons, numberOf_cons, hLength,
            ih (fun e he => ha e (List.mem_cons_of_mem _ he))
              (fun e he => hb e (List.mem_cons_of_mem _ he)) hLength]
          rw [hLength] at hA
          rcases lt_trichotomy c.toNat d.toNat with hLt | hEq | hGt
          · -- a lower digit outweighs what follows
            have hStep : 10 ^ b.length * (c.toNat - 48) + 10 ^ b.length ≤
                10 ^ b.length * (d.toNat - 48) := by
              rw [← Nat.mul_succ]
              exact Nat.mul_le_mul_left _ (by omega)
            exact iff_of_true (Or.inl hLt) (by omega)
          · obtain rfl : c = d := Char.toNat_inj.mp hEq
            rw [Nat.add_lt_add_iff_left]
            exact ⟨fun hOr => hOr.elim (fun hLt => absurd hLt (lt_irrefl _)) And.right,
              fun hLt => Or.inr ⟨rfl, hLt⟩⟩
          · have hStep : 10 ^ b.length * (d.toNat - 48) + 10 ^ b.length ≤
                10 ^ b.length * (c.toNat - 48) := by
              rw [← Nat.mul_succ]
              exact Nat.mul_le_mul_left _ (by omega)
            refine iff_of_false ?_ (by omega)
            rintro (hLt | ⟨rfl, -⟩)
            · exact lt_asymm hLt hGt
            · exact lt_irrefl _ hGt

end Digits

/-! ## Padded numbers -/

/-- `f"{n:0{width}d}"` -/
def padded (width n : Nat) : List Char :=
  List.replicate (width - (Nat.toDigits 10 n).length) '0' ++ Nat.toDigits 10 n

/-- The length of a padded number: its digits, or the width if they are fewer. -/
def paddedLength (width n : Nat) : Nat := max width (Nat.toDigits 10 n).length

section Padded

variable (width : Nat) {m n : Nat} {u v : List Char}

theorem length_padded (n : Nat) : (padded width n).length = paddedLength width n := by
  rw [padded, List.length_append, List.length_replicate, paddedLength]
  omega

theorem isDigit_padded {c : Char} (h : c ∈ padded width n) : c.isDigit = true := by
  rcases List.mem_append.mp h with h | h
  · rw [List.eq_of_mem_replicate h]
    rfl
  · exact Nat.isDigit_of_mem_toDigits (by decide) (by decide) h

theorem numberOf_padded (n : Nat) : numberOf (padded width n) = n := by
  rw [numberOf, padded, Nat.ofDigitChars_append, Nat.ofDigitChars_replicate_zero, Nat.mul_zero,
    Nat.ofDigitChars_ten_toDigits]

theorem numberOf_take_padded (n k : Nat) :
    numberOf ((padded width n).take k) = n / 10 ^ (paddedLength width n - k) := by
  have hSplit := numberOf_append ((padded width n).take k) ((padded width n).drop k)
  rw [List.take_append_drop, numberOf_padded, List.length_drop, length_padded] at hSplit
  have hRest : numberOf ((padded width n).drop k) < 10 ^ (paddedLength width n - k) := by
    rw [← length_padded, ← List.length_drop]
    exact numberOf_lt fun c hc => isDigit_padded width (List.mem_of_mem_drop hc)
  have hPos : 0 < 10 ^ (paddedLength width n - k) := Nat.pow_pos (by decide)
  have hDiv := congrArg (· / 10 ^ (paddedLength width n - k)) hSplit
  simp only [Nat.mul_add_div hPos, Nat.div_eq_of_lt hRest, Nat.add_zero] at hDiv
  exact hDiv.symm

/-- The order of texts that begin with a padded number and a dash. -/
def PaddedBefore (m n : Nat) (u v : List Char) : Prop :=
  if paddedLength width m < paddedLength width n then
    m * 10 ^ (paddedLength width n - paddedLength width m) ≤ n
  else if paddedLength width m = paddedLength width n then m < n ∨ m = n ∧ u < v
  else m < n * 10 ^ (paddedLength width m - paddedLength width n)

theorem dash_lt_digit {c : Char} (hc : c.isDigit = true) (s t : List Char) :
    '-' :: s < c :: t := by
  rw [List.cons_lt_cons_iff]
  left
  have hBounds := digit_bounds hc
  show ('-' : Char).toNat < c.toNat
  exact lt_of_lt_of_le (by decide) hBounds.1

theorem take_digits {k : Nat} : ∀ c ∈ (padded width n).take k, c.isDigit = true :=
  fun _ hc => isDigit_padded width (List.mem_of_mem_take hc)

theorem padded_digits : ∀ c ∈ padded width n, c.isDigit = true := fun _ hc => isDigit_padded width hc

theorem padded_cut {k : Nat} (h : k < paddedLength width n) :
    ((padded width n).take k).length = k ∧ ∃ c rest, c.isDigit = true ∧
      ∀ t, padded width n ++ t = (padded width n).take k ++ (c :: (rest ++ t)) := by
  constructor
  · rw [List.length_take, length_padded]
    exact Nat.min_eq_left h.le
  · obtain ⟨c, rest, hDrop⟩ : ∃ c rest, (padded width n).drop k = c :: rest := by
      apply List.exists_cons_of_ne_nil
      rw [ne_eq, List.drop_eq_nil_iff, length_padded]
      exact not_le.mpr h
    have hMem : c ∈ (padded width n).drop k := by
      rw [hDrop]
      exact List.mem_cons_self
    refine ⟨c, rest, isDigit_padded width (List.mem_of_mem_drop hMem), fun t => ?_⟩
    rw [← List.cons_append, ← hDrop, ← List.append_assoc, List.take_append_drop]

theorem padded_lt_longer (h : paddedLength width m < paddedLength width n) :
    padded width m ++ '-' :: u < padded width n ++ '-' :: v ↔
      m * 10 ^ (paddedLength width n - paddedLength width m) ≤ n := by
  obtain ⟨hLength, c, rest, hDigit, hCut⟩ := padded_cut width h
  have hTake := (length_padded width m).trans hLength.symm
  rw [hCut, append_lt_append_iff hTake, and_iff_left (dash_lt_digit hDigit u _),
    ← le_iff_lt_or_eq, ← not_lt, digits_lt_iff (take_digits width) (padded_digits width) hTake.symm,
    not_lt, numberOf_padded, numberOf_take_padded,
    Nat.le_div_iff_mul_le (Nat.pow_pos (by decide))]

theorem padded_lt_shorter (h : paddedLength width n < paddedLength width m) :
    padded width m ++ '-' :: u < padded width n ++ '-' :: v ↔
      m < n * 10 ^ (paddedLength width m - paddedLength width n) := by
  obtain ⟨hLength, c, rest, hDigit, hCut⟩ := padded_cut width h
  have hTake := hLength.trans (length_padded width n).symm
  have hNot : ¬ c :: (rest ++ '-' :: u) < '-' :: v := lt_asymm (dash_lt_digit hDigit v _)
  rw [hCut, append_lt_append_iff hTake, or_iff_left fun hBoth => hNot hBoth.2,
    digits_lt_iff (take_digits width) (padded_digits width) hTake, numberOf_padded,
    numberOf_take_padded, Nat.div_lt_iff_lt_mul (Nat.pow_pos (by decide))]

theorem padded_lt_same (h : paddedLength width m = paddedLength width n) :
    padded width m ++ '-' :: u < padded width n ++ '-' :: v ↔ m < n ∨ m = n ∧ u < v := by
  have hLength : (padded width m).length = (padded width n).length := by
    rw [length_padded, length_padded, h]
  have hEq : padded width m = padded width n ↔ m = n := by
    constructor
    · intro hSame
      rw [← numberOf_padded width m, hSame, numberOf_padded]
    · rintro rfl
      rfl
  rw [append_lt_append_iff hLength, digits_lt_iff (padded_digits width) (padded_digits width) hLength,
    numberOf_padded, numberOf_padded, hEq, List.cons_lt_cons_self]

theorem padded_lt_iff :
    padded width m ++ '-' :: u < padded width n ++ '-' :: v ↔ PaddedBefore width m n u v := by
  rw [PaddedBefore]
  rcases lt_trichotomy (paddedLength width m) (paddedLength width n) with hLt | hEq | hGt
  · rw [if_pos hLt, padded_lt_longer width hLt]
  · rw [if_neg hEq.not_lt, if_pos hEq, padded_lt_same width hEq]
  · rw [if_neg hGt.not_gt, if_neg hGt.ne', padded_lt_shorter width hGt]

theorem eq_of_not_paddedBefore (h : ¬ PaddedBefore width m n u v) (h' : ¬ PaddedBefore width n m v u) :
    m = n ∧ u = v := by
  rw [PaddedBefore] at h h'
  rcases lt_trichotomy (paddedLength width m) (paddedLength width n) with hLt | hEq | hGt
  · rw [if_pos hLt] at h
    rw [if_neg hLt.not_gt, if_neg hLt.ne'] at h'
    omega
  · rw [if_neg hEq.not_lt, if_pos hEq, not_or, not_and, not_lt, not_lt] at h
    rw [if_neg hEq.not_gt, if_pos hEq.symm, not_or, not_and, not_lt, not_lt] at h'
    obtain rfl : m = n := le_antisymm h'.1 h.1
    exact ⟨rfl, le_antisymm (h'.2 rfl) (h.2 rfl)⟩
  · rw [if_neg hGt.not_gt, if_neg hGt.ne'] at h
    rw [if_pos hGt] at h'
    omega

theorem paddedBefore_of_lt (hWidth : 0 < width) (h : m < n) (hn : n < 10 ^ width) :
    PaddedBefore width m n u v := by
  have hLength : ∀ k, k < 10 ^ width → paddedLength width k = width := by
    intro k hk
    exact Nat.max_eq_left ((Nat.length_toDigits_le_iff (by decide) hWidth).mpr hk)
  rw [PaddedBefore, hLength n hn, hLength m (h.trans hn), if_neg (lt_irrefl _), if_pos rfl]
  exact Or.inl h

end Padded

end AsetPlatform.Library
