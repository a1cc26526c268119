import Mathlib.Data.List.Basic
import Mathlib.Tactic.IntervalCases

/-!
# Calendar months

Months are counted from January 1970. `monthStart` sums the lengths of the Gregorian months,
`monthOf` is the month of a day, and `monthAt` the month of a time in seconds on a clock with a fixed
offset from UTC. Time in one month spans at most 31 days (`lt_of_monthAt_eq`), and the text of a
month, its year and its two-digit number, determines it (`monthText_inj`).
-/

set_option autoImplicit false

namespace AsetPlatform.Library

/-! ## Months of days -/

def isLeapYear (year : Nat) : Bool := (year % 4 = 0 ∧ year % 100 ≠ 0) ∨ year % 400 = 0

/-- The number of days of a month. -/
def monthLength (m : Nat) : Nat :=
  match m % 12 with
  | 1 => if isLeapYear (1970 + m / 12) then 29 else 28
  | 3 | 5 | 8 | 10 => 30
  | _ => 31

/-- The first day of a month, counted from the first of January 1970. -/
def monthStart : Nat → Nat
  | 0 => 0
  | m + 1 => monthStart m + monthLength m

def monthOf (day : Nat) : Nat := Nat.findGreatest (monthStart · ≤ day) day

theorem monthLength_pos (m : Nat) : 0 < monthLength m := by
  unfold monthLength
  split
  · split <;> omega
  all_goals omega

theorem monthLength_le (m : Nat) : monthLength m ≤ 31 := by
  unfold monthLength
  split
  · split <;> omega
  all_goals omega

theorem le_monthStart (m : Nat) : m ≤ monthStart m := by
  induction m with
  | zero => exact Nat.zero_le _
  | succ m ih =>
      have hpos := monthLength_pos m
      show m + 1 ≤ monthStart m + monthLength m
      omega

theorem monthStart_monthOf_le (day : Nat) : monthStart (monthOf day) ≤ day :=
  Nat.findGreatest_spec (P := (monthStart · ≤ day)) (Nat.zero_le day) (Nat.zero_le day)

theorem lt_monthStart_succ (day : Nat) : day < monthStart (monthOf day + 1) := by
  by_contra hle
  -- a later month that has begun would have been found
  have hbegun : monthStart (monthOf day + 1) ≤ day := by omega
  have hbound := le_monthStart (monthOf day + 1)
  have hfound : monthOf day + 1 ≤ monthOf day :=
    Nat.le_findGreatest (P := (monthStart · ≤ day)) (by omega) hbegun
  omega

theorem monthStart_mono {m n : Nat} (h : m ≤ n) : monthStart m ≤ monthStart n :=
  monotone_nat_of_le_succ (fun k => Nat.le_add_right (monthStart k) (monthLength k)) h

theorem lt_monthStart_iff {day m : Nat} : day < monthStart m ↔ monthOf day < m := by
  constructor
  · intro hlt
    by_contra hle
    have hstart := monthStart_mono (not_lt.mp hle)
    have hbegun := monthStart_monthOf_le day
    omega
  · intro hlt
    have hnext := lt_monthStart_succ day
    have hstart := monthStart_mono (Nat.succ_le_of_lt hlt)
    simp only [Nat.succ_eq_add_one] at hstart
    omega

theorem monthOf_eq {day m : Nat} (hStart : monthStart m ≤ day) (hEnd : day < monthStart (m + 1)) :
    monthOf day = m := by
  have hNotBefore := mt lt_monthStart_iff.mpr (Nat.not_lt.mpr hStart)
  have hBefore := lt_monthStart_iff.mp hEnd
  omega

theorem monthOf_mono {day day' : Nat} (h : day ≤ day') : monthOf day ≤ monthOf day' := by
  have hbegun := monthStart_monthOf_le day
  have hbound := le_monthStart (monthOf day)
  exact Nat.le_findGreatest (P := (monthStart · ≤ day')) (by omega) (by omega)

/-! ## Months of times -/

/-- The month of a time, on a clock `offset` seconds ahead. -/
def monthAt (offset seconds : Nat) : Nat := monthOf ((seconds + offset) / 86400)

theorem monthAt_mono (offset : Nat) {s t : Nat} (h : s ≤ t) : monthAt offset s ≤ monthAt offset t :=
  monthOf_mono (Nat.div_le_div_right (by omega))

theorem lt_of_monthAt_eq {offset s t : Nat} (h : monthAt offset s = monthAt offset t) :
    t < s + 31 * 86400 := by
  have hstart := monthStart_monthOf_le ((s + offset) / 86400)
  have hend := lt_monthStart_succ ((t + offset) / 86400)
  simp only [monthAt] at h
  rw [← h] at hend
  have hlength := monthLength_le (monthOf ((s + offset) / 86400))
  simp only [monthStart] at hend
  omega

/-! ## Texts -/

/-- `{:%Y-%m}`. -/
def monthText (m : Nat) : String :=
  let number := m % 12 + 1
  toString (1970 + m / 12) ++ ("-" ++ if number < 10 then "0" ++ toString number else toString number)

example : monthText 0 = "1970-01" ∧ monthText 671 = "2025-12" := by decide +kernel

theorem append_cons_inj_of_notMem_right {α : Type*} {x y s t : List α} {a : α} (hs : a ∉ s)
    (ht : a ∉ t) (h : x ++ a :: s = y ++ a :: t) : x = y ∧ s = t := by
  simp only [List.append_eq_append_iff, List.cons_eq_append_iff, List.cons_eq_cons] at h
  rcases h with ⟨c, rfl, ⟨rfl, -, rfl⟩ | ⟨d, rfl, rfl⟩⟩ | ⟨c, rfl, ⟨rfl, -, rfl⟩ | ⟨d, rfl, rfl⟩⟩
  all_goals simp_all

theorem isDigit_of_mem_toString {n : Nat} {c : Char} (h : c ∈ (toString n).toList) : c.isDigit := by
  have htext : (toString n).toList = Nat.toDigits 10 n := Nat.toList_repr
  rw [htext] at h
  exact Nat.isDigit_of_mem_toDigits (by omega) (by omega) h

theorem toString_nat_inj {m n : Nat} (h : (toString m).toList = (toString n).toList) : m = n := by
  have htext : ∀ k : Nat, (toString k).toList = Nat.toDigits 10 k := fun _ => Nat.toList_repr
  rw [htext, htext] at h
  rw [← Nat.ofDigitChars_toDigits (b := 10) (n := m) (by omega) (by omega), h,
    Nat.ofDigitChars_toDigits (by omega) (by omega)]

theorem toString_int_inj {a b : Int} (h : (toString a).toList = (toString b).toList) : a = b := by
  have hNeg : ∀ m n : Nat, (toString m).toList ≠ '-' :: (toString n).toList := fun m n hSame => by
    have hDigit : ('-' : Char).isDigit = true :=
      isDigit_of_mem_toString (n := m) (by rw [hSame]; exact List.mem_cons_self ..)
    exact absurd hDigit (by decide)
  have hText : ∀ n : Nat, (toString (Int.negSucc n)).toList = '-' :: (toString (n + 1)).toList :=
    fun n => by
      change ("-" ++ toString (n + 1)).toList = _
      rw [String.toList_append]
      rfl
  cases a with
  | ofNat m =>
      cases b with
      | ofNat n => exact congrArg Int.ofNat (toString_nat_inj h)
      | negSucc n => exact absurd (h.trans (hText n)) (hNeg m (n + 1))
  | negSucc m =>
      cases b with
      | ofNat n => exact absurd (h.symm.trans (hText m)) (hNeg n (m + 1))
      | negSucc n =>
          rw [hText, hText] at h
          have hSucc := toString_nat_inj (List.cons.inj h).2
          rw [Nat.succ_inj.mp hSucc]

theorem colon_notMem_toString (a : Int) : ':' ∉ (toString a).toList := by
  intro hMem
  have hNat : ∀ n : Nat, ':' ∉ (toString n).toList := fun n hColon =>
    absurd (isDigit_of_mem_toString hColon) (by decide)
  cases a with
  | ofNat n => exact hNat n hMem
  | negSucc n =>
      change ':' ∈ ("-" ++ toString (n + 1)).toList at hMem
      rw [String.toList_append] at hMem
      rcases List.mem_append.mp hMem with hSign | hDigits
      · exact absurd hSign (by decide)
      · exact hNat (n + 1) hDigits

theorem monthNumber_inj {a b : Nat} (ha : a < 12) (hb : b < 12)
    (h : (if a + 1 < 10 then "0" ++ toString (a + 1) else toString (a + 1)).toList =
      (if b + 1 < 10 then "0" ++ toString (b + 1) else toString (b + 1)).toList) : a = b := by
  interval_cases a <;> interval_cases b <;> first | rfl | exact absurd h (by decide)

theorem monthNumber_chars {a : Nat} (ha : a < 12) :
    '-' ∉ (if a + 1 < 10 then "0" ++ toString (a + 1) else toString (a + 1)).toList ∧
      ':' ∉ (if a + 1 < 10 then "0" ++ toString (a + 1) else toString (a + 1)).toList := by
  interval_cases a <;> decide

theorem monthText_toList (m : Nat) :
    (monthText m).toList = (toString (1970 + m / 12)).toList ++ '-' ::
      (if m % 12 + 1 < 10 then "0" ++ toString (m % 12 + 1) else toString (m % 12 + 1)).toList := by
  simp only [monthText, String.toList_append]
  rfl

theorem colon_notMem_monthText (m : Nat) : ':' ∉ (monthText m).toList := by
  rw [monthText_toList]
  intro h
  rcases List.mem_append.mp h with h | h
  · exact absurd (isDigit_of_mem_toString h) (by decide)
  · rcases List.mem_cons.mp h with h | h
    · exact absurd h (by decide)
    · exact (monthNumber_chars (Nat.mod_lt m (by omega))).2 h

theorem monthText_inj {m n : Nat} (h : (monthText m).toList = (monthText n).toList) : m = n := by
  have hm : m % 12 < 12 := Nat.mod_lt m (by omega)
  have hn : n % 12 < 12 := Nat.mod_lt n (by omega)
  rw [monthText_toList, monthText_toList] at h
  obtain ⟨hyear, hnumber⟩ :=
    append_cons_inj_of_notMem_right (monthNumber_chars hm).1 (monthNumber_chars hn).1 h
  have hyears := toString_nat_inj hyear
  have hnumbers := monthNumber_inj hm hn hnumber
  omega

end AsetPlatform.Library
