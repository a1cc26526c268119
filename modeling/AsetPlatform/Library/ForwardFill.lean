import AsetPlatform.Library.Dict
import Mathlib.Order.Lattice

/-!
# Values carried forward

Rows in the order of their dates fill a dictionary, where the last row of a date stays. What is known
on a date is its last row up to then; walking along the dates, that is the entry of the date, or else
what was known before it (`latest_eq_or`).
-/

set_option autoImplicit false

namespace AsetPlatform.Library

universe u v w

variable {ρ : Type u} {δ : Type v} [LinearOrder δ] {date : ρ → δ} {rows : List ρ} {d : δ}

def latest (date : ρ → δ) (rows : List ρ) (d : δ) : Option ρ := (rows.filter (date · ≤ d)).getLast?

def latestBefore (date : ρ → δ) (rows : List ρ) (d : δ) : Option ρ :=
  (rows.filter (date · < d)).getLast?

def lastOf (date : ρ → δ) (rows : List ρ) (d : δ) : Option ρ := (rows.filter (date · = d)).getLast?

theorem filter_le_eq (h : rows.Pairwise fun r r' => date r ≤ date r') :
    rows.filter (date · ≤ d) = rows.filter (date · < d) ++ rows.filter (date · = d) := by
  induction rows with
  | nil => rfl
  | cons r rs ih =>
      obtain ⟨hLater, hRest⟩ := List.pairwise_cons.mp h
      rcases lt_trichotomy (date r) d with hLess | hSame | hPast
      · rw [List.filter_cons_of_pos (by simpa using hLess.le),
          List.filter_cons_of_pos (by simpa using hLess),
          List.filter_cons_of_neg (by simpa using hLess.ne), ih hRest]
        rfl
      · have hNone : rs.filter (date · < d) = [] := by
          rw [List.filter_eq_nil_iff]
          intro r' hr' hLt
          exact absurd (hSame ▸ hLater r' hr') (not_le_of_gt (of_decide_eq_true hLt))
        rw [List.filter_cons_of_pos (by simpa using hSame.le),
          List.filter_cons_of_neg (by simpa using hSame.ge),
          List.filter_cons_of_pos (by simpa using hSame), ih hRest, hNone]
        rfl
      · rw [List.filter_cons_of_neg (by simpa using hPast),
          List.filter_cons_of_neg (by simpa using hPast.le),
          List.filter_cons_of_neg (by simpa using hPast.ne'), ih hRest]

theorem latest_eq_or (h : rows.Pairwise fun r r' => date r ≤ date r') :
    latest date rows d = (lastOf date rows d).or (latestBefore date rows d) := by
  rw [latest, filter_le_eq h, List.getLast?_append]
  rfl

theorem latestBefore_eq_latest {d' : δ} (h : ∀ r ∈ rows, date r < d' ↔ date r ≤ d) :
    latestBefore date rows d' = latest date rows d := by
  rw [latestBefore, latest, List.filter_congr fun r hr => decide_eq_decide.mpr (h r hr)]

theorem latestBefore_of_later (h : ∀ r ∈ rows, d ≤ date r) : latestBefore date rows d = none := by
  have hNone : rows.filter (date · < d) = [] := by
    rw [List.filter_eq_nil_iff]
    intro r hr hLt
    exact absurd (h r hr) (not_le_of_gt (of_decide_eq_true hLt))
  rw [latestBefore, hNone]
  rfl

theorem mem_of_latest {r : ρ} (h : latest date rows d = some r) : r ∈ rows :=
  List.mem_of_mem_filter (List.mem_of_getLast? h)

section Entries

variable {ν : Type w}

/-- The entries of rows, each over those above it. -/
def dateMap (date : ρ → δ) (value : ρ → ν) (rows : List ρ) : Dict δ ν :=
  rows.foldl (fun m r => m.set (date r) (value r)) .empty

theorem get?_dateMap (value : ρ → ν) :
    (dateMap date value rows).get? d = (lastOf date rows d).map value := by
  have hFold : ∀ (rows : List ρ) (m : Dict δ ν),
      (rows.foldl (fun m r => m.set (date r) (value r)) m).get? d =
        ((lastOf date rows d).map value).or (m.get? d) := by
    intro rows
    induction rows with
    | nil => exact fun m => rfl
    | cons r rs ih =>
        intro m
        rw [List.foldl_cons, ih, Dict.get?_set, lastOf, lastOf]
        by_cases hSame : d = date r
        · rw [if_pos hSame, List.filter_cons_of_pos (by simpa using hSame.symm)]
          cases hRest : rs.filter (date · = d) with
          | nil => rfl
          | cons r' rs' => rw [List.getLast?_cons_cons, List.getLast?_cons]; rfl
        · rw [if_neg hSame, List.filter_cons_of_neg (by simpa using Ne.symm hSame)]
  rw [dateMap, hFold, Dict.get?_empty, Option.or_none]

end Entries

end AsetPlatform.Library
