import Mathlib.Data.List.Nodup

/-!
# The price table

The rows of `stocks.ohlcv`, as far as those who write them look at them: ticker, day, and prices. A
close that is null or NaN is `none`, and days are numbered. What matters of a table is mostly
`closedKeys`, the ticker and day of each row with a close.
-/

set_option autoImplicit false

namespace AsetPlatform.StockData

universe u

variable {P : Type u}

structure OhlcvRow (P : Type u) where
  ticker : String
  date : Nat
  close : Option P
  deriving DecidableEq

def OhlcvRow.key (r : OhlcvRow P) : String × Nat := (r.ticker, r.date)

/-- Keys are compared by their parts. It is stated once for all who look keys up. -/
instance lawfulBEqKey : LawfulBEq (String × Nat) := inferInstance

/-- The ticker and day of each row with a close. -/
def closedKeys (t : List (OhlcvRow P)) : List (String × Nat) :=
  (t.filter (·.close.isSome)).map OhlcvRow.key

/-- `MAX(date)` of a ticker's rows with a close. -/
def latest (t : List (OhlcvRow P)) (ticker : String) : Option Nat :=
  (((closedKeys t).filter (·.1 = ticker)).map Prod.snd).max?

/-! ## Keys -/

section Keys

variable {t : List (OhlcvRow P)} {k : String × Nat}

theorem mem_closedKeys : k ∈ closedKeys t ↔ ∃ r ∈ t, r.close.isSome ∧ r.key = k := by
  simp [closedKeys, and_assoc]

@[simp]
theorem closedKeys_nil : closedKeys ([] : List (OhlcvRow P)) = [] := rfl

@[simp]
theorem closedKeys_append (t t' : List (OhlcvRow P)) :
    closedKeys (t ++ t') = closedKeys t ++ closedKeys t' := by
  simp [closedKeys]

theorem closedKeys_filter (p : String × Nat → Bool) (t : List (OhlcvRow P)) :
    closedKeys (t.filter fun r => p r.key) = (closedKeys t).filter p := by
  rw [closedKeys, closedKeys, List.filter_map, List.filter_filter, List.filter_filter]
  congr 1
  apply List.filter_congr
  intro r _
  exact Bool.and_comm _ _

theorem closedKeys_filter_of_closed {p : OhlcvRow P → Bool}
    (h : ∀ r ∈ t, r.close.isSome → p r = true) : closedKeys (t.filter p) = closedKeys t := by
  rw [closedKeys, closedKeys, List.filter_filter]
  congr 1
  apply List.filter_congr
  intro r hr
  cases hclose : r.close.isSome with
  | false => rfl
  | true => simp [h r hr hclose]

end Keys

/-! ## The latest day -/

section Latest

variable {t : List (OhlcvRow P)} {ticker : String} {day : Nat}

theorem latest_eq_none_iff :
    latest t ticker = none ↔ ∀ day, (ticker, day) ∉ closedKeys t := by
  rw [latest, List.max?_eq_none_iff, List.map_eq_nil_iff, List.filter_eq_nil_iff]
  constructor
  · intro h day hmem
    exact h _ hmem (by simp)
  · rintro h ⟨other, day⟩ hmem hticker
    obtain rfl : other = ticker := by simpa using hticker
    exact h day hmem

theorem latest_mem (h : latest t ticker = some day) : (ticker, day) ∈ closedKeys t := by
  have hmax := List.max?_mem h
  rw [List.mem_map] at hmax
  obtain ⟨⟨other, day'⟩, hmem, rfl⟩ := hmax
  obtain ⟨hkeys, hticker⟩ := List.mem_filter.mp hmem
  obtain rfl : other = ticker := by simpa using hticker
  exact hkeys

theorem le_latest (h : latest t ticker = some day) {day' : Nat}
    (hmem : (ticker, day') ∈ closedKeys t) : day' ≤ day := by
  apply (List.max?_le_iff h).mp (Nat.le_refl day)
  rw [List.mem_map]
  exact ⟨(ticker, day'), List.mem_filter.mpr ⟨hmem, by simp⟩, rfl⟩

end Latest

end AsetPlatform.StockData
