import Mathlib.Data.List.Nodup

/-!
# Dictionaries in insertion order

A dictionary is a list of entries with distinct keys. Setting a present key replaces its value in
place, setting a new key appends it, and every other operation keeps the order. Each operation is
described by what `get?` returns after it.
-/

set_option autoImplicit false

namespace AsetPlatform.Library

universe u v

/-- Entries with distinct keys, in the order of their insertion. -/
structure Dict (κ : Type u) (ν : Type v) where
  entries : List (κ × ν)
  nodup : (entries.map Prod.fst).Nodup

namespace Dict

variable {κ : Type u} {ν : Type v}

def empty : Dict κ ν := ⟨[], List.nodup_nil⟩

def keys (d : Dict κ ν) : List κ := d.entries.map Prod.fst

/-- Keep the entries that satisfy a test. -/
def filter (p : κ → ν → Bool) (d : Dict κ ν) : Dict κ ν where
  entries := d.entries.filter fun e => p e.1 e.2
  nodup := List.Nodup.sublist (List.filter_sublist.map Prod.fst) d.nodup

variable [DecidableEq κ]

def get? (d : Dict κ ν) (k : κ) : Option ν := (d.entries.find? (·.1 = k)).map Prod.snd

/-- Drop a key. -/
def erase (d : Dict κ ν) (k : κ) : Dict κ ν := d.filter fun k' _ => k' ≠ k

/-- The entries with the value of a present key replaced, or with a new entry at the end. -/
def setEntries (k : κ) (x : ν) : List (κ × ν) → List (κ × ν)
  | [] => [(k, x)]
  | e :: es => if e.1 = k then (k, x) :: es else e :: setEntries k x es

theorem mem_map_setEntries {k k' : κ} {x : ν} {es : List (κ × ν)} :
    k' ∈ (setEntries k x es).map Prod.fst ↔ k' = k ∨ k' ∈ es.map Prod.fst := by
  induction es with
  | nil => simp [setEntries]
  | cons e es ih =>
      unfold setEntries
      by_cases h : e.1 = k
      · simp [h]
      · simp only [h, if_false, List.map_cons, List.mem_cons, ih]
        tauto

theorem nodup_setEntries (k : κ) (x : ν) {es : List (κ × ν)} (h : (es.map Prod.fst).Nodup) :
    ((setEntries k x es).map Prod.fst).Nodup := by
  induction es with
  | nil => simp [setEntries]
  | cons e es ih =>
      rw [List.map_cons, List.nodup_cons] at h
      unfold setEntries
      by_cases hKey : e.1 = k
      · simp only [hKey, if_true, List.map_cons, List.nodup_cons]
        exact ⟨hKey ▸ h.1, h.2⟩
      · simp only [hKey, if_false, List.map_cons, List.nodup_cons]
        refine ⟨?_, ih h.2⟩
        rw [mem_map_setEntries, not_or]
        exact ⟨hKey, h.1⟩

def set (d : Dict κ ν) (k : κ) (x : ν) : Dict κ ν where
  entries := setEntries k x d.entries
  nodup := nodup_setEntries k x d.nodup

/-- The first of the best entries that satisfy a test; `less` compares values. -/
def best (d : Dict κ ν) (p : κ → ν → Bool) (less : ν → ν → Bool) : Option (κ × ν) :=
  (d.entries.filter fun e => p e.1 e.2).foldl (fun best e =>
    match best with
    | none => some e
    | some b => if less b.2 e.2 then some e else some b) none

@[simp]
theorem get?_empty (k : κ) : (empty : Dict κ ν).get? k = none := rfl

theorem get?_eq_some_iff {d : Dict κ ν} {k : κ} {x : ν} :
    d.get? k = some x ↔ (k, x) ∈ d.entries := by
  unfold get?
  constructor
  · intro h
    obtain ⟨e, hFind, rfl⟩ := Option.map_eq_some_iff.mp h
    have hKey : e.1 = k := by simpa using List.find?_some hFind
    rw [← hKey]
    exact List.mem_of_find?_eq_some hFind
  · intro h
    cases hFind : d.entries.find? (·.1 = k) with
    | none =>
        have hNone := List.find?_eq_none.mp hFind (k, x) h
        simp at hNone
    | some e =>
        have hKey : e.1 = k := by simpa using List.find?_some hFind
        have hSame : e = (k, x) :=
          List.inj_on_of_nodup_map d.nodup (List.mem_of_find?_eq_some hFind) h hKey
        simp [hSame]

theorem of_best {d : Dict κ ν} {p : κ → ν → Bool} {less : ν → ν → Bool} {e : κ × ν}
    (h : d.best p less = some e) : d.get? e.1 = some e.2 ∧ p e.1 e.2 = true := by
  have hmem : ∀ (es : List (κ × ν)) (start : Option (κ × ν)),
      es.foldl (fun best e => match best with
        | none => some e
        | some b => if less b.2 e.2 then some e else some b) start = some e →
        e ∈ es ∨ start = some e := by
    intro es
    induction es with
    | nil => exact fun start hstart => Or.inr hstart
    | cons x xs ih =>
        intro start hfold
        rcases ih _ hfold with hx | hx
        · exact Or.inl (List.mem_cons_of_mem x hx)
        · cases start with
          | none => exact Or.inl (by rw [Option.some.inj hx]; exact List.mem_cons_self)
          | some b =>
              simp only at hx
              split at hx
              · exact Or.inl (by rw [Option.some.inj hx]; exact List.mem_cons_self)
              · exact Or.inr hx
  rcases hmem _ _ h with he | he
  · obtain ⟨he, hp⟩ := List.mem_filter.mp he
    exact ⟨get?_eq_some_iff.mpr he, hp⟩
  · exact absurd he (by simp)

theorem mem_keys_iff {d : Dict κ ν} {k : κ} : k ∈ d.keys ↔ ∃ x, d.get? k = some x := by
  unfold keys
  rw [List.mem_map]
  constructor
  · rintro ⟨e, hMem, rfl⟩
    exact ⟨e.2, get?_eq_some_iff.mpr hMem⟩
  · rintro ⟨x, h⟩
    exact ⟨(k, x), get?_eq_some_iff.mp h, rfl⟩

theorem get?_filter (p : κ → ν → Bool) (d : Dict κ ν) (k : κ) :
    (d.filter p).get? k = (d.get? k).filter (p k) := by
  apply Option.ext
  intro x
  rw [Option.filter_eq_some_iff, get?_eq_some_iff, get?_eq_some_iff]
  simp [filter]

@[simp]
theorem get?_erase (d : Dict κ ν) (k k' : κ) :
    (d.erase k).get? k' = if k' = k then none else d.get? k' := by
  unfold erase
  rw [get?_filter]
  by_cases h : k' = k
  · cases d.get? k' <;> simp [h, Option.filter]
  · cases d.get? k' <;> simp [h, Option.filter]

@[simp]
theorem get?_set (d : Dict κ ν) (k k' : κ) (x : ν) :
    (d.set k x).get? k' = if k' = k then some x else d.get? k' := by
  unfold set get?
  simp only
  induction d.entries with
  | nil => by_cases h : k' = k <;> simp [setEntries, h, eq_comm]
  | cons e es ih =>
      unfold setEntries
      by_cases hKey : e.1 = k
      · by_cases h : k' = k
        · simp [hKey, h]
        · simp [hKey, h, Ne.symm h]
      · by_cases h : e.1 = k'
        · have hNe : k' ≠ k := by
            rw [← h]
            exact hKey
          simp [h, hNe]
        · simp only [hKey, if_false, List.find?_cons, h, decide_false]
          exact ih

end Dict

end AsetPlatform.Library
