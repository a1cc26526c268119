import Mathlib.Data.List.Nodup
import Mathlib.Data.List.Perm.Basic
import Mathlib.Order.Lattice

/-!
# Tables as lists of rows

A table is a list of rows. Its order does not matter, so that tables are compared up to `List.Perm`,
and a row is found by a key that is a function of it.
-/

set_option autoImplicit false

namespace AsetPlatform.Library

universe u v

variable {α : Type u} {κ : Type v}

theorem sorted_mergeSort [LinearOrder κ] (key : α → κ) (rows : List α) :
    (rows.mergeSort fun a b => key a ≤ key b).Pairwise fun a b => key a ≤ key b := by
  have hSorted : (rows.mergeSort fun a b => key a ≤ key b).Pairwise fun a b =>
      decide (key a ≤ key b) := by
    apply List.pairwise_mergeSort
    · intro a b c hab hbc
      exact decide_eq_true (le_trans (of_decide_eq_true hab) (of_decide_eq_true hbc))
    · intro a b
      simpa using le_total (key a) (key b)
  exact hSorted.imp of_decide_eq_true

theorem perm_filter_or {p q : α → Bool} (rows : List α)
    (h : ∀ r ∈ rows, p r = true → q r = false) :
    (rows.filter p ++ rows.filter q).Perm (rows.filter fun r => p r || q r) := by
  have hsplit := List.filter_append_perm p (rows.filter fun r => p r || q r)
  rw [List.filter_filter, List.filter_filter] at hsplit
  refine List.Perm.trans (List.Perm.of_eq ?_) hsplit
  congr 1
  · apply List.filter_congr
    intro r _
    cases p r <;> rfl
  · apply List.filter_congr
    intro r hr
    cases hp : p r with
    | false => rfl
    | true => simp [h r hr hp]

theorem perm_filter_parts {p : α → Bool} {a b c d : List α} (hperm : (a ++ b).Perm (c ++ d))
    (hb : ∀ r ∈ b, p r = true) (hc : ∀ r ∈ c, p r = false) (hd : ∀ r ∈ d, p r = true) :
    (a.filter p ++ b).Perm d ∧ (a.filter fun r => !p r).Perm c := by
  have hmet : ∀ {rows : List α}, (∀ r ∈ rows, p r = true) →
      rows.filter p = rows ∧ (rows.filter fun r => !p r) = [] := by
    intro rows hrows
    refine ⟨List.filter_eq_self.mpr hrows, List.filter_eq_nil_iff.mpr ?_⟩
    intro r hr
    simp [hrows r hr]
  have hnot : c.filter p = [] ∧ (c.filter fun r => !p r) = c := by
    refine ⟨List.filter_eq_nil_iff.mpr ?_, List.filter_eq_self.mpr ?_⟩
    · intro r hr
      simp [hc r hr]
    · intro r hr
      simp [hc r hr]
  have hin := hperm.filter p
  have hout := hperm.filter fun r => !p r
  rw [List.filter_append, List.filter_append, (hmet hb).1, (hmet hd).1, hnot.1,
    List.nil_append] at hin
  rw [List.filter_append, List.filter_append, (hmet hb).2, (hmet hd).2, hnot.2,
    List.append_nil, List.append_nil] at hout
  exact ⟨hin, hout⟩

theorem filter_key_eq [DecidableEq κ] {key : α → κ} {rows : List α} (h : (rows.map key).Nodup)
    {r : α} (hr : r ∈ rows) : rows.filter (key · = key r) = [r] := by
  induction rows with
  | nil => exact absurd hr List.not_mem_nil
  | cons r' rest ih =>
    rw [List.map_cons, List.nodup_cons] at h
    obtain ⟨hnew, hrest⟩ := h
    rcases List.mem_cons.mp hr with rfl | hmem
    · have hnone : rest.filter (key · = key r) = [] := by
        rw [List.filter_eq_nil_iff]
        intro r'' hr'' hkey
        apply hnew
        rw [← of_decide_eq_true hkey]
        exact List.mem_map_of_mem hr''
      rw [List.filter_cons_of_pos (by simp), hnone]
    · rw [List.filter_cons_of_neg, ih hrest hmem]
      intro hkey
      apply hnew
      rw [of_decide_eq_true hkey]
      exact List.mem_map_of_mem hmem

theorem find?_key_eq_some [DecidableEq κ] {key : α → κ} {rows : List α} (h : (rows.map key).Nodup)
    {k : κ} {r : α} : rows.find? (key · = k) = some r ↔ r ∈ rows ∧ key r = k := by
  constructor
  · intro hFind
    exact ⟨List.mem_of_find?_eq_some hFind,
      of_decide_eq_true (List.find?_some (p := (key · = k)) hFind)⟩
  · rintro ⟨hMem, rfl⟩
    cases hFind : rows.find? (key · = key r) with
    | none => exact absurd (decide_eq_true rfl) (List.find?_eq_none.mp hFind r hMem)
    | some other =>
        have hKey : key other = key r :=
          of_decide_eq_true (List.find?_some (p := (key · = key r)) hFind)
        exact congrArg some
          (List.inj_on_of_nodup_map h (List.mem_of_find?_eq_some hFind) hMem hKey)

end AsetPlatform.Library
