import AsetPlatform.Library.Dict
import Mathlib.Data.List.Pairwise
import Mathlib.Algebra.Order.BigOperators.Group.List

/-!
# Entries that are set one after the other

A dictionary that is filled from a list of entries holds, for every key, its last entry
(`lastEntries`, `setAll_perm`). When a key comes back an entry is lost, and with it what it adds to a
sum (`eq_of_sublist_of_sum_eq`).
-/

set_option autoImplicit false

namespace AsetPlatform.Library

universe u v w

variable {κ : Type u} {ν : Type v} {ε : Type w} [DecidableEq κ]

/-- The entries that no later entry of the same key replaces. -/
def lastEntries (key : ε → κ) (es : List ε) : List ε := es.pwFilter fun e e' => key e ≠ key e'

/-- The entries are set in their order. -/
def Dict.setAll (d : Dict κ ν) (es : List (κ × ν)) : Dict κ ν := es.foldl (fun d e => d.set e.1 e.2) d

section LastEntries

variable {key : ε → κ} {e e' : ε} {es : List ε}

theorem lastEntries_sublist (key : ε → κ) (es : List ε) : (lastEntries key es).Sublist es :=
  List.pwFilter_sublist es

theorem lastEntries_cons_of_forall (h : ∀ e' ∈ lastEntries key es, key e ≠ key e') :
    lastEntries key (e :: es) = e :: lastEntries key es :=
  List.pwFilter_cons_of_pos h

theorem lastEntries_cons_of_not_forall (h : ¬∀ e' ∈ lastEntries key es, key e ≠ key e') :
    lastEntries key (e :: es) = lastEntries key es :=
  List.pwFilter_cons_of_neg h

theorem forall_lastEntries_iff :
    (∀ e' ∈ lastEntries key es, key e ≠ key e') ↔ ∀ e' ∈ es, key e ≠ key e' := by
  apply List.forall_mem_pwFilter
  intro x y z hNe
  by_cases hSame : key x = key y
  · exact Or.inr (hSame ▸ hNe)
  · exact Or.inl hSame

theorem exists_lastEntry (key : ε → κ) (h : e ∈ es) : ∃ e' ∈ lastEntries key es, key e' = key e := by
  by_contra hNone
  push Not at hNone
  exact forall_lastEntries_iff.mp (fun e' he' => (hNone e' he').symm) e h rfl

theorem nodup_lastEntries (key : ε → κ) (es : List ε) : ((lastEntries key es).map key).Nodup :=
  List.pairwise_map.mpr (List.pairwise_pwFilter es)

theorem lastEntries_map {ε' : Type w} (key : ε → κ) (f : ε' → ε) (es : List ε') :
    lastEntries key (es.map f) = (lastEntries (fun e => key (f e)) es).map f :=
  List.pwFilter_map f es

theorem lastEntries_filter {p : ε → Bool} (hKey : ∀ e e', key e = key e' → p e = p e') (es : List ε) :
    lastEntries key (es.filter p) = (lastEntries key es).filter p := by
  induction es with
  | nil => rfl
  | cons e es ih =>
      by_cases hLast : ∀ e' ∈ lastEntries key es, key e ≠ key e'
      · rw [lastEntries_cons_of_forall hLast]
        by_cases hTest : p e = true
        · rw [List.filter_cons_of_pos hTest, List.filter_cons_of_pos hTest, lastEntries_cons_of_forall, ih]
          rw [ih]
          exact fun e' he' => hLast e' (List.mem_of_mem_filter he')
        · rw [List.filter_cons_of_neg hTest, List.filter_cons_of_neg hTest, ih]
      · rw [lastEntries_cons_of_not_forall hLast]
        by_cases hTest : p e = true
        · rw [List.filter_cons_of_pos hTest, lastEntries_cons_of_not_forall, ih]
          rw [ih]
          intro hAll
          -- the later entry of the key passes the test as well
          push Not at hLast
          obtain ⟨e', he', hSame⟩ := hLast
          exact hAll e' (List.mem_filter.mpr ⟨he', hKey e e' hSame ▸ hTest⟩) hSame
        · rw [List.filter_cons_of_neg hTest, ih]

theorem lastEntries_eq_self_iff : lastEntries key es = es ↔ (es.map key).Nodup := by
  rw [lastEntries, List.pwFilter_eq_self, List.Nodup, List.pairwise_map]

end LastEntries

section SetAll

variable {d : Dict κ ν} {es : List (κ × ν)} {k : κ} {x : ν}

theorem mem_setAll_iff : (k, x) ∈ (d.setAll es).entries ↔
    (k, x) ∈ lastEntries Prod.fst es ∨ (∀ e ∈ es, k ≠ e.1) ∧ (k, x) ∈ d.entries := by
  induction es generalizing d with
  | nil => simp [Dict.setAll, lastEntries]
  | cons e es ih =>
      have hStep : d.setAll (e :: es) = (d.set e.1 e.2).setAll es := rfl
      rw [hStep, ih, ← Dict.get?_eq_some_iff, Dict.get?_set, List.forall_mem_cons]
      by_cases hLast : ∀ e' ∈ lastEntries Prod.fst es, e.1 ≠ e'.1
      · rw [lastEntries_cons_of_forall hLast, List.mem_cons]
        have hAll := forall_lastEntries_iff.mp hLast
        by_cases hKey : k = e.1
        · subst hKey
          rw [if_pos rfl, Option.some.injEq]
          constructor
          · rintro (hMem | ⟨-, rfl⟩)
            · exact (hLast (e.1, x) hMem rfl).elim
            · exact Or.inl (Or.inl rfl)
          · rintro ((hSame | hMem) | ⟨⟨hNe, -⟩, -⟩)
            · exact Or.inr ⟨hAll, (congrArg Prod.snd hSame).symm⟩
            · exact (hLast (e.1, x) hMem rfl).elim
            · exact absurd rfl hNe
        · have hNe : (k, x) ≠ e := fun hSame => hKey (congrArg Prod.fst hSame)
          rw [if_neg hKey, Dict.get?_eq_some_iff]
          simp only [hNe, hKey, ne_eq, not_false_eq_true, true_and, false_or]
      · rw [lastEntries_cons_of_not_forall hLast]
        have hSome : ¬∀ e' ∈ es, e.1 ≠ e'.1 := fun hAll => hLast (forall_lastEntries_iff.mpr hAll)
        by_cases hKey : k = e.1
        · subst hKey
          simp only [hSome, ne_eq, not_true_eq_false, false_and, or_false]
        · rw [if_neg hKey, Dict.get?_eq_some_iff]
          simp only [hKey, ne_eq, not_false_eq_true, true_and]

theorem setAll_perm (es : List (κ × ν)) :
    ((Dict.empty : Dict κ ν).setAll es).entries.Perm (lastEntries Prod.fst es) := by
  apply (List.perm_ext_iff_of_nodup _ _).mpr
  · rintro ⟨k, x⟩
    rw [mem_setAll_iff]
    exact or_iff_left fun h => absurd h.2 List.not_mem_nil
  · exact (Dict.setAll _ es).nodup.of_map
  · exact (nodup_lastEntries Prod.fst es).of_map

end SetAll

/-! ## Sums -/

section Sums

variable {β : Type v} [AddCommGroup β] [LinearOrder β] [IsOrderedAddMonoid β]

theorem eq_of_sublist_of_sum_eq {f : ε → β} {part all : List ε} (hPart : part.Sublist all)
    (hPos : ∀ e ∈ all, 0 < f e) (hSum : (part.map f).sum = (all.map f).sum) : part = all := by
  induction hPart with
  | slnil => rfl
  | @cons part all e hPart ih =>
      obtain ⟨hHead, hRest⟩ := List.forall_mem_cons.mp hPos
      have hLe : (part.map f).sum ≤ (all.map f).sum := by
        apply (hPart.map f).sum_le_sum
        intro x hx
        obtain ⟨e', hMem, rfl⟩ := List.mem_map.mp hx
        exact (hRest e' hMem).le
      rw [List.map_cons, List.sum_cons] at hSum
      rw [hSum] at hLe
      exact absurd (lt_add_of_pos_left _ hHead) (not_lt.mpr hLe)
  | @cons_cons part all e hPart ih =>
      rw [List.map_cons, List.map_cons, List.sum_cons, List.sum_cons, add_right_inj] at hSum
      rw [ih (List.forall_mem_cons.mp hPos).2 hSum]

end Sums

end AsetPlatform.Library
