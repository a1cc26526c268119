import Mathlib.Algebra.BigOperators.Group.List.Basic

/-!
# Lists of threads

A system that runs several threads keeps them in a list, and a step replaces the one that moved.
What such a step does to a count over the threads depends on that thread alone
(`countP_set_add`, `countP_append_singleton`), and to a sum over them likewise (`sum_map_set_add`); a
property of every thread is kept when the moved thread keeps it (`forall_mem_set`).
-/

set_option autoImplicit false

namespace AsetPlatform.Library

universe u v

variable {α : Type u} {β : Type v} {p : α → Bool} {threads : List α} {k : Nat} {a b : α}

theorem countP_set_add (h : threads[k]? = some a) :
    (threads.set k b).countP p + (if p a then 1 else 0) =
      threads.countP p + if p b then 1 else 0 := by
  obtain ⟨hk, ha⟩ := List.getElem?_eq_some_iff.mp h
  have hpos : p a → 0 < threads.countP p := fun hpa =>
    List.countP_pos_iff.mpr ⟨a, ha ▸ List.getElem_mem hk, hpa⟩
  rw [List.countP_set hk, ha]
  by_cases hpa : p a = true
  · have := hpos hpa
    simp only [hpa, if_true]
    omega
  · simp only [hpa, Bool.false_eq_true, if_false]
    omega

theorem countP_append_singleton :
    (threads ++ [a]).countP p = threads.countP p + if p a then 1 else 0 := by
  rw [List.countP_append, List.countP_singleton]

theorem countP_set_of_eq (h : threads[k]? = some a) (hab : p b = p a) :
    (threads.set k b).countP p = threads.countP p := by
  have hset := countP_set_add h (p := p) (b := b)
  rw [hab] at hset
  omega

theorem sum_map_set_add {M : Type v} [AddCommMonoid M] (f : α → M) (h : threads[k]? = some a) :
    ((threads.set k b).map f).sum + f a = (threads.map f).sum + f b := by
  induction threads generalizing k with
  | nil => cases h
  | cons c threads ih =>
      cases k with
      | zero =>
          cases h
          simp only [List.set_cons_zero, List.map_cons, List.sum_cons]
          rw [add_comm, add_comm (f b), ← add_assoc]
      | succ k =>
          rw [List.getElem?_cons_succ] at h
          simp only [List.set_cons_succ, List.map_cons, List.sum_cons]
          rw [add_assoc, ih h, add_assoc]

theorem map_set_of_eq {f : α → β} (h : threads[k]? = some a) (hab : f b = f a) :
    (threads.set k b).map f = threads.map f := by
  obtain ⟨hk, ha⟩ := List.getElem?_eq_some_iff.mp h
  have hmap : k < (threads.map f).length := by simpa using hk
  have hget : f b = (threads.map f)[k] := by rw [List.getElem_map, ha, hab]
  rw [List.map_set, hget, List.set_getElem_self]

theorem getElem?_set_cases {j : Nat} {c : α} (h : threads[k]? = some a)
    (hj : (threads.set k b)[j]? = some c) : j = k ∧ c = b ∨ j ≠ k ∧ threads[j]? = some c := by
  have hk := (List.getElem?_eq_some_iff.mp h).1
  by_cases hjk : j = k
  · subst hjk
    rw [List.getElem?_set_self hk] at hj
    exact Or.inl ⟨rfl, (Option.some.inj hj).symm⟩
  · rw [List.getElem?_set_ne (Ne.symm hjk)] at hj
    exact Or.inr ⟨hjk, hj⟩

theorem mem_set_self (h : threads[k]? = some a) : b ∈ threads.set k b :=
  List.mem_set (List.getElem?_eq_some_iff.mp h).1 b

theorem getElem?_append_singleton (h : (threads ++ [a])[k]? = some b) :
    threads[k]? = some b ∨ (k = threads.length ∧ b = a) := by
  rw [List.getElem?_append] at h
  split at h
  · exact Or.inl h
  · rename_i hk
    rw [List.getElem?_singleton] at h
    split at h
    · exact Or.inr ⟨by omega, (Option.some.inj h).symm⟩
    · cases h

theorem mem_set_of_ne {c : α} (h : threads[k]? = some a) (hc : c ∈ threads) (hne : c ≠ a) :
    c ∈ threads.set k b := by
  obtain ⟨hk, ha⟩ := List.getElem?_eq_some_iff.mp h
  obtain ⟨i, hi, rfl⟩ := List.mem_iff_getElem.mp hc
  have hik : k ≠ i := by
    rintro rfl
    exact hne ha
  have hset : i < (threads.set k b).length := by simpa using hi
  have hget : (threads.set k b)[i] = threads[i] := List.getElem_set_ne hik _
  exact hget ▸ List.getElem_mem _

theorem forall_mem_set {P : α → Prop} (hall : ∀ t ∈ threads, P t) (hb : P b) :
    ∀ t ∈ threads.set k b, P t := by
  intro t ht
  rcases List.mem_or_eq_of_mem_set ht with ht | rfl
  · exact hall t ht
  · exact hb

theorem forall_mem_append_singleton {P : α → Prop} (hall : ∀ t ∈ threads, P t) (ha : P a) :
    ∀ t ∈ threads ++ [a], P t := by
  intro t ht
  rcases List.mem_append.mp ht with ht | ht
  · exact hall t ht
  · rw [List.mem_singleton.mp ht]
    exact ha

end AsetPlatform.Library
