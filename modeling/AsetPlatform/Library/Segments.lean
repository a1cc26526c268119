import Mathlib.Data.List.Infix

/-!
# Segments of a list

Three ways to cut a list by a property of its elements: the positions at which the property holds,
the last position at which it holds with what stands before and after, and the chunks that end at
the elements with the property. `keepLast` keeps the last `n` chunks; what it keeps is a suffix, and
whether the suffix reaches back over a given part is decided by the number of chunks of that part
(`suffix_keepLast`, `keepLast_suffix_tail`).
-/

set_option autoImplicit false

namespace AsetPlatform.Library

universe u

variable {α : Type u} (p : α → Bool)

/-! ## Positions -/

/-- The positions of the elements with the property, counted from `i`. -/
def indicesFrom : Nat → List α → List Nat
  | _, [] => []
  | i, x :: xs => if p x then i :: indicesFrom (i + 1) xs else indicesFrom (i + 1) xs

variable {p}

theorem indicesFrom_append (i : Nat) (xs ys : List α) :
    indicesFrom p i (xs ++ ys) = indicesFrom p i xs ++ indicesFrom p (i + xs.length) ys := by
  induction xs generalizing i with
  | nil => simp [indicesFrom]
  | cons x xs ih =>
      have hshift : i + (x :: xs).length = i + 1 + xs.length := by simp only [List.length_cons]; omega
      rw [List.cons_append, hshift]
      cases hx : p x <;> simp [indicesFrom, hx, ih]

theorem indicesFrom_eq_nil {xs : List α} (h : ∀ x ∈ xs, p x = false) (i : Nat) :
    indicesFrom p i xs = [] := by
  induction xs generalizing i with
  | nil => rfl
  | cons x xs ih =>
      rw [indicesFrom, if_neg (by simp [h x (by simp)])]
      exact ih (fun y hy => h y (by simp [hy])) (i + 1)

theorem le_of_mem_indicesFrom {i j : Nat} {xs : List α} (h : j ∈ indicesFrom p i xs) : i ≤ j := by
  induction xs generalizing i with
  | nil => simp [indicesFrom] at h
  | cons x xs ih =>
      rw [indicesFrom] at h
      split at h
      · rcases List.mem_cons.mp h with rfl | h
        · exact Nat.le_refl _
        · have := ih h; omega
      · have := ih h; omega

/-- A condition met by every position from `i` on is met by some of the positions when some element
has the property. -/
theorem any_indicesFrom {q : Nat → Bool} {i : Nat} (h : ∀ j, i ≤ j → q j = true) (xs : List α) :
    (indicesFrom p i xs).any q = xs.any p := by
  induction xs generalizing i with
  | nil => rfl
  | cons x xs ih =>
      have hrest : (indicesFrom p (i + 1) xs).any q = xs.any p := ih fun j hj => h j (by omega)
      cases hx : p x <;> simp [indicesFrom, hx, h i (Nat.le_refl i), hrest]

theorem any_lt_indicesFrom (i : Nat) (xs : List α) (y : α) (ys : List α) :
    ((indicesFrom p i (xs ++ y :: ys)).any fun j => i + xs.length < j) = ys.any p := by
  induction xs generalizing i with
  | nil =>
      have hrest := any_indicesFrom (p := p) (q := fun j => i < j) (i := i + 1)
        (fun j hj => decide_eq_true hj) ys
      cases hy : p y <;> simp [indicesFrom, hy, hrest]
  | cons x xs ih =>
      have hshift : i + (x :: xs).length = i + 1 + xs.length := by simp only [List.length_cons]; omega
      rw [List.cons_append, indicesFrom, hshift]
      cases p x with
      | true => simp [ih (i + 1)]; omega
      | false => exact ih (i + 1)

theorem indicesFrom_map {f : α → α} (hf : ∀ x, p (f x) = p x) (i : Nat) (xs : List α) :
    indicesFrom p i (xs.map f) = indicesFrom p i xs := by
  induction xs generalizing i with
  | nil => rfl
  | cons x xs ih => rw [List.map_cons, indicesFrom, indicesFrom, hf, ih]

/-! ## The last element with a property -/

variable (p) in
/-- The last element with the property, with what stands before and after it. -/
def splitAtLast : List α → Option (List α × α × List α)
  | [] => none
  | x :: xs =>
      match splitAtLast xs with
      | some (before, y, after) => some (x :: before, y, after)
      | none => if p x then some ([], x, xs) else none

theorem splitAtLast_eq_none {xs : List α} (h : splitAtLast p xs = none) :
    ∀ x ∈ xs, p x = false := by
  induction xs with
  | nil => simp
  | cons x xs ih =>
      rw [splitAtLast] at h
      cases hxs : splitAtLast p xs with
      | some t => simp [hxs] at h
      | none =>
          simp only [hxs, ite_eq_right_iff, reduceCtorEq, imp_false, Bool.not_eq_true] at h
          intro y hy
          rcases List.mem_cons.mp hy with rfl | hy
          · exact h
          · exact ih hxs y hy

theorem splitAtLast_eq_some {xs before after : List α} {y : α}
    (h : splitAtLast p xs = some (before, y, after)) :
    xs = before ++ y :: after ∧ p y = true ∧ ∀ x ∈ after, p x = false := by
  induction xs generalizing before with
  | nil => simp [splitAtLast] at h
  | cons x xs ih =>
      rw [splitAtLast] at h
      cases hxs : splitAtLast p xs with
      | some t =>
          obtain ⟨b, z, a⟩ := t
          simp only [hxs, Option.some.injEq, Prod.mk.injEq] at h
          obtain ⟨rfl, rfl, rfl⟩ := h
          obtain ⟨hsplit, hy, hafter⟩ := ih hxs
          exact ⟨by rw [hsplit, List.cons_append], hy, hafter⟩
      | none =>
          simp only [hxs] at h
          split at h
          · rename_i hx
            simp only [Option.some.injEq, Prod.mk.injEq] at h
            obtain ⟨rfl, rfl, rfl⟩ := h
            exact ⟨rfl, hx, splitAtLast_eq_none hxs⟩
          · simp at h

theorem exists_splitAtLast {xs : List α} {x : α} (hx : x ∈ xs) (hp : p x = true) :
    ∃ before y after, splitAtLast p xs = some (before, y, after) := by
  cases h : splitAtLast p xs with
  | none => simp [splitAtLast_eq_none h x hx] at hp
  | some t => exact ⟨t.1, t.2.1, t.2.2, rfl⟩

theorem splitAtLast_head {x : α} {xs : List α} (hx : p x = true) (h : ∀ y ∈ xs, p y = false) :
    splitAtLast p (x :: xs) = some ([], x, xs) := by
  have hnone : splitAtLast p xs = none := by
    cases hs : splitAtLast p xs with
    | none => rfl
    | some t =>
        obtain ⟨hsplit, hy, -⟩ := splitAtLast_eq_some (p := p) (y := t.2.1) hs
        rw [h t.2.1 (by rw [hsplit]; simp)] at hy
        exact absurd hy (by simp)
  simp [splitAtLast, hnone, hx]

theorem splitAtLast_append {xs before after : List α} {y : α}
    (h : splitAtLast p xs = some (before, y, after)) (ws : List α) :
    splitAtLast p (ws ++ xs) = some (ws ++ before, y, after) := by
  induction ws with
  | nil => exact h
  | cons w ws ih => rw [List.cons_append, splitAtLast, ih]; rfl

/-! ## Chunks -/

variable (p) in
/-- The chunks of a list: each ends at an element with the property, the last one at the end of the
list. `current` is what the first chunk already holds. -/
def chunksFrom (current : List α) : List α → List (List α)
  | [] => if current.isEmpty then [] else [current]
  | x :: xs =>
      if p x then (current ++ [x]) :: chunksFrom [] xs else chunksFrom (current ++ [x]) xs

variable (p) in
/-- The last `n` chunks of a list, joined again. -/
def keepLast (n : Nat) (xs : List α) : List α :=
  ((chunksFrom p [] xs).drop ((chunksFrom p [] xs).length - n)).flatten

theorem flatten_chunksFrom (current xs : List α) :
    (chunksFrom p current xs).flatten = current ++ xs := by
  induction xs generalizing current with
  | nil => cases current <;> simp [chunksFrom]
  | cons x xs ih =>
      rw [chunksFrom]
      cases p x with
      | true => simp [ih]
      | false => simp [ih]

theorem chunksFrom_append (current xs ys : List α) :
    ∃ done open_, chunksFrom p current (xs ++ ys) = done ++ chunksFrom p open_ ys := by
  induction xs generalizing current with
  | nil => exact ⟨[], current, rfl⟩
  | cons x xs ih =>
      rw [List.cons_append, chunksFrom]
      cases p x with
      | true =>
          obtain ⟨done, open_, h⟩ := ih []
          exact ⟨(current ++ [x]) :: done, open_, by simp [h]⟩
      | false =>
          obtain ⟨done, open_, h⟩ := ih (current ++ [x])
          exact ⟨done, open_, by simp [h]⟩

theorem chunksFrom_current (x : α) (xs : List α) :
    ∃ c cs, ∀ current, chunksFrom p current (x :: xs) = (current ++ c) :: cs := by
  induction xs generalizing x with
  | nil =>
      refine ⟨[x], [], fun current => ?_⟩
      cases hx : p x <;> simp [chunksFrom, hx]
  | cons y ys ih =>
      cases hx : p x with
      | true => exact ⟨[x], chunksFrom p [] (y :: ys), fun current => by rw [chunksFrom, if_pos hx]⟩
      | false =>
          obtain ⟨c, cs, hchunks⟩ := ih y
          refine ⟨x :: c, cs, fun current => ?_⟩
          rw [chunksFrom, if_neg (by simp [hx]), hchunks, List.append_assoc]
          rfl

theorem length_chunksFrom_cons (current : List α) (x : α) (xs : List α) :
    (chunksFrom p current (x :: xs)).length = (chunksFrom p [] (x :: xs)).length := by
  obtain ⟨c, cs, hchunks⟩ := chunksFrom_current (p := p) x xs
  rw [hchunks, hchunks, List.length_cons, List.length_cons]

theorem chunksFrom_of_ne_nil (current : List α) (h : current ≠ []) (xs : List α) :
    ∃ first rest, chunksFrom p current xs = (current ++ first) :: rest ∧
      first ++ rest.flatten = xs := by
  induction xs generalizing current with
  | nil => exact ⟨[], [], by simp [chunksFrom, h], rfl⟩
  | cons x xs ih =>
      rw [chunksFrom]
      cases p x with
      | true => exact ⟨[x], chunksFrom p [] xs, by simp, by simp [flatten_chunksFrom]⟩
      | false =>
          obtain ⟨first, rest, hchunks, hrest⟩ := ih (current ++ [x]) (by simp)
          exact ⟨x :: first, rest, by simp [hchunks], by simp [hrest]⟩

theorem flatten_drop_suffix (n : Nat) (cs : List (List α)) :
    (cs.drop n).flatten <:+ cs.flatten := by
  refine ⟨(cs.take n).flatten, ?_⟩
  rw [← List.flatten_append, List.take_append_drop]

theorem keepLast_suffix (n : Nat) (xs : List α) : keepLast p n xs <:+ xs := by
  have h := flatten_drop_suffix ((chunksFrom p [] xs).length - n) (chunksFrom p [] xs)
  rwa [flatten_chunksFrom, List.nil_append] at h

theorem suffix_keepLast {n : Nat} (xs ys : List α) (h : (chunksFrom p [] ys).length ≤ n) :
    ys <:+ keepLast p n (xs ++ ys) := by
  cases ys with
  | nil => exact List.nil_suffix
  | cons y ys =>
      obtain ⟨done, open_, hchunks⟩ := chunksFrom_append (p := p) [] xs (y :: ys)
      rw [← length_chunksFrom_cons open_] at h
      rw [keepLast, hchunks, List.drop_append_of_le_length (by simp only [List.length_append]; omega),
        List.flatten_append, flatten_chunksFrom, ← List.append_assoc]
      exact List.suffix_append _ _

theorem keepLast_suffix_tail {n : Nat} (xs : List α) (y : α) (ys : List α)
    (h : n < (chunksFrom p [] (y :: ys)).length) : keepLast p n (xs ++ y :: ys) <:+ ys := by
  obtain ⟨done, open_, hchunks⟩ := chunksFrom_append (p := p) [] xs (y :: ys)
  rw [← length_chunksFrom_cons open_] at h
  -- The chunk of `y` holds `y` itself: the chunks after it cover a suffix of `ys` only.
  obtain ⟨rest, hrest, hsuffix⟩ : ∃ rest, (chunksFrom p open_ (y :: ys)).tail = rest ∧
      rest.flatten <:+ ys := by
    refine ⟨_, rfl, ?_⟩
    rw [chunksFrom]
    cases p y with
    | true => simp [flatten_chunksFrom]
    | false =>
        obtain ⟨first, rest, hfrom, hys⟩ :=
          chunksFrom_of_ne_nil (p := p) (open_ ++ [y]) (by simp) ys
        simp only [hfrom, Bool.false_eq_true, if_false, List.tail_cons]
        exact ⟨first, hys⟩
  have hdrop : (done ++ chunksFrom p open_ (y :: ys)).drop
      ((done ++ chunksFrom p open_ (y :: ys)).length - n) =
        rest.drop ((chunksFrom p open_ (y :: ys)).length - n - 1) := by
    rw [← hrest, List.drop_append, List.drop_tail, List.drop_eq_nil_of_le (by
      simp only [List.length_append]; omega), List.nil_append]
    congr 1
    simp only [List.length_append]
    omega
  rw [keepLast, hchunks, hdrop]
  exact (flatten_drop_suffix _ rest).trans hsuffix

theorem chunksFrom_tail (current xs : List α) {c : List α} {cs : List (List α)}
    (h : chunksFrom p current xs = c :: cs) : ∃ ys, cs = chunksFrom p [] ys := by
  induction xs generalizing current with
  | nil =>
      rw [chunksFrom] at h
      split at h
      · exact absurd h (by simp)
      · exact ⟨[], (List.cons.inj h).2.symm⟩
  | cons x xs ih =>
      rw [chunksFrom] at h
      split at h
      · exact ⟨xs, (List.cons.inj h).2.symm⟩
      · exact ih _ h

theorem chunksFrom_map {f : α → α} (hf : ∀ x, p (f x) = p x) (current xs : List α) :
    chunksFrom p (current.map f) (xs.map f) = (chunksFrom p current xs).map (List.map f) := by
  induction xs generalizing current with
  | nil => cases current <;> rfl
  | cons x xs ih =>
      have hstep : current.map f ++ [f x] = (current ++ [x]).map f := by simp
      rw [List.map_cons, chunksFrom, chunksFrom, hf, hstep, ih, ← List.map_nil (f := f), ih]
      cases p x <;> rfl

theorem keepLast_map {f : α → α} (hf : ∀ x, p (f x) = p x) (n : Nat) (xs : List α) :
    keepLast p n (xs.map f) = (keepLast p n xs).map f := by
  have hchunks := chunksFrom_map (p := p) hf [] xs
  rw [List.map_nil] at hchunks
  rw [keepLast, hchunks, List.length_map, ← List.map_drop, ← List.map_flatten, keepLast]

theorem chunksFrom_drop (n : Nat) (xs : List α) :
    chunksFrom p [] ((chunksFrom p [] xs).drop n).flatten = (chunksFrom p [] xs).drop n := by
  obtain ⟨ys, hys⟩ : ∃ ys, (chunksFrom p [] xs).drop n = chunksFrom p [] ys := by
    induction n generalizing xs with
    | zero => exact ⟨xs, rfl⟩
    | succ n ih =>
        cases hxs : chunksFrom p [] xs with
        | nil => exact ⟨[], by simp [chunksFrom]⟩
        | cons c cs =>
            obtain ⟨ys, rfl⟩ := chunksFrom_tail [] xs hxs
            exact ih ys
  rw [hys, flatten_chunksFrom, List.nil_append]

theorem keepLast_keepLast (m n : Nat) (xs : List α) :
    keepLast p m (keepLast p n xs) = keepLast p (min m n) xs := by
  rw [keepLast, keepLast, chunksFrom_drop, List.drop_drop, List.length_drop, keepLast]
  congr 2
  omega

theorem keepLast_cons {x : α} (hx : p x = false) (n : Nat) (xs : List α) :
    keepLast p n (x :: xs) = keepLast p n xs ∨
      keepLast p n (x :: xs) = x :: xs ∧ keepLast p n xs = xs := by
  have hstep : chunksFrom p [] (x :: xs) = chunksFrom p [x] xs := by
    rw [chunksFrom, if_neg (by simp [hx]), List.nil_append]
  rcases Nat.lt_or_ge n (chunksFrom p [x] xs).length with hlt | hge
  · refine Or.inl ?_
    cases xs with
    | nil =>
        have hn : n = 0 := by simpa [chunksFrom] using hlt
        simp [keepLast, hn]
    | cons y ys =>
        -- The two lists differ in their first chunk only, and that one is dropped.
        obtain ⟨c, cs, hchunks⟩ := chunksFrom_current (p := p) y ys
        rw [hchunks, List.length_cons] at hlt
        rw [keepLast, keepLast, hstep, hchunks, hchunks, List.length_cons, List.length_cons,
          Nat.succ_sub (Nat.lt_succ_iff.mp hlt), List.drop_succ_cons, List.drop_succ_cons]
  · refine Or.inr ⟨?_, ?_⟩
    · rw [keepLast, hstep, Nat.sub_eq_zero_of_le hge, List.drop_zero, flatten_chunksFrom]
      rfl
    · have hle : (chunksFrom p [] xs).length ≤ n := by
        cases xs with
        | nil => simp [chunksFrom]
        | cons y ys => rwa [← length_chunksFrom_cons [x]]
      rw [keepLast, Nat.sub_eq_zero_of_le hle, List.drop_zero, flatten_chunksFrom]
      rfl

end AsetPlatform.Library
