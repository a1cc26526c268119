import Mathlib.Data.List.Sort

/-!
# Reading a sorted list page by page

A reader asks for the pages of a list until one is short (`Collects`). Each page is cut from a list
of the same rows in the order of their keys, but rows with equal keys may come in another order for
each page. The pages give every row once when no two equal keys stand on both sides of the end of a
page (`collects_perm`), and otherwise rows can be lost and repeated (`collects_repeats`).
-/

set_option autoImplicit false

namespace AsetPlatform.Library

universe u v w

variable {α : Type u} {κ : Type v}

/-! ## Pages -/

/-- A page of a list, the first being page 0. -/
def slice (size : Nat) (rows : List α) (k : Nat) : List α := (rows.drop (k * size)).take size

/-- The rows of the pages up to and with the first short one. -/
def Collects (pages : Nat → List α) (size : Nat) (rows : List α) : Prop :=
  ∃ m, (∀ k < m, (pages k).length = size) ∧ (pages m).length < size ∧
    rows = (List.range (m + 1)).flatMap pages

theorem Collects.unique {pages : Nat → List α} {size : Nat} {rows rows' : List α}
    (h : Collects pages size rows) (h' : Collects pages size rows') : rows = rows' := by
  obtain ⟨m, hfull, hshort, rfl⟩ := h
  obtain ⟨m', hfull', hshort', rfl⟩ := h'
  have hle : ¬ m < m' := fun hlt => by
    have := hfull' m hlt
    omega
  have hge : ¬ m' < m := fun hlt => by
    have := hfull m' hlt
    omega
  rw [Nat.le_antisymm (Nat.not_lt.1 hge) (Nat.not_lt.1 hle)]

theorem Collects.map {β : Type w} (f : α → β) {pages : Nat → List α} {size : Nat} {rows : List α}
    (h : Collects pages size rows) : Collects (fun k => (pages k).map f) size (rows.map f) := by
  obtain ⟨m, hfull, hshort, rfl⟩ := h
  refine ⟨m, ?_, ?_, List.map_flatMap⟩
  · intro k hk
    rw [List.length_map]
    exact hfull k hk
  · rw [List.length_map]
    exact hshort

theorem length_slice (size : Nat) (rows : List α) (k : Nat) :
    (slice size rows k).length = min size (rows.length - k * size) := by
  rw [slice, List.length_take, List.length_drop]

theorem flatMap_slice (size : Nat) (rows : List α) (k m : Nat) :
    (List.range' k m).flatMap (slice size rows) = (rows.drop (k * size)).take (m * size) := by
  induction m generalizing k with
  | zero => simp
  | succ m ih =>
      rw [List.range'_succ, List.flatMap_cons, ih, slice]
      rw [show (k + 1) * size = k * size + size by rw [Nat.add_mul, Nat.one_mul],
        show (m + 1) * size = size + m * size by rw [Nat.add_mul, Nat.one_mul, Nat.add_comm],
        ← List.drop_drop, List.take_add]

/-- Pages cut from lists of one length are full up to the last, which is short. -/
theorem collects_slices {size : Nat} (hsize : 0 < size) {lists : Nat → List α} {n : Nat}
    (hlength : ∀ k, (lists k).length = n) :
    Collects (fun k => slice size (lists k) k) size
      ((List.range (n / size + 1)).flatMap fun k => slice size (lists k) k) := by
  -- the short page is the one after as many full ones as fit
  refine ⟨n / size, ?_, ?_, rfl⟩
  · intro k hk
    rw [length_slice, hlength]
    have hle : (k + 1) * size ≤ n := (Nat.le_div_iff_mul_le hsize).1 hk
    rw [Nat.add_mul, Nat.one_mul] at hle
    omega
  · rw [length_slice, hlength, ← Nat.mod_eq_sub_div_mul]
    exact (Nat.min_le_right _ _).trans_lt (Nat.mod_lt n hsize)

/-! ## Lists in the order of their keys -/

section Order

variable (key : α → κ) (le : κ → κ → Bool)

def InOrder (rows : List α) : Prop := rows.Pairwise fun a b => le (key a) (key b) = true

/-- No page ends between two equal keys. -/
def Untied (size : Nat) (keys : List κ) : Prop :=
  ∀ k, 0 < k → k * size < keys.length → keys[k * size - 1]? ≠ keys[k * size]?

/-- The list with the rows before and after a position exchanged. -/
def swapAt (b : Nat) (rows : List α) : List α :=
  match rows.drop (b - 1) with
  | x :: y :: after => rows.take (b - 1) ++ y :: x :: after
  | _ => rows

variable {key le}

theorem InOrder.map_key_eq (hanti : ∀ x y, le x y = true → le y x = true → x = y)
    {rows rows' : List α} (h : InOrder key le rows) (h' : InOrder key le rows')
    (hperm : rows.Perm rows') : rows.map key = rows'.map key := by
  have hkeys : (rows.map key).Pairwise fun x y => le x y = true := List.pairwise_map.2 h
  have hkeys' : (rows'.map key).Pairwise fun x y => le x y = true := List.pairwise_map.2 h'
  exact List.Perm.eq_of_pairwise (fun x y _ _ => hanti x y) hkeys hkeys' (hperm.map key)

theorem exists_around {rows : List α} {b : Nat} (hb : 0 < b) (hlt : b < rows.length) :
    ∃ before x y after, rows = before ++ x :: y :: after ∧ before.length + 1 = b := by
  obtain ⟨i, rfl⟩ : ∃ i, b = i + 1 := ⟨b - 1, by omega⟩
  refine ⟨rows.take i, rows[i], rows[i + 1], rows.drop (i + 2), ?_, ?_⟩
  · rw [← List.drop_eq_getElem_cons hlt, ← List.drop_eq_getElem_cons (Nat.lt_of_succ_lt hlt),
      List.take_append_drop]
  · rw [List.length_take]
    omega

theorem getElem?_around {before : List α} (x y : α) (after : List α) {b : Nat}
    (hb : before.length + 1 = b) :
    (before ++ x :: y :: after)[b - 1]? = some x ∧ (before ++ x :: y :: after)[b]? = some y := by
  subst hb
  constructor
  · simp
  · rw [List.getElem?_append_right (Nat.le_succ _)]
    simp

theorem take_around {before rest : List α} {x : α} {b : Nat} (hb : before.length + 1 = b) :
    (before ++ x :: rest).take b = before ++ [x] := by
  have hlen : (before ++ [x]).length = b := by rw [List.length_append]; exact hb
  rw [List.append_cons, List.take_left' hlen]

theorem drop_around {before rest : List α} {x : α} {b : Nat} (hb : before.length + 1 = b) :
    (before ++ x :: rest).drop b = rest := by
  have hlen : (before ++ [x]).length = b := by rw [List.length_append]; exact hb
  rw [List.append_cons, List.drop_left' hlen]

/-- The rows before a position with a new key are those with keys before that key. -/
theorem InOrder.take_eq_filter (hanti : ∀ x y, le x y = true → le y x = true → x = y)
    (htrans : ∀ x y z, le x y = true → le y z = true → le x z = true)
    (hrefl : ∀ x, le x x = true) {before after : List α} {x y : α}
    (h : InOrder key le (before ++ x :: y :: after)) (hne : key x ≠ key y) :
    before ++ [x] = (before ++ x :: y :: after).filter fun a => !le (key y) (key a) := by
  rw [InOrder, List.pairwise_append, List.pairwise_cons, List.pairwise_cons] at h
  obtain ⟨-, ⟨hx, hy, -⟩, hbefore⟩ := h
  have hxy := hx y List.mem_cons_self
  -- a key that the new key precedes cannot stand before it
  have hnot : ∀ a, le (key a) (key x) = true → (!le (key y) (key a)) = true := by
    intro a ha
    rw [Bool.not_eq_true', Bool.eq_false_iff]
    intro hya
    exact hne (hanti _ _ hxy (htrans _ _ _ hya ha))
  have hfirst : (before ++ [x]).filter (fun a => !le (key y) (key a)) = before ++ [x] := by
    apply List.filter_eq_self.2
    intro a ha
    rcases List.mem_append.1 ha with ha | ha
    · exact hnot a (hbefore a ha x List.mem_cons_self)
    · rw [List.mem_singleton.1 ha]
      exact hnot x (hrefl _)
  have hrest : (y :: after).filter (fun a => !le (key y) (key a)) = [] := by
    apply List.filter_eq_nil_iff.2
    intro a ha
    rw [Bool.not_eq_true', Bool.not_eq_false]
    rcases List.mem_cons.1 ha with rfl | ha
    · exact hrefl _
    · exact hy a ha
  rw [show before ++ x :: y :: after = (before ++ [x]) ++ y :: after by simp, List.filter_append,
    hfirst, hrest, List.append_nil]

/-- Where the key changes, the rows before do not depend on the order of rows with equal keys. -/
theorem InOrder.take_perm (hanti : ∀ x y, le x y = true → le y x = true → x = y)
    (htrans : ∀ x y z, le x y = true → le y z = true → le x z = true)
    (hrefl : ∀ x, le x x = true) {rows rows' : List α} (h : InOrder key le rows)
    (h' : InOrder key le rows') (hperm : rows.Perm rows') {b : Nat} (hb : 0 < b)
    (hlt : b < rows.length) (hne : (rows.map key)[b - 1]? ≠ (rows.map key)[b]?) :
    (rows.take b).Perm (rows'.take b) := by
  have hkeys := h.map_key_eq hanti h' hperm
  obtain ⟨before, x, y, after, rfl, hlen⟩ := exists_around hb hlt
  obtain ⟨before', x', y', after', rfl, hlen'⟩ := exists_around hb (hperm.length_eq ▸ hlt)
  obtain ⟨hx, hy⟩ := getElem?_around x y after hlen
  obtain ⟨hx', hy'⟩ := getElem?_around x' y' after' hlen'
  -- the keys around the position are the same in both lists
  have hxkey : key x = key x' := by
    have hsame := congrArg (·[b - 1]?) hkeys
    simp only [List.getElem?_map, hx, hx', Option.map_some, Option.some.injEq] at hsame
    exact hsame
  have hykey : key y = key y' := by
    have hsame := congrArg (·[b]?) hkeys
    simp only [List.getElem?_map, hy, hy', Option.map_some, Option.some.injEq] at hsame
    exact hsame
  have hxy : key x ≠ key y := by
    intro heq
    apply hne
    rw [List.getElem?_map, List.getElem?_map, hx, hy]
    exact congrArg some heq
  -- so both starts are the rows with keys before the same key
  rw [take_around hlen, take_around hlen', h.take_eq_filter hanti htrans hrefl hxy,
    h'.take_eq_filter hanti htrans hrefl (hxkey ▸ hykey ▸ hxy), hykey]
  exact hperm.filter _

/-! ## Pages of lists in order -/

/-- The pages before one give the rows before it, whatever the order of rows with equal keys. -/
theorem flatMap_slices_perm (hanti : ∀ x y, le x y = true → le y x = true → x = y)
    (htrans : ∀ x y z, le x y = true → le y z = true → le x z = true)
    (hrefl : ∀ x, le x x = true) {rows : List α} {size : Nat} (hsize : 0 < size)
    (hrows : InOrder key le rows) (huntied : Untied size (rows.map key)) {lists : Nat → List α}
    (hlists : ∀ k, InOrder key le (lists k) ∧ (lists k).Perm rows) (m : Nat) :
    ((List.range m).flatMap fun k => slice size (lists k) k).Perm (rows.take (m * size)) := by
  -- the rows before a page may be read off any of the lists
  have hany : ∀ k i, (rows.take (k * size)).Perm ((lists i).take (k * size)) := by
    intro k i
    obtain ⟨horder, hperm⟩ := hlists i
    by_cases hlt : k * size < rows.length
    · by_cases hk : k = 0
      · rw [hk, Nat.zero_mul, List.take_zero, List.take_zero]
      · have hpos : 0 < k := Nat.pos_of_ne_zero hk
        apply hrows.take_perm hanti htrans hrefl horder hperm.symm (Nat.mul_pos hpos hsize) hlt
        apply huntied k hpos
        rw [List.length_map]
        exact hlt
    · have hle := Nat.not_lt.1 hlt
      rw [List.take_of_length_le hle, List.take_of_length_le (hperm.length_eq ▸ hle)]
      exact hperm.symm
  induction m with
  | zero => rw [Nat.zero_mul, List.take_zero]; exact List.Perm.refl _
  | succ m ih =>
      have hpage : (lists m).take ((m + 1) * size) =
          (lists m).take (m * size) ++ slice size (lists m) m := by
        rw [Nat.add_mul, Nat.one_mul, List.take_add]
        rfl
      rw [List.range_succ, List.flatMap_append, List.flatMap_singleton]
      apply ((ih.trans (hany m m)).append_right _).trans
      rw [← hpage]
      exact (hany (m + 1) m).symm

/-- When no page ends between two equal keys, the pages give every row once. -/
theorem collects_perm (hanti : ∀ x y, le x y = true → le y x = true → x = y)
    (htrans : ∀ x y z, le x y = true → le y z = true → le x z = true)
    (hrefl : ∀ x, le x x = true) {rows : List α} {size : Nat} (hsize : 0 < size)
    (hrows : InOrder key le rows) (huntied : Untied size (rows.map key)) {lists : Nat → List α}
    (hlists : ∀ k, InOrder key le (lists k) ∧ (lists k).Perm rows) :
    ∃ collected, Collects (fun k => slice size (lists k) k) size collected ∧
      collected.Perm rows := by
  refine ⟨_, collects_slices hsize fun k => (hlists k).2.length_eq, ?_⟩
  have hperm := flatMap_slices_perm hanti htrans hrefl hsize hrows huntied hlists
    (rows.length / size + 1)
  -- the last page ends at or after the end of the rows
  have hall : rows.length ≤ (rows.length / size + 1) * size := by
    rw [Nat.add_mul, Nat.one_mul, Nat.mul_comm]
    have := Nat.div_add_mod rows.length size
    have := Nat.mod_lt rows.length hsize
    omega
  rwa [List.take_of_length_le hall] at hperm

theorem swapAt_around {before after : List α} {x y : α} {b : Nat} (hb : before.length + 1 = b) :
    swapAt b (before ++ x :: y :: after) = before ++ y :: x :: after := by
  have hb' : b - 1 = before.length := by omega
  simp only [swapAt, hb', List.drop_left, List.take_left]

theorem swapAt_perm (b : Nat) (rows : List α) : (swapAt b rows).Perm rows := by
  simp only [swapAt]
  split
  · rename_i x y after hdrop
    have hsplit := List.take_append_drop (b - 1) rows
    rw [hdrop] at hsplit
    conv_rhs => rw [← hsplit]
    exact (List.Perm.swap x y after).append_left _
  · exact List.Perm.refl _

theorem InOrder.swapAt {rows : List α} (h : InOrder key le rows) {b : Nat} (hb : 0 < b)
    (hlt : b < rows.length) (htied : (rows.map key)[b - 1]? = (rows.map key)[b]?) :
    InOrder key le (swapAt b rows) := by
  obtain ⟨before, x, y, after, rfl, hlen⟩ := exists_around hb hlt
  obtain ⟨hx, hy⟩ := getElem?_around x y after hlen
  have hkey : key x = key y := by
    simp only [List.getElem?_map, hx, hy, Option.map_some, Option.some.injEq] at htied
    exact htied
  have hkeys : (before ++ y :: x :: after).map key = (before ++ x :: y :: after).map key := by
    simp only [List.map_append, List.map_cons, hkey]
  rw [swapAt_around hlen]
  have hpairs : ((before ++ x :: y :: after).map key).Pairwise fun u v => le u v = true :=
    List.pairwise_map.2 h
  rw [← hkeys] at hpairs
  exact List.pairwise_map.1 hpairs

/-- When the rows around the end of a page are exchanged for the later pages, the pages give one of
them twice. -/
theorem collects_repeats {γ : Type w} (f : α → γ) {rows : List α} {size : Nat} (hsize : 0 < size)
    {k : Nat} (hk : 0 < k) (hlt : k * size < rows.length) :
    ∃ collected,
      Collects (fun i => slice size (if i < k then rows else swapAt (k * size) rows) i) size
        collected ∧ ¬ (collected.map f).Nodup := by
  have hlength : ∀ i, (if i < k then rows else swapAt (k * size) rows).length = rows.length := by
    intro i
    split
    · rfl
    · exact (swapAt_perm _ _).length_eq
  refine ⟨_, collects_slices hsize hlength, ?_⟩
  -- the pages before the exchange, and those after it
  have hle : k ≤ rows.length / size := (Nat.le_div_iff_mul_le hsize).2 (Nat.le_of_lt hlt)
  have hsplit : List.range (rows.length / size + 1) =
      List.range' 0 k ++ List.range' k (rows.length / size + 1 - k) := by
    have happend := List.range'_append_1 (s := 0) (m := k) (n := rows.length / size + 1 - k)
    rw [Nat.zero_add] at happend
    rw [happend, List.range_eq_range']
    congr 1
    omega
  have hfirst : (List.range' 0 k).flatMap (fun i => slice size (if i < k then rows else
      swapAt (k * size) rows) i) = rows.take (k * size) := by
    have hslices := flatMap_slice size rows 0 k
    rw [Nat.zero_mul, List.drop_zero] at hslices
    rw [← hslices]
    apply List.flatMap_congr
    intro i hi
    have hik : i < k := by
      have := (List.mem_range'_1.1 hi).2
      omega
    rw [if_pos hik]
  have hlater : (List.range' k (rows.length / size + 1 - k)).flatMap (fun i => slice size
      (if i < k then rows else swapAt (k * size) rows) i) =
        (swapAt (k * size) rows).drop (k * size) := by
    have hslices := flatMap_slice size (swapAt (k * size) rows) k (rows.length / size + 1 - k)
    have hall : ((swapAt (k * size) rows).drop (k * size)).length ≤
        (rows.length / size + 1 - k) * size := by
      rw [List.length_drop, (swapAt_perm _ _).length_eq, Nat.sub_mul, Nat.add_mul, Nat.one_mul,
        Nat.mul_comm (rows.length / size)]
      have := Nat.div_add_mod rows.length size
      have := Nat.mod_lt rows.length hsize
      omega
    rw [List.take_of_length_le hall] at hslices
    rw [← hslices]
    apply List.flatMap_congr
    intro i hi
    have hik : ¬ i < k := Nat.not_lt.2 (List.mem_range'_1.1 hi).1
    rw [if_neg hik]
  rw [hsplit, List.flatMap_append, hfirst, hlater]
  obtain ⟨before, x, y, after, rfl, hlen⟩ := exists_around (Nat.mul_pos hk hsize) hlt
  rw [take_around hlen, swapAt_around hlen, drop_around hlen, List.map_append]
  intro hnodup
  -- the row before the exchange is the last of the first part and the first of the second
  apply List.disjoint_of_nodup_append hnodup (a := f x)
  · simp
  · simp

end Order

end AsetPlatform.Library
