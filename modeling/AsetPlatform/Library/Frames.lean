import Mathlib.Data.List.Dedup
import Mathlib.Data.List.Sort
import Mathlib.Data.List.TakeWhile
import Mathlib.Order.WithBot

/-!
# Data frames

A frame is a list of rows. `sort_values` promises an order and no more: rows with the same key may come
in any order, so that a reader of a sorted frame sees a row with the greatest key, and each of them in
some order (`SortsDown.find?_max`, `exists_sortsDown`). A row is a function from its columns, where a
value may be missing; `firstPresent` puts a row together from the first values present, which are all
those of one row under the condition `ColumnsFrom`.
-/

set_option autoImplicit false

namespace AsetPlatform.Library

universe u v w

variable {ρ : Type u} {β : Type v} [LinearOrder β]

/-- The rows come back with their ranks from the greatest down. -/
structure SortsDown (rank : ρ → β) (sort : List ρ → List ρ) : Prop where
  perm : ∀ rows, (sort rows).Perm rows
  ordered : ∀ rows, (sort rows).Pairwise fun a b => rank b ≤ rank a

/-- The rows come back with their ranks from the least up. -/
structure SortsUp (rank : ρ → β) (sort : List ρ → List ρ) : Prop where
  perm : ∀ rows, (sort rows).Perm rows
  ordered : ∀ rows, (sort rows).Pairwise fun a b => rank a ≤ rank b

variable {rank : ρ → β} {sort : List ρ → List ρ} {rows : List ρ} {p : ρ → Bool} {r : ρ}

theorem SortsUp.reverse (h : SortsUp rank sort) : SortsDown rank fun rows => (sort rows).reverse where
  perm := fun rows => (List.reverse_perm _).trans (h.perm rows)
  ordered := fun rows => List.pairwise_reverse.mpr (h.ordered rows)

theorem SortsDown.reverse (h : SortsDown rank sort) : SortsUp rank fun rows => (sort rows).reverse where
  perm := fun rows => (List.reverse_perm _).trans (h.perm rows)
  ordered := fun rows => List.pairwise_reverse.mpr (h.ordered rows)

theorem sortsDown_insertionSort (rank : ρ → β) :
    SortsDown rank (List.insertionSort fun a b => rank b ≤ rank a) where
  perm := List.perm_insertionSort _
  ordered := by
    have hTrans : IsTrans ρ fun a b => rank b ≤ rank a := ⟨fun _ _ _ hab hbc => le_trans hbc hab⟩
    have hTotal : Std.Total fun a b : ρ => rank b ≤ rank a :=
      ⟨fun a b => le_total (rank b) (rank a)⟩
    exact List.pairwise_insertionSort _

theorem sortsUp_insertionSort (rank : ρ → β) :
    SortsUp rank (List.insertionSort fun a b => rank a ≤ rank b) where
  perm := List.perm_insertionSort _
  ordered := by
    have hTrans : IsTrans ρ fun a b => rank a ≤ rank b := ⟨fun _ _ _ => le_trans⟩
    have hTotal : Std.Total fun a b : ρ => rank a ≤ rank b :=
      ⟨fun a b => le_total (rank a) (rank b)⟩
    exact List.pairwise_insertionSort _

/-- A row with a property that no row with the property outranks. -/
def Greatest (rank : ρ → β) (p : ρ → Bool) (rows : List ρ) (r : ρ) : Prop :=
  r ∈ rows ∧ p r = true ∧ ∀ r' ∈ rows, p r' = true → rank r' ≤ rank r

theorem greatest_filter {q : ρ → Bool} (hq : ∀ r ∈ rows, p r = true → q r = true) :
    Greatest rank p (rows.filter q) r ↔ Greatest rank p rows r := by
  constructor
  · rintro ⟨hMem, hp, hMax⟩
    exact ⟨List.mem_of_mem_filter hMem, hp,
      fun r' hr' hp' => hMax r' (List.mem_filter.mpr ⟨hr', hq r' hr' hp'⟩) hp'⟩
  · rintro ⟨hMem, hp, hMax⟩
    exact ⟨List.mem_filter.mpr ⟨hMem, hq r hMem hp⟩, hp,
      fun r' hr' => hMax r' (List.mem_of_mem_filter hr')⟩

theorem head?_eq_find? (hp : ∀ r ∈ rows, p r = true) : rows.head? = rows.find? p := by
  cases rows with
  | nil => rfl
  | cons r rows => rw [List.find?_cons_of_pos (hp r List.mem_cons_self), List.head?_cons]

theorem SortsDown.find?_max (h : SortsDown rank sort) (hFind : (sort rows).find? p = some r) :
    Greatest rank p rows r := by
  obtain ⟨hr, before, behind, hRows, hBefore⟩ := List.find?_eq_some_iff_append.mp hFind
  have hOrdered := h.ordered rows
  rw [hRows] at hOrdered
  refine ⟨(h.perm rows).subset (List.mem_of_find?_eq_some hFind), hr, fun r' hr' hp => ?_⟩
  have hMem := (h.perm rows).symm.subset hr'
  rw [hRows, List.mem_append, List.mem_cons] at hMem
  rcases hMem with hMem | rfl | hMem
  · have hNot := hBefore r' hMem
    rw [hp] at hNot
    cases hNot
  · exact le_refl _
  · exact (List.pairwise_cons.mp (List.pairwise_append.mp hOrdered).2.1).1 r' hMem

theorem SortsDown.exists_find? (h : SortsDown rank sort) (hr : r ∈ rows) (hp : p r = true) :
    ∃ r', (sort rows).find? p = some r' := by
  cases hFind : (sort rows).find? p with
  | some r' => exact ⟨r', rfl⟩
  | none => exact absurd hp (List.find?_eq_none.mp hFind r ((h.perm rows).symm.subset hr))

theorem exists_sortsDown (rank : ρ → β) (r : ρ) : ∃ sort, SortsDown rank sort ∧
    ∀ rows p, Greatest rank p rows r → (sort rows).find? p = some r := by
  classical
  have hTrans : IsTrans ρ fun a b => rank b ≤ rank a := ⟨fun _ _ _ hab hbc => le_trans hbc hab⟩
  have hTotal : Std.Total fun a b : ρ => rank b ≤ rank a := ⟨fun a b => le_total (rank b) (rank a)⟩
  -- the row is put in front before the rows are sorted by insertion
  let front : List ρ → List ρ := fun rows => if r ∈ rows then r :: rows.erase r else rows
  have hFront : ∀ rows, (front rows).Perm rows := by
    intro rows
    by_cases hMem : r ∈ rows
    · simp only [front, if_pos hMem]
      exact (List.perm_cons_erase hMem).symm
    · simp only [front, if_neg hMem]
      exact List.Perm.refl _
  refine ⟨fun rows => (front rows).insertionSort fun a b => rank b ≤ rank a,
    ⟨fun rows => (List.perm_insertionSort _ _).trans (hFront rows),
      fun rows => List.pairwise_insertionSort _ _⟩, ?_⟩
  rintro rows p ⟨hMem, hp, hMax⟩
  simp only [front, if_pos hMem]
  rw [List.insertionSort_cons_eq_take_drop, List.find?_append, List.find?_cons_of_pos hp]
  have hNone : ((List.insertionSort (fun a b => rank b ≤ rank a) (rows.erase r)).takeWhile
      fun b => decide ¬ rank b ≤ rank r).find? p = none := by
    refine List.find?_eq_none.mpr fun b hb hpb => ?_
    have hAbove := List.mem_takeWhile_imp hb
    have hRows : b ∈ rows :=
      List.mem_of_mem_erase ((List.mem_insertionSort _).mp ((List.takeWhile_prefix _).subset hb))
    exact of_decide_eq_true hAbove (hMax b hRows hpb)
  rw [hNone, Option.none_or]

/-- No other row with the property comes up to the row. -/
def OnlyGreatest (rank : ρ → β) (p : ρ → Bool) (rows : List ρ) (r : ρ) : Prop :=
  r ∈ rows ∧ p r = true ∧ ∀ r' ∈ rows, p r' = true → r' = r ∨ rank r' < rank r

theorem OnlyGreatest.greatest (h : OnlyGreatest rank p rows r) : Greatest rank p rows r := by
  refine ⟨h.1, h.2.1, fun r' hr' hp => ?_⟩
  rcases h.2.2 r' hr' hp with rfl | hLt
  · exact le_refl _
  · exact le_of_lt hLt

theorem OnlyGreatest.find? (h : OnlyGreatest rank p rows r) (hSort : SortsDown rank sort) :
    (sort rows).find? p = some r := by
  obtain ⟨r', hFind⟩ := hSort.exists_find? h.1 h.2.1
  obtain ⟨hMem, hp, hMax⟩ := hSort.find?_max hFind
  rcases h.2.2 r' hMem hp with rfl | hLt
  · exact hFind
  · exact absurd (hMax r h.1 h.2.1) (not_le_of_gt hLt)

theorem onlyGreatest_filter {q : ρ → Bool} (hq : ∀ r ∈ rows, p r = true → q r = true)
    (h : OnlyGreatest rank p rows r) : OnlyGreatest rank p (rows.filter q) r :=
  ⟨List.mem_filter.mpr ⟨h.1, hq r h.1 h.2.1⟩, h.2.1,
    fun r' hr' => h.2.2 r' (List.mem_of_mem_filter hr')⟩

theorem onlyGreatest_of_unique (h : Greatest rank p rows r)
    (hUnique : ∀ x, Greatest rank p rows x → x = r) : OnlyGreatest rank p rows r := by
  refine ⟨h.1, h.2.1, fun r' hr' hp => ?_⟩
  by_cases hLe : rank r ≤ rank r'
  · exact Or.inl (hUnique r' ⟨hr', hp, fun x hx hpx => le_trans (h.2.2 x hx hpx) hLe⟩)
  · exact Or.inr (lt_of_not_ge hLe)

/-! ## Groups -/

section Groups

variable {κ : Type v} {ν : Type w} {γ : Type u} [DecidableEq γ] {key : ρ → γ} {k : γ}

/-- `drop_duplicates(keep="last")` -/
def lastPerKey (key : ρ → γ) : List ρ → List ρ
  | [] => []
  | r :: rest =>
      if rest.any (fun later => key later = key r) then lastPerKey key rest
      else r :: lastPerKey key rest

theorem find?_lastPerKey (key : ρ → γ) (rows : List ρ) (k : γ) :
    (lastPerKey key rows).find? (fun r => key r = k) = rows.reverse.find? (fun r => key r = k) := by
  induction rows with
  | nil => rfl
  | cons r rest ih =>
      rw [lastPerKey, List.reverse_cons, List.find?_append]
      by_cases hLater : rest.any (fun later => key later = key r) = true
      · rw [if_pos hLater, ih]
        by_cases hKey : key r = k
        · -- a later row of the same key is found
          obtain ⟨later, hMem, hSame⟩ := List.any_eq_true.mp hLater
          have hFound : (rest.reverse.find? fun r => key r = k).isSome = true :=
            List.find?_isSome.mpr ⟨later, List.mem_reverse.mpr hMem,
              decide_eq_true ((of_decide_eq_true hSame).trans hKey)⟩
          rw [Option.or_of_isSome hFound]
        · rw [List.find?_singleton, if_neg (by simpa using hKey), Option.or_none]
      · rw [if_neg hLater]
        by_cases hKey : key r = k
        · have hNone : (rest.reverse.find? fun r => key r = k) = none := by
            refine List.find?_eq_none.mpr fun later hMem hSame => hLater ?_
            exact List.any_eq_true.mpr ⟨later, List.mem_reverse.mp hMem,
              decide_eq_true ((of_decide_eq_true hSame).trans hKey.symm)⟩
          rw [List.find?_cons_of_pos (by simpa using hKey), hNone, List.find?_singleton,
            if_pos (by simpa using hKey), Option.none_or]
        · rw [List.find?_cons_of_neg (by simpa using hKey), ih, List.find?_singleton,
            if_neg (by simpa using hKey), Option.or_none]

/-- `groupby(...).first()` of one group: in each column the first value that is present. -/
def firstPresent (rows : List (κ → Option ν)) (c : κ) : Option ν := rows.findSome? fun r => r c

variable {frame : List (κ → Option ν)} {rank : (κ → Option ν) → β} {q : (κ → Option ν) → Bool}
variable {sort : List (κ → Option ν) → List (κ → Option ν)} {row : κ → Option ν} {c : κ}

theorem firstPresent_filter (frame : List (κ → Option ν)) (q : (κ → Option ν) → Bool) (c : κ) :
    firstPresent (frame.filter q) c =
      (frame.find? fun r => q r && (r c).isSome).bind fun r => r c := by
  unfold firstPresent
  induction frame with
  | nil => rfl
  | cons r frame ih =>
      cases hq : q r with
      | false =>
          rw [List.filter_cons_of_neg (by simp [hq]), List.find?_cons_of_neg (by simp [hq]), ih]
      | true =>
          rw [List.filter_cons_of_pos hq, List.findSome?_cons]
          cases hc : r c with
          | none => rw [List.find?_cons_of_neg (by simp [hc]), ← ih]
          | some x =>
              rw [List.find?_cons_of_pos (by simp [hq, hc]), Option.bind_some, hc]

/-- In each column, what the greatest rows with a value have is what the row has. -/
def ColumnsFrom (rank : (κ → Option ν) → β) (q : (κ → Option ν) → Bool)
    (frame : List (κ → Option ν)) (row : κ → Option ν) : Prop :=
  ∀ c x, Greatest rank (fun r => q r && (r c).isSome) frame x → x c = row c

theorem ColumnsFrom.firstPresent (h : ColumnsFrom rank q frame row) (hMem : row ∈ frame)
    (hq : q row = true) (hSort : SortsDown rank sort) :
    firstPresent ((sort frame).filter q) = row := by
  funext c
  rw [firstPresent_filter]
  cases hFind : (sort frame).find? fun r => q r && (r c).isSome with
  | some x =>
      rw [Option.bind_some]
      exact h c x (hSort.find?_max hFind)
  | none =>
      cases hc : row c with
      | none => rfl
      | some x =>
          have hNot := List.find?_eq_none.mp hFind row ((hSort.perm frame).symm.subset hMem)
          rw [hq, hc] at hNot
          exact absurd rfl hNot

theorem columnsFrom_of_forall
    (h : ∀ sort, SortsDown rank sort → firstPresent ((sort frame).filter q) = row) :
    ColumnsFrom rank q frame row := by
  intro c x hMax
  obtain ⟨sort, hSort, hFirst⟩ := exists_sortsDown rank x
  have hColumn := congrFun (h sort hSort) c
  rw [firstPresent_filter, hFirst frame _ hMax, Option.bind_some] at hColumn
  exact hColumn

end Groups

end AsetPlatform.Library
