import Mathlib.Data.Prod.Basic
import AsetPlatform.Library.Rows
import AsetPlatform.StockData.OhlcvTable

/-!
# Inserting the prices of one ticker

`insert_ohlcv` of `stocks/repository.py`. Days that are stored with a close are skipped. Rows without a
close on the days that are left are deleted, and then these days are appended, in a commit of its own.

The stored days are read in three ways; the insert raises only when all three fail. A failed delete is
ignored. The append may be refused, or be carried out and yet raise.
-/

set_option autoImplicit false

namespace AsetPlatform.StockData

universe u

variable {P : Type u}

/-- What a commit came to. -/
inductive Commit where
  | done
  | refused
  /-- Carried out, though it raised. -/
  | lost
  deriving DecidableEq, Repr

structure InsertFaults where
  read : Bool := false
  nullDelete : Bool := false
  append : Commit := .done

/-- The ticker and day of each row. -/
def storedKeys (t : List (OhlcvRow P)) : List (String × Nat) := t.map OhlcvRow.key

section Insert

variable (t : List (OhlcvRow P)) (ticker : String) (df : List (Nat × Option P)) (f : InsertFaults)

/-- `filtered`: the fetched rows whose day is not stored with a close. -/
def filtered : List (OhlcvRow P) :=
  (df.map fun row => ⟨ticker, row.1, row.2⟩).filter fun r => r.key ∉ closedKeys t

/-- The delete of the rows without a close on the days to be inserted. -/
def preDelete (new : List (OhlcvRow P)) : List (OhlcvRow P) :=
  t.filter fun r => !(decide (r.key ∈ storedKeys new) && r.close.isNone)

/-- The table, and whether the insert raised. -/
def insertOhlcv : List (OhlcvRow P) × Bool :=
  if df = [] then (t, false)
  else if f.read then (t, true)
  else
    let new := filtered t ticker df
    if new = [] then (t, false)
    else
      -- a failed delete is ignored, and the rows without a close stay
      let t' := if f.nullDelete then t else preDelete t new
      match f.append with
      | .done => (t' ++ new, false)
      | .refused => (t', true)
      -- committed, but the caller sees an error
      | .lost => (t' ++ new, true)

end Insert

/-! ## What is stored afterwards -/

section Insert

variable {t : List (OhlcvRow P)} {ticker : String} {df : List (Nat × Option P)} {f : InsertFaults}

theorem mem_storedKeys {k : String × Nat} : k ∈ storedKeys t ↔ ∃ r ∈ t, r.key = k :=
  List.mem_map

theorem closedKeys_subset_storedKeys : closedKeys t ⊆ storedKeys t := by
  intro k hk
  obtain ⟨r, hr, -, hkey⟩ := mem_closedKeys.mp hk
  exact mem_storedKeys.mpr ⟨r, hr, hkey⟩

theorem mem_filtered {r : OhlcvRow P} :
    r ∈ filtered t ticker df ↔
      r.ticker = ticker ∧ (r.date, r.close) ∈ df ∧ r.key ∉ closedKeys t := by
  rw [filtered, List.mem_filter, decide_eq_true_eq, List.mem_map]
  constructor
  · rintro ⟨⟨row, hrow, rfl⟩, hnew⟩
    exact ⟨rfl, hrow, hnew⟩
  · rintro ⟨rfl, hrow, hnew⟩
    exact ⟨⟨(r.date, r.close), hrow, rfl⟩, hnew⟩

/-- The rows of an insert that gets as far as to append. -/
theorem insertOhlcv_cases (t : List (OhlcvRow P)) (ticker : String) (df : List (Nat × Option P))
    (f : InsertFaults) :
    (insertOhlcv t ticker df f).1 = t ∧
        (f.read = true ∨ filtered t ticker df = []) ∨
      f.read = false ∧ ∃ t', (t' = t ∧ f.nullDelete = true ∨
          t' = preDelete t (filtered t ticker df) ∧ f.nullDelete = false) ∧
        (insertOhlcv t ticker df f).1 =
          if f.append = .refused then t' else t' ++ filtered t ticker df := by
  rw [insertOhlcv]
  by_cases hdf : df = []
  · left
    rw [if_pos hdf]
    refine ⟨rfl, Or.inr ?_⟩
    rw [hdf]
    rfl
  rw [if_neg hdf]
  by_cases hread : f.read = true
  · left
    rw [if_pos hread]
    exact ⟨rfl, Or.inl hread⟩
  rw [if_neg hread]
  simp only
  by_cases hnew : filtered t ticker df = []
  · left
    rw [if_pos hnew]
    exact ⟨rfl, Or.inr hnew⟩
  right
  rw [if_neg hnew]
  refine ⟨by simpa using hread, if f.nullDelete then t else preDelete t (filtered t ticker df),
    ?_, ?_⟩
  · cases f.nullDelete with
    | false => exact Or.inr ⟨rfl, rfl⟩
    | true => exact Or.inl ⟨rfl, rfl⟩
  · cases f.append with
    | done => rfl
    | refused => rfl
    | lost => rfl

theorem preDelete_subset (t new : List (OhlcvRow P)) : preDelete t new ⊆ t :=
  fun _ hr => (List.mem_filter.mp hr).1

theorem mem_insertOhlcv {r : OhlcvRow P} (h : r ∈ (insertOhlcv t ticker df f).1) :
    r ∈ t ∨ f.read = false ∧ f.append ≠ .refused ∧ r ∈ filtered t ticker df := by
  rcases insertOhlcv_cases t ticker df f with ⟨heq, -⟩ | ⟨hread, t', ht', heq⟩
  · rw [heq] at h
    exact Or.inl h
  · have hsub : t' ⊆ t := by
      rcases ht' with ⟨rfl, -⟩ | ⟨rfl, -⟩
      · exact List.Subset.refl _
      · exact preDelete_subset _ _
    rw [heq] at h
    by_cases happend : f.append = .refused
    · rw [if_pos happend] at h
      exact Or.inl (hsub h)
    · rw [if_neg happend, List.mem_append] at h
      exact h.imp (fun hold => hsub hold) fun hnew => ⟨hread, happend, hnew⟩

theorem mem_storedKeys_insertOhlcv {k : String × Nat} (hk : k ∈ storedKeys t)
    (h : f.append = .refused → f.read = false → k ∉ storedKeys (filtered t ticker df)) :
    k ∈ storedKeys (insertOhlcv t ticker df f).1 := by
  rcases insertOhlcv_cases t ticker df f with ⟨heq, -⟩ | ⟨hread, t', ht', heq⟩
  · rw [heq]
    exact hk
  · rw [heq]
    obtain ⟨r, hr, rfl⟩ := mem_storedKeys.mp hk
    -- the row survives the delete, or a fetched row of its day takes its place
    by_cases hgone : r ∈ t'
    · split
      · exact mem_storedKeys.mpr ⟨r, hgone, rfl⟩
      · exact mem_storedKeys.mpr ⟨r, List.mem_append_left _ hgone, rfl⟩
    · -- the row was deleted to make room for a fetched one
      have hnew : r.key ∈ storedKeys (filtered t ticker df) := by
        rcases ht' with ⟨rfl, -⟩ | ⟨rfl, -⟩
        · exact absurd hr hgone
        · rw [preDelete, List.mem_filter] at hgone
          by_contra hnot
          exact hgone ⟨hr, by simp [hnot]⟩
      by_cases happend : f.append = .refused
      · exact absurd hnew (h happend hread)
      · rw [if_neg happend]
        obtain ⟨r', hr', hkey⟩ := mem_storedKeys.mp hnew
        exact mem_storedKeys.mpr ⟨r', List.mem_append_right _ hr', hkey⟩

theorem fetched_stored {row : Nat × Option P} (hread : f.read = false)
    (happend : f.append ≠ .refused) (hrow : row ∈ df) :
    (ticker, row.1) ∈ storedKeys (insertOhlcv t ticker df f).1 := by
  by_cases hclosed : (ticker, row.1) ∈ closedKeys t
  · apply mem_storedKeys_insertOhlcv (closedKeys_subset_storedKeys hclosed)
    intro hrefused
    exact absurd hrefused happend
  · have hnew : (⟨ticker, row.1, row.2⟩ : OhlcvRow P) ∈ filtered t ticker df :=
      mem_filtered.mpr ⟨rfl, hrow, hclosed⟩
    rcases insertOhlcv_cases t ticker df f with ⟨-, hraised | hnil⟩ | ⟨-, t', -, heq⟩
    · exact absurd hraised (by simp [hread])
    · exact absurd hnew (by simp [hnil])
    · rw [heq, if_neg happend]
      exact mem_storedKeys.mpr ⟨_, List.mem_append_right _ hnew, rfl⟩

/-- An insert that appends, or finds nothing new, stores all fetched days and keeps those it had. -/
theorem insertOhlcv_stores
    (h : f.read = false ∧ f.append ≠ .refused ∨ filtered t ticker df = []) :
    (∀ row ∈ df, (ticker, row.1) ∈ storedKeys (insertOhlcv t ticker df f).1) ∧
      storedKeys t ⊆ storedKeys (insertOhlcv t ticker df f).1 := by
  have hkept : storedKeys t ⊆ storedKeys (insertOhlcv t ticker df f).1 := by
    intro k hk
    apply mem_storedKeys_insertOhlcv hk
    intro hrefused _ hmem
    rcases h with ⟨-, happend⟩ | hnil
    · exact happend hrefused
    · rw [hnil] at hmem
      exact absurd hmem List.not_mem_nil
  refine ⟨?_, hkept⟩
  intro row hrow
  rcases h with ⟨hread, happend⟩ | hnil
  · exact fetched_stored hread happend hrow
  -- nothing is new, so that each fetched day has a close already
  · apply hkept
    apply closedKeys_subset_storedKeys
    by_contra hnew
    have hmem : (⟨ticker, row.1, row.2⟩ : OhlcvRow P) ∈ filtered t ticker df :=
      mem_filtered.mpr ⟨rfl, hrow, hnew⟩
    rw [hnil] at hmem
    exact absurd hmem List.not_mem_nil

theorem insertOhlcv_not_raised (hraised : (insertOhlcv t ticker df f).2 = false) :
    f.read = false ∧ f.append ≠ .refused ∨ filtered t ticker df = [] := by
  rw [insertOhlcv] at hraised
  split at hraised
  · next hdf =>
    right
    rw [hdf]
    rfl
  split at hraised
  · cases hraised
  next hread =>
  simp only at hraised
  split at hraised
  · next hnew => exact Or.inr hnew
  left
  refine ⟨by simpa using hread, ?_⟩
  intro hrefused
  rw [hrefused] at hraised
  cases hraised

/-- Keys stay distinct, when the rows without a close that are in the way go. -/
theorem nodup_storedKeys_insertOhlcv (ht : (storedKeys t).Nodup) (hdf : (df.map Prod.fst).Nodup)
    (h : f.read = false → f.append ≠ .refused → f.nullDelete = true →
      ∀ r ∈ filtered t ticker df, r.key ∉ storedKeys t) :
    (storedKeys (insertOhlcv t ticker df f).1).Nodup := by
  rcases insertOhlcv_cases t ticker df f with ⟨heq, -⟩ | ⟨hread, t', ht', heq⟩
  · rw [heq]
    exact ht
  · have hsub : t'.Sublist t := by
      rcases ht' with ⟨rfl, -⟩ | ⟨rfl, -⟩
      · exact List.Sublist.refl _
      · exact List.filter_sublist
    have hleft : (storedKeys t').Nodup := ht.sublist (hsub.map _)
    rw [heq]
    by_cases happend : f.append = .refused
    · rw [if_pos happend]
      exact hleft
    rw [if_neg happend, storedKeys, List.map_append, List.nodup_append]
    refine ⟨hleft, ?_, ?_⟩
    · have hkeys : ((df.map fun row => (⟨ticker, row.1, row.2⟩ : OhlcvRow P)).map
          OhlcvRow.key).Nodup := by
        rw [List.map_map]
        have hpair := hdf.map (Prod.mk_right_injective ticker)
        rw [List.map_map] at hpair
        exact hpair
      exact hkeys.sublist (List.filter_sublist.map _)
    · rintro k hold _ hnew rfl
      obtain ⟨r, hr, hkey⟩ := List.mem_map.mp hold
      obtain ⟨r', hr', hkey'⟩ := List.mem_map.mp hnew
      rcases ht' with ⟨rfl, hfails⟩ | ⟨rfl, -⟩
      · apply h hread happend hfails r' hr'
        rw [hkey', ← hkey]
        exact mem_storedKeys.mpr ⟨r, hr, rfl⟩
      · obtain ⟨hmem, hkept⟩ := List.mem_filter.mp hr
        -- a stored row on a day to be inserted has no close, and is deleted
        have hclose : r.close.isSome = false := by
          by_contra hsome
          apply (mem_filtered.mp hr').2.2
          rw [hkey', ← hkey]
          exact mem_closedKeys.mpr ⟨r, hmem, (Bool.not_eq_false _).mp hsome, rfl⟩
        have hdue : r.key ∈ storedKeys (filtered t ticker df) :=
          mem_storedKeys.mpr ⟨r', hr', hkey'.trans hkey.symm⟩
        rw [Option.isSome_eq_false_iff] at hclose
        simp [hdue, hclose] at hkept

theorem not_mem_of_nodup_insertOhlcv (h : (storedKeys (insertOhlcv t ticker df f).1).Nodup)
    (hread : f.read = false) (happend : f.append ≠ .refused) (hfails : f.nullDelete = true)
    {r : OhlcvRow P} (hr : r ∈ filtered t ticker df) : r.key ∉ storedKeys t := by
  rcases insertOhlcv_cases t ticker df f with ⟨-, hraised | hnil⟩ | ⟨-, t', ht', heq⟩
  · rw [hread] at hraised
    cases hraised
  · rw [hnil] at hr
    cases hr
  · rcases ht' with ⟨rfl, -⟩ | ⟨-, hdeleted⟩
    · rw [heq, if_neg happend, storedKeys, List.map_append, List.nodup_append] at h
      intro hold
      exact h.2.2 _ hold _ (List.mem_map_of_mem hr) rfl
    · rw [hfails] at hdeleted
      cases hdeleted

end Insert

end AsetPlatform.StockData
