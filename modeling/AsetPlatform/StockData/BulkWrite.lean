import AsetPlatform.Library.Rows
import AsetPlatform.Library.Run
import AsetPlatform.StockData.OhlcvTable

/-!
# The bulk price write

Phase 2 of `batch_data_refresh` in `backend/jobs/batch_refresh.py`. The fetched rows are compared with
the keys that a query finds in the table; rows of today that are stored already are deleted and
written again, null rows in the way are deleted, and the rest is appended. Each statement commits on
its own. When the query or the delete of today's rows fails, all fetched rows are appended.

`one_close_a_day_iff` says which runs of batches keep one row with a close for a ticker and day, and
lose none.
-/

set_option autoImplicit false

namespace AsetPlatform.StockData.BulkWrite

open AsetPlatform.Library

universe u

variable {P : Type u}

/-! ## The write -/

/-- The statements that fail. -/
structure Faults where
  existing : Bool := false
  upsertDelete : Bool := false
  nullDelete : Bool := false
  append : Bool := false

/-- What the write finds: the results of phase 1, each the rows of a ticker, the day, and the
faults. -/
structure Batch (P : Type u) where
  today : Nat
  results : List (String × List (Nat × Option P))
  faults : Faults

/-- `combined`. -/
def Batch.combined (x : Batch P) : List (OhlcvRow P) :=
  x.results.flatMap fun r => r.2.map fun row => ⟨r.1, row.1, row.2⟩

section Write

variable (t : List (OhlcvRow P)) (x : Batch P)

/-- `combined[mask_new]`. -/
def newRows : List (OhlcvRow P) := x.combined.filter fun r => r.key ∉ closedKeys t

/-- `today_existing`. -/
def todayExisting : List (OhlcvRow P) :=
  x.combined.filter fun r => decide (r.date = x.today) && decide (r.key ∈ closedKeys t)

def deleteToday (tickers : List String) : List (OhlcvRow P) :=
  t.filter fun r => !(decide (r.ticker ∈ tickers) && decide (r.date = x.today))

/-- The delete of the null rows of the tickers and the days that are to be written. -/
def deleteNulls (newOnly : List (OhlcvRow P)) : List (OhlcvRow P) :=
  t.filter fun r => !(decide (r.ticker ∈ newOnly.map OhlcvRow.ticker) &&
    decide (r.date ∈ newOnly.map OhlcvRow.date) && r.close.isNone)

/-- The table after the deletes, and `new_only`. -/
def dedup : List (OhlcvRow P) × List (OhlcvRow P) :=
  if x.faults.existing then (t, x.combined)
  else
    -- with the query or the delete failing, everything fetched counts as new
    let upsert := todayExisting t x
    if upsert ≠ [] ∧ x.faults.upsertDelete then (t, x.combined)
    else
      let t' := if upsert = [] then t else deleteToday t x (upsert.map OhlcvRow.ticker)
      let newOnly := newRows t x ++ upsert
      -- a failed delete of the null rows is ignored
      if newOnly = [] ∨ x.faults.nullDelete then (t', newOnly)
      else (deleteNulls t' newOnly, newOnly)

/-- The table after phase 2, and whether it raised. -/
def bulkWrite : List (OhlcvRow P) × Bool :=
  if x.combined = [] then (t, false)
  else
    let (t', newOnly) := dedup t x
    if newOnly = [] then (t', false)
    -- the deletes stay committed
    else if x.faults.append then (t', true)
    else (t' ++ newOnly, false)

/-- The table after phase 2. -/
def step : List (OhlcvRow P) := (bulkWrite t x).1

/-! ## What is promised, and when -/

/-- After the write no ticker and day have two rows with a close, and none that had one has none. -/
def KeepsCloses : Prop :=
  (closedKeys (step t x)).Nodup ∧ closedKeys t ⊆ closedKeys (step t x)

/-- The rows that were fetched are all appended. -/
def AppendsAll : Prop :=
  x.faults.existing = true ∨ (todayExisting t x ≠ [] ∧ x.faults.upsertDelete = true)

instance : Decidable (AppendsAll t x) := inferInstanceAs (Decidable (_ ∨ (_ ∧ _)))

/-- No two of the fetched rows that are new or of today have a close and one ticker and day. A row of
today that is stored is fetched with a close, and the append does not fail after its delete. When all
rows are appended, none of them is stored. -/
def Careful : Prop :=
  if AppendsAll t x then
    x.faults.append = true ∨
      ((closedKeys x.combined).Nodup ∧ ∀ k ∈ closedKeys x.combined, k ∉ closedKeys t)
  else
    (x.faults.append = true ∨
      ((closedKeys x.combined).filter fun k => k ∉ closedKeys t ∨ k.2 = x.today).Nodup) ∧
    ∀ r ∈ todayExisting t x, x.faults.append = false ∧ r.key ∈ closedKeys x.combined

instance : Decidable (Careful t x) :=
  inferInstanceAs (Decidable (ite (AppendsAll t x)
    (x.faults.append = true ∨
      ((closedKeys x.combined).Nodup ∧ ∀ k ∈ closedKeys x.combined, k ∉ closedKeys t))
    ((x.faults.append = true ∨
      ((closedKeys x.combined).filter fun k => k ∉ closedKeys t ∨ k.2 = x.today).Nodup) ∧
      ∀ r ∈ todayExisting t x, x.faults.append = false ∧ r.key ∈ closedKeys x.combined)))

end Write

/-! ## The keys after a write -/

section Keys

variable {t : List (OhlcvRow P)} {x : Batch P}

theorem mem_todayExisting {r : OhlcvRow P} :
    r ∈ todayExisting t x ↔ r ∈ x.combined ∧ r.date = x.today ∧ r.key ∈ closedKeys t := by
  rw [todayExisting, List.mem_filter, Bool.and_eq_true, decide_eq_true_eq, decide_eq_true_eq]

theorem closedKeys_newRows :
    closedKeys (newRows t x) = (closedKeys x.combined).filter fun k => k ∉ closedKeys t := by
  rw [← closedKeys_filter]
  rfl

theorem closedKeys_todayExisting :
    closedKeys (todayExisting t x) =
      (closedKeys x.combined).filter fun k => k.2 = x.today ∧ k ∈ closedKeys t := by
  rw [← closedKeys_filter, todayExisting]
  congr 2
  funext r
  exact (Bool.decide_and _ _).symm

theorem perm_closedKeys_newOnly :
    (closedKeys (newRows t x ++ todayExisting t x)).Perm
      ((closedKeys x.combined).filter fun k => k ∉ closedKeys t ∨ k.2 = x.today) := by
  rw [closedKeys_append, closedKeys_newRows, closedKeys_todayExisting]
  refine (perm_filter_or _ ?_).trans (List.Perm.of_eq ?_)
  · intro k _ hnew
    rw [decide_eq_true_eq] at hnew
    rw [decide_eq_false_iff_not]
    exact fun hstored => hnew hstored.2
  · apply List.filter_congr
    intro k _
    rw [← Bool.decide_or]
    apply decide_eq_decide.mpr
    tauto

theorem closedKeys_deleteNulls (newOnly : List (OhlcvRow P)) :
    closedKeys (deleteNulls t newOnly) = closedKeys t := by
  apply closedKeys_filter_of_closed
  intro r _ hclose
  simp [Option.isNone_eq_false_iff.mpr hclose]

theorem closedKeys_deleteToday (tickers : List String) :
    closedKeys (deleteToday t x tickers) =
      (closedKeys t).filter fun k => ¬(k.1 ∈ tickers ∧ k.2 = x.today) := by
  rw [← closedKeys_filter, deleteToday]
  congr 2
  funext r
  rw [← Bool.decide_and, ← decide_not]
  rfl

/-- The keys left by the delete of the rows of today that are to be written again. -/
def leftKeys (t : List (OhlcvRow P)) (x : Batch P) : List (String × Nat) :=
  (closedKeys t).filter fun k =>
    ¬(k.1 ∈ (todayExisting t x).map OhlcvRow.ticker ∧ k.2 = x.today)

theorem dedup_of_appendsAll (hall : AppendsAll t x) : dedup t x = (t, x.combined) := by
  rw [dedup]
  by_cases hexisting : x.faults.existing = true
  · rw [if_pos hexisting]
  · rw [if_neg hexisting, if_pos (hall.resolve_left hexisting)]

theorem dedup_of_not_appendsAll (hsome : ¬AppendsAll t x) :
    ∃ t', dedup t x = (t', newRows t x ++ todayExisting t x) ∧ closedKeys t' = leftKeys t x := by
  rw [AppendsAll, not_or] at hsome
  rw [dedup, if_neg hsome.1]
  simp only
  rw [if_neg hsome.2]
  have hleft : closedKeys (if todayExisting t x = [] then t
      else deleteToday t x ((todayExisting t x).map OhlcvRow.ticker)) = leftKeys t x := by
    by_cases hnone : todayExisting t x = []
    · rw [if_pos hnone, leftKeys, hnone]
      simp
    · rw [if_neg hnone, closedKeys_deleteToday]
      rfl
  split
  · exact ⟨_, rfl, hleft⟩
  · exact ⟨_, rfl, (closedKeys_deleteNulls _).trans hleft⟩

theorem closedKeys_step (t : List (OhlcvRow P)) (x : Batch P) :
    closedKeys (step t x) =
      closedKeys (dedup t x).1 ++ if x.faults.append then [] else closedKeys (dedup t x).2 := by
  rw [step, bulkWrite]
  -- with nothing fetched nothing is deleted either, so the early return is no exception
  by_cases hnone : x.combined = []
  · have hdedup : dedup t x = (t, []) := by
      simp [dedup, newRows, todayExisting, hnone]
    rw [if_pos hnone, hdedup]
    simp
  · rw [if_neg hnone]
    simp only
    by_cases hnew : (dedup t x).2 = []
    · rw [if_pos hnew, hnew]
      simp
    · rw [if_neg hnew]
      by_cases happend : x.faults.append = true
      · rw [if_pos happend, if_pos happend, List.append_nil]
      · rw [if_neg happend, if_neg happend, closedKeys_append]

theorem disjoint_leftKeys : List.Disjoint (leftKeys t x)
    ((closedKeys x.combined).filter fun k => k ∉ closedKeys t ∨ k.2 = x.today) := by
  intro k hleft hwritten
  obtain ⟨hstored, hkept⟩ := List.mem_filter.mp hleft
  obtain ⟨hfetched, hdue⟩ := List.mem_filter.mp hwritten
  simp only [decide_eq_true_eq] at hkept hdue
  -- a stored key is written only as one of today, and then it was deleted
  have htoday : k.2 = x.today := hdue.resolve_left (not_not.mpr hstored)
  apply hkept
  obtain ⟨r, hr, -, rfl⟩ := mem_closedKeys.mp hfetched
  exact ⟨List.mem_map_of_mem (mem_todayExisting.mpr ⟨hr, htoday, hstored⟩), htoday⟩

theorem not_mem_leftKeys {r : OhlcvRow P} (hr : r ∈ todayExisting t x) (htoday : r.date = x.today) :
    r.key ∉ leftKeys t x := by
  intro hmem
  have hkept := (List.mem_filter.mp hmem).2
  rw [decide_eq_true_eq] at hkept
  exact hkept ⟨List.mem_map_of_mem hr, htoday⟩

theorem mem_leftKeys_or {k : String × Nat} (hk : k ∈ closedKeys t) :
    k ∈ leftKeys t x ∨ ∃ r ∈ todayExisting t x, r.key = k := by
  by_cases hgone : k.1 ∈ (todayExisting t x).map OhlcvRow.ticker ∧ k.2 = x.today
  · right
    obtain ⟨hticker, htoday⟩ := hgone
    obtain ⟨r, hr, hsame⟩ := List.mem_map.mp hticker
    obtain ⟨-, hdate, -⟩ := mem_todayExisting.mp hr
    exact ⟨r, hr, Prod.ext hsame (hdate.trans htoday.symm)⟩
  · left
    exact List.mem_filter.mpr ⟨hk, by simpa using hgone⟩

end Keys

/-! ## One write -/

section Write

variable {t : List (OhlcvRow P)} {x : Batch P}

theorem keepsCloses_of_appendsAll (h : (closedKeys t).Nodup) (hall : AppendsAll t x) :
    KeepsCloses t x ↔ Careful t x := by
  rw [KeepsCloses, Careful, if_pos hall, closedKeys_step, dedup_of_appendsAll hall]
  by_cases happend : x.faults.append = true
  · rw [if_pos happend, List.append_nil]
    exact iff_of_true ⟨h, List.Subset.refl _⟩ (Or.inl happend)
  · rw [if_neg happend, List.nodup_append]
    rw [or_iff_right happend]
    constructor
    · rintro ⟨⟨-, hnodup, hdisjoint⟩, -⟩
      exact ⟨hnodup, fun k hfetched hstored => hdisjoint k hstored k hfetched rfl⟩
    · rintro ⟨hnodup, hnew⟩
      refine ⟨⟨h, hnodup, ?_⟩, List.subset_append_left _ _⟩
      rintro k hstored _ hfetched rfl
      exact hnew k hfetched hstored

/-- A write that appends what is new or of today. -/
theorem keepsCloses_of_dedup (h : (closedKeys t).Nodup) (hsome : ¬AppendsAll t x) :
    KeepsCloses t x ↔ Careful t x := by
  obtain ⟨t', hdedup, hleft⟩ := dedup_of_not_appendsAll hsome
  have hnodup : (leftKeys t x).Nodup := h.filter _
  have hnewOnly := perm_closedKeys_newOnly (t := t) (x := x)
  rw [KeepsCloses, Careful, if_neg hsome, closedKeys_step, hdedup, hleft]
  by_cases happend : x.faults.append = true
  · rw [if_pos happend, List.append_nil]
    rw [and_iff_right (Or.inl happend)]
    constructor
    · -- a row deleted for the sake of one that is not appended is lost
      rintro ⟨-, hkept⟩ r hr
      obtain ⟨-, htoday, hstored⟩ := mem_todayExisting.mp hr
      exact absurd (hkept hstored) (not_mem_leftKeys hr htoday)
    · intro hnone
      refine ⟨hnodup, fun k hk => ?_⟩
      rcases mem_leftKeys_or (x := x) hk with hleft | ⟨r, hr, -⟩
      · exact hleft
      · exact absurd (hnone r hr).1 (by simp [happend])
  · have hall : ∀ k, k ∈ closedKeys (newRows t x ++ todayExisting t x) ↔
        k ∈ closedKeys x.combined ∧ (k ∉ closedKeys t ∨ k.2 = x.today) := by
      intro k
      rw [hnewOnly.mem_iff, List.mem_filter, decide_eq_true_eq]
    rw [if_neg happend, or_iff_right happend]
    rw [Bool.not_eq_true] at happend
    simp only [happend, true_and]
    -- what is left has no key in common with what is written, so each half speaks for itself
    constructor
    · rintro ⟨hwritten, hkept⟩
      refine ⟨hnewOnly.nodup_iff.mp (List.nodup_append.mp hwritten).2.1, fun r hr => ?_⟩
      obtain ⟨-, htoday, hstored⟩ := mem_todayExisting.mp hr
      rcases List.mem_append.mp (hkept hstored) with hmem | hmem
      · exact absurd hmem (not_mem_leftKeys hr htoday)
      · exact ((hall _).mp hmem).1
    · rintro ⟨hfetched, hclosed⟩
      refine ⟨?_, fun k hk => ?_⟩
      · rw [List.nodup_append]
        refine ⟨hnodup, hnewOnly.nodup_iff.mpr hfetched, ?_⟩
        rintro k hmem _ hmem' rfl
        exact disjoint_leftKeys hmem (hnewOnly.mem_iff.mp hmem')
      · rcases mem_leftKeys_or (x := x) hk with hmem | ⟨r, hr, rfl⟩
        · exact List.mem_append_left _ hmem
        · apply List.mem_append_right
          obtain ⟨-, htoday, -⟩ := mem_todayExisting.mp hr
          exact (hall _).mpr ⟨hclosed r hr, Or.inr htoday⟩

theorem keepsCloses_iff (h : (closedKeys t).Nodup) : KeepsCloses t x ↔ Careful t x := by
  by_cases hall : AppendsAll t x
  · exact keepsCloses_of_appendsAll h hall
  · exact keepsCloses_of_dedup h hall

/-- Without faults, and when all fetched rows have a close, the write adds them all and loses
nothing. -/
theorem mem_closedKeys_step (hfaults : x.faults = {}) (hclosed : ∀ r ∈ x.combined, r.close.isSome)
    (k : String × Nat) :
    k ∈ closedKeys (step t x) ↔ k ∈ closedKeys t ∨ k ∈ closedKeys x.combined := by
  have hsome : ¬AppendsAll t x := by
    rw [AppendsAll, hfaults]
    simp
  obtain ⟨t', hdedup, hleft⟩ := dedup_of_not_appendsAll hsome
  rw [closedKeys_step, hdedup, hleft, hfaults, if_neg Bool.false_ne_true, List.mem_append,
    perm_closedKeys_newOnly.mem_iff, List.mem_filter, decide_eq_true_eq]
  constructor
  · rintro (hmem | ⟨hmem, -⟩)
    · exact Or.inl (List.mem_filter.mp hmem).1
    · exact Or.inr hmem
  · rintro (hstored | hfetched)
    · rcases mem_leftKeys_or (x := x) hstored with hmem | ⟨r, hr, rfl⟩
      · exact Or.inl hmem
      · obtain ⟨hr, htoday, -⟩ := mem_todayExisting.mp hr
        exact Or.inr ⟨mem_closedKeys.mpr ⟨r, hr, hclosed r hr, rfl⟩, Or.inr htoday⟩
    · by_cases hstored : k ∈ closedKeys t
      · rcases mem_leftKeys_or (x := x) hstored with hmem | ⟨r, hr, rfl⟩
        · exact Or.inl hmem
        · obtain ⟨-, htoday, -⟩ := mem_todayExisting.mp hr
          exact Or.inr ⟨hfetched, Or.inr htoday⟩
      · exact Or.inr ⟨hfetched, Or.inl hstored⟩

end Write

/-! ## Runs of batches -/

/-- In a run of batches one row with a close is kept for each ticker and day, and none is lost, if and
only if all batches are careful. -/
theorem one_close_a_day_iff (t : List (OhlcvRow P)) (xs : List (Batch P))
    (h : (closedKeys t).Nodup) :
    EveryStep step KeepsCloses t xs ↔ EveryStep step Careful t xs := by
  have hkeeps : ∀ (t : List (OhlcvRow P)) x, (closedKeys t).Nodup → Careful t x →
      (closedKeys (step t x)).Nodup := by
    intro t x ht hcareful
    exact ((keepsCloses_iff ht).mpr hcareful).1
  exact everyStep_iff_guarded hkeeps (fun t x ht => keepsCloses_iff ht) h

/-- A row of yesterday, and one without a close. -/
def twoDays : List (OhlcvRow Nat) := [⟨"TCS.NS", 9, some 3500⟩, ⟨"INFY.NS", 9, none⟩]

/-- A run that fetches both days, and one on the next day that fetches them again. -/
def twoRefreshes : List (Batch Nat) :=
  [⟨10, [("TCS.NS", [(9, some 3500), (10, some 3510)]), ("INFY.NS", [(9, some 1500)])], {}⟩,
    ⟨10, [("TCS.NS", [(9, some 3500), (10, some 3520)]), ("INFY.NS", [(9, some 1500)])], {}⟩]

theorem one_close_a_day_twoRefreshes : EveryStep step KeepsCloses twoDays twoRefreshes :=
  (one_close_a_day_iff twoDays twoRefreshes (by decide)).mpr (by decide)

/-- The query for the stored keys fails, and yesterday's row is appended once more. -/
theorem failed_query_doubles_rows :
    ¬∀ (t : List (OhlcvRow Nat)) (xs : List (Batch Nat)), (t.map OhlcvRow.key).Nodup →
      EveryStep step KeepsCloses t xs := by
  intro hclaim
  have hkeeps := hclaim twoDays [⟨10, [("TCS.NS", [(9, some 3500)])], { existing := true }⟩]
    (by decide)
  exact absurd hkeeps.1.1 (by decide)

end AsetPlatform.StockData.BulkWrite
