import AsetPlatform.StockData.PriceBars

/-!
# The insert as an upsert

`insert_ohlcv` keeps the rows with a close, stores every date of the frame, and reports how many rows it
appends. With distinct dates in the frame it keeps the keys distinct, and the same insert again changes
nothing but the time of the rows that still have no close (`insertBars_upserts`).
-/

set_option autoImplicit false

namespace AsetPlatform.StockData

/-- A row without the time at which it was written. -/
def StoredBar.unstamped (r : StoredBar) : StoredBar := { r with fetchedAt := 0 }

section Upsert

variable {t : List StoredBar} {ticker : String} {df : List FetchedBar} {now : Nat}

theorem nanPreDelete_nil : nanPreDelete t ticker [] = t := by
  rw [nanPreDelete, List.filter_eq_self]
  intro r _
  simp

/-- The insert deletes and appends, also when nothing is new. -/
theorem insertBars_eq (t : List StoredBar) (ticker : String) (df : List FetchedBar) (now : Nat) :
    insertBars t ticker df now =
      (nanPreDelete t ticker ((newBars ticker df now (existingDates t ticker)).map StoredBar.date) ++
          newBars ticker df now (existingDates t ticker),
        (newBars ticker df now (existingDates t ticker)).length) := by
  rw [insertBars]
  split
  · rename_i hNew
    rw [hNew, List.map_nil, nanPreDelete_nil, List.append_nil, List.length_nil]
  · rfl

theorem mem_newBars {existing : List Nat} {r : StoredBar} :
    r ∈ newBars ticker df now existing ↔ ∃ f ∈ df, f.date ∉ existing ∧ f.stored ticker now = r := by
  rw [newBars, List.mem_map]
  simp only [List.mem_filter, decide_eq_true_eq, and_assoc]

theorem mem_insertBars_of_closed {r : StoredBar} (hr : r ∈ t) (hClose : r.bar.close.isSome) :
    r ∈ (insertBars t ticker df now).1 := by
  rw [insertBars_eq]
  apply List.mem_append_left
  refine List.mem_filter.mpr ⟨hr, ?_⟩
  rw [Option.isNone_eq_false_iff.mpr hClose, Bool.and_false]
  rfl

theorem mem_existingDates_insertBars {d : Nat} :
    d ∈ existingDates (insertBars t ticker df now).1 ticker ↔
      d ∈ existingDates t ticker ∨ ∃ f ∈ df, f.date = d ∧ f.bar.close.isSome := by
  have hOf : ∀ (t : List StoredBar), d ∈ existingDates t ticker ↔
      ∃ r ∈ t, (r.ticker = ticker ∧ r.bar.close.isSome) ∧ r.date = d := by
    intro t
    rw [existingDates, List.mem_map]
    simp only [List.mem_filter, decide_eq_true_eq, and_assoc]
  constructor
  · intro hIn
    obtain ⟨r, hr, ⟨hTicker, hClose⟩, hDate⟩ := (hOf _).mp hIn
    rw [insertBars_eq] at hr
    rcases List.mem_append.mp hr with hOld | hNew
    · exact Or.inl ((hOf t).mpr ⟨r, List.mem_of_mem_filter hOld, ⟨hTicker, hClose⟩, hDate⟩)
    · obtain ⟨f, hf, -, rfl⟩ := mem_newBars.mp hNew
      exact Or.inr ⟨f, hf, hDate, hClose⟩
  · rintro (hOld | ⟨f, hf, rfl, hClose⟩)
    · obtain ⟨r, hr, hTest, hDate⟩ := (hOf t).mp hOld
      exact (hOf _).mpr ⟨r, mem_insertBars_of_closed hr hTest.2, hTest, hDate⟩
    · by_cases hBefore : f.date ∈ existingDates t ticker
      · obtain ⟨r, hr, hTest, hDate⟩ := (hOf t).mp hBefore
        exact (hOf _).mpr ⟨r, mem_insertBars_of_closed hr hTest.2, hTest, hDate⟩
      · refine (hOf _).mpr ⟨f.stored ticker now, ?_, ⟨rfl, hClose⟩, rfl⟩
        rw [insertBars_eq]
        exact List.mem_append_right _ (mem_newBars.mpr ⟨f, hf, hBefore, rfl⟩)

theorem fetched_mem_keys {f : FetchedBar} (hf : f ∈ df) :
    (ticker, f.date) ∈ (insertBars t ticker df now).1.map StoredBar.key := by
  have hStored : (ticker, f.date) ∈ storedKeys (insertOhlcv (t.map StoredBar.toRow) ticker
      (df.map fun r => (r.date, r.bar.close)) {}).1 :=
    fetched_stored rfl (by decide) (List.mem_map_of_mem hf)
  rw [← insertBars_toRow t ticker df now, storedKeys, List.map_map] at hStored
  exact hStored

theorem nodup_insertBars (hKeys : (t.map StoredBar.key).Nodup)
    (hDates : (df.map FetchedBar.date).Nodup) :
    ((insertBars t ticker df now).1.map StoredBar.key).Nodup := by
  have hStored : (storedKeys (t.map StoredBar.toRow)).Nodup := by
    rw [storedKeys, List.map_map]
    exact hKeys
  have hFrame : ((df.map fun r => (r.date, r.bar.close)).map Prod.fst).Nodup := by
    rw [List.map_map]
    exact hDates
  have hAfter : (storedKeys (insertOhlcv (t.map StoredBar.toRow) ticker
      (df.map fun r => (r.date, r.bar.close)) {}).1).Nodup :=
    nodup_storedKeys_insertOhlcv hStored hFrame fun _ _ hFails => by cases hFails
  rw [← insertBars_toRow t ticker df now, storedKeys, List.map_map] at hAfter
  exact hAfter

/-! ## The same insert again -/

theorem filter_again (hDates : (df.map FetchedBar.date).Nodup) :
    (df.filter fun f => f.date ∉ existingDates (insertBars t ticker df now).1 ticker) =
      (df.filter fun f => f.date ∉ existingDates t ticker).filter fun f => f.bar.close.isNone := by
  rw [List.filter_filter]
  apply List.filter_congr
  intro f hf
  rw [Bool.eq_iff_iff, Bool.and_eq_true, decide_eq_true_eq, decide_eq_true_eq,
    mem_existingDates_insertBars, not_or]
  have hOwn : (¬∃ g ∈ df, g.date = f.date ∧ g.bar.close.isSome) ↔ f.bar.close.isNone := by
    constructor
    · intro hNone
      rw [← Option.not_isSome]
      simp only [Bool.not_eq_true', ← Bool.not_eq_true]
      exact fun hSome => hNone ⟨f, hf, rfl, hSome⟩
    · rintro hNone ⟨g, hg, hSame, hSome⟩
      rw [List.inj_on_of_nodup_map hDates hg hf hSame] at hSome
      rw [Option.isNone_iff_eq_none.mp hNone] at hSome
      cases hSome
  rw [hOwn, and_comm]

theorem insertBars_again_closed (hClosed : ∀ f ∈ df, f.bar.close.isSome) (now' : Nat) :
    insertBars (insertBars t ticker df now).1 ticker df now' = ((insertBars t ticker df now).1, 0) := by
  have hNone : newBars ticker df now' (existingDates (insertBars t ticker df now).1 ticker) = [] := by
    rw [newBars, List.map_eq_nil_iff, List.filter_eq_nil_iff]
    intro f hf hNew
    exact of_decide_eq_true hNew (mem_existingDates_insertBars.mpr (Or.inr ⟨f, hf, rfl, hClosed f hf⟩))
  rw [insertBars]
  exact if_pos hNone

/-- The rows the second insert deletes are those of the first one without a close. -/
theorem filter_doomed (hDates : (df.map FetchedBar.date).Nodup) (now' : Nat) :
    ((insertBars t ticker df now).1.filter fun r =>
        decide (r.ticker = ticker ∧
          r.date ∈ (newBars ticker df now'
            (existingDates (insertBars t ticker df now).1 ticker)).map StoredBar.date) &&
          r.bar.close.isNone) =
      ((df.filter fun f => f.date ∉ existingDates t ticker).filter fun f => f.bar.close.isNone).map
        (FetchedBar.stored ticker now) := by
  have hDue : ∀ d, d ∈ (newBars ticker df now'
      (existingDates (insertBars t ticker df now).1 ticker)).map StoredBar.date ↔
        ∃ f ∈ df.filter (fun f => f.date ∉ existingDates t ticker),
          f.bar.close.isNone ∧ f.date = d := by
    intro d
    rw [newBars, filter_again hDates, List.map_map, List.mem_map]
    simp only [List.mem_filter, and_assoc]
    rfl
  generalize (newBars ticker df now'
    (existingDates (insertBars t ticker df now).1 ticker)).map StoredBar.date = again at hDue ⊢
  rw [insertBars_eq, List.filter_append]
  -- what the first insert kept on these dates has a close
  have hKept : ((nanPreDelete t ticker
      ((newBars ticker df now (existingDates t ticker)).map StoredBar.date)).filter fun r =>
        decide (r.ticker = ticker ∧ r.date ∈ again) && r.bar.close.isNone) = [] := by
    rw [List.filter_eq_nil_iff]
    intro r hr hDoomed
    rw [Bool.and_eq_true, decide_eq_true_eq] at hDoomed
    obtain ⟨⟨hTicker, hAgain⟩, hNone⟩ := hDoomed
    obtain ⟨f, hf, -, hDate⟩ := (hDue _).mp hAgain
    have hDeleted : r.ticker = ticker ∧
        r.date ∈ (newBars ticker df now (existingDates t ticker)).map StoredBar.date := by
      refine ⟨hTicker, List.mem_map.mpr ⟨f.stored ticker now, ?_, hDate⟩⟩
      exact List.mem_map_of_mem hf
    have hStays := (List.mem_filter.mp hr).2
    rw [decide_eq_true hDeleted, hNone] at hStays
    cases hStays
  rw [hKept, List.nil_append, newBars, List.filter_map]
  congr 1
  apply List.filter_congr
  intro f hf
  cases hNone : f.bar.close.isNone with
  | false => exact Bool.and_eq_false_iff.mpr (Or.inr hNone)
  | true =>
      have hIn : f.date ∈ again := (hDue _).mpr ⟨f, hf, hNone, rfl⟩
      exact Bool.and_eq_true_iff.mpr ⟨decide_eq_true ⟨rfl, hIn⟩, hNone⟩

theorem insertBars_again (hDates : (df.map FetchedBar.date).Nodup) (now' : Nat) :
    ((insertBars (insertBars t ticker df now).1 ticker df now').1.map StoredBar.unstamped).Perm
      ((insertBars t ticker df now).1.map StoredBar.unstamped) := by
  have hDoomed := @filter_doomed t ticker df now hDates now'
  rw [insertBars_eq (insertBars t ticker df now).1, List.map_append]
  have hSame : (newBars ticker df now'
      (existingDates (insertBars t ticker df now).1 ticker)).map StoredBar.unstamped =
        ((insertBars t ticker df now).1.filter fun r =>
          decide (r.ticker = ticker ∧
            r.date ∈ (newBars ticker df now'
              (existingDates (insertBars t ticker df now).1 ticker)).map StoredBar.date) &&
            r.bar.close.isNone).map StoredBar.unstamped := by
    rw [hDoomed, newBars, filter_again hDates, List.map_map, List.map_map]
    rfl
  rw [hSame, ← List.map_append]
  exact ((List.perm_append_comm).trans (List.filter_append_perm _ _)).map _

end Upsert

/-- The insert keeps what is stored with a close, stores every date of the frame and counts what it
appends; with distinct dates the keys stay distinct, and the same insert again writes only the rows
that have no close, with a new time. -/
theorem insertBars_upserts {t : List StoredBar} (hKeys : (t.map StoredBar.key).Nodup) (ticker : String)
    (df : List FetchedBar) (now now' : Nat) :
    (∀ r ∈ t, r.bar.close.isSome → r ∈ (insertBars t ticker df now).1) ∧
      (∀ f ∈ df, (ticker, f.date) ∈ (insertBars t ticker df now).1.map StoredBar.key) ∧
      (∃ kept added, (insertBars t ticker df now).1 = kept ++ added ∧ kept.Sublist t ∧
        (∀ r ∈ added, ∃ f ∈ df, f.stored ticker now = r) ∧
        added.length = (insertBars t ticker df now).2) ∧
      ((df.map FetchedBar.date).Nodup →
        ((insertBars t ticker df now).1.map StoredBar.key).Nodup ∧
          ((insertBars (insertBars t ticker df now).1 ticker df now').1.map
            StoredBar.unstamped).Perm ((insertBars t ticker df now).1.map StoredBar.unstamped)) ∧
      ((∀ f ∈ df, f.bar.close.isSome) →
        insertBars (insertBars t ticker df now).1 ticker df now' =
          ((insertBars t ticker df now).1, 0)) := by
  refine ⟨fun r hr hClose => mem_insertBars_of_closed hr hClose, fun f hf => fetched_mem_keys hf, ?_,
    fun hDates => ⟨nodup_insertBars hKeys hDates, insertBars_again hDates now'⟩,
    fun hClosed => insertBars_again_closed hClosed now'⟩
  rw [insertBars_eq]
  refine ⟨_, _, rfl, List.filter_sublist, ?_, rfl⟩
  intro r hr
  obtain ⟨f, hf, -, hStored⟩ := mem_newBars.mp hr
  exact ⟨f, hf, hStored⟩

def noFigures : Bar := ⟨none, none, none, none, none⟩

def closedAt (close : ℚ) : Bar := ⟨some 1, some 2, some 1, some close, some 100⟩

/-- A stored row without a close is replaced, and the next insert of the frame changes nothing. -/
theorem upsert_of_two :
    insertBars
        (insertBars [⟨"AAPL", 1, noFigures, none, 0⟩] "AAPL"
          [⟨86400, closedAt 5, none⟩, ⟨172800, closedAt 6, none⟩] 7).1
        "AAPL" [⟨86400, closedAt 5, none⟩, ⟨172800, closedAt 6, none⟩] 8 =
      ([⟨"AAPL", 1, closedAt 5, none, 7⟩, ⟨"AAPL", 2, closedAt 6, none, 7⟩], 0) := by
  have hKeys : ([⟨"AAPL", 1, noFigures, none, 0⟩] : List StoredBar).map StoredBar.key |>.Nodup := by
    decide
  rw [(insertBars_upserts hKeys "AAPL" [⟨86400, closedAt 5, none⟩, ⟨172800, closedAt 6, none⟩] 7
    8).2.2.2.2 (by decide)]
  decide +kernel

/-- A row without a close is inserted a second time; two rows of a date, in the morning and in the
evening, are both inserted. -/
theorem inserted_again_and_twice :
    (insertBars (insertBars [] "AAPL" [⟨86400, noFigures, none⟩] 7).1 "AAPL"
        [⟨86400, noFigures, none⟩] 8).2 = 1 ∧
      ¬((insertBars [] "AAPL" [⟨86400, closedAt 5, none⟩, ⟨129600, closedAt 6, none⟩] 7).1.map
        StoredBar.key).Nodup := by
  decide +kernel

end AsetPlatform.StockData
