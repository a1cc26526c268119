import AsetPlatform.StockData.AdjClose

/-!
# Runs with an update of adjusted closes

A run is compared with the same run without the events of the update. The tables have the same rows
but for the adjusted closes of the dates in the map, unless an insert of the ticker comes between the
steps of the update, or a commit of the update fails where it must not (`update_keeps_table`).
-/

set_option autoImplicit false

namespace AsetPlatform.StockData

open AsetPlatform.Library

/-! ## What the update leaves alone -/

/-- The columns of a row without the time of its writing, and without the adjusted close where the map
has a value for its date. -/
def AdjUpdate.frame (u : AdjUpdate) (r : StoredBar) : String × Nat × Bar × Option ℚ :=
  (r.ticker, r.date, r.bar,
    if r.ticker = u.ticker ∧ (u.newVal r.date).isSome then none else r.adjClose)

/-- Tables with the same rows up to what the update may change. -/
def AdjUpdate.Same (u : AdjUpdate) (t t' : List StoredBar) : Prop := (t.map u.frame).Perm (t'.map u.frame)

section Same

variable {u : AdjUpdate} {t t' : List StoredBar} {ticker : String}

theorem AdjUpdate.Same.refl (t : List StoredBar) : u.Same t t := List.Perm.refl _

theorem AdjUpdate.Same.of_perm (h : t.Perm t') : u.Same t t' := h.map _

theorem AdjUpdate.Same.append (h : u.Same t t') (new : List StoredBar) :
    u.Same (t ++ new) (t' ++ new) := by
  rw [AdjUpdate.Same, List.map_append, List.map_append]
  exact h.append_right _

theorem AdjUpdate.Same.filter (h : u.Same t t') (p : String × Nat × Bar → Bool) :
    u.Same (t.filter fun r => p (r.ticker, r.date, r.bar))
      (t'.filter fun r => p (r.ticker, r.date, r.bar)) := by
  have hTest : ∀ t : List StoredBar, (t.filter fun r => p (r.ticker, r.date, r.bar)).map u.frame =
      (t.map u.frame).filter fun x => p (x.1, x.2.1, x.2.2.1) := by
    intro t
    rw [List.filter_map]
    rfl
  rw [AdjUpdate.Same, hTest, hTest]
  exact List.Perm.filter _ h

theorem AdjUpdate.Same.exists_row (h : u.Same t t') {r : StoredBar} (hr : r ∈ t) :
    ∃ r' ∈ t', r'.ticker = r.ticker ∧ r'.date = r.date ∧ r'.bar = r.bar := by
  have hFrame : u.frame r ∈ t'.map u.frame := h.mem_iff.mp (List.mem_map_of_mem hr)
  obtain ⟨r', hr', hSame⟩ := List.mem_map.mp hFrame
  simp only [AdjUpdate.frame, Prod.mk.injEq] at hSame
  exact ⟨r', hr', hSame.1, hSame.2.1, hSame.2.2.1⟩

theorem AdjUpdate.Same.existingDates (h : u.Same t t') (d : Nat) :
    d ∈ existingDates t ticker ↔ d ∈ existingDates t' ticker := by
  have hOne : ∀ {t t' : List StoredBar}, u.Same t t' → d ∈ StockData.existingDates t ticker →
      d ∈ StockData.existingDates t' ticker := by
    intro t t' h hIn
    obtain ⟨r, hr, rfl⟩ := List.mem_map.mp hIn
    obtain ⟨hMem, hTest⟩ := List.mem_filter.mp hr
    obtain ⟨hTicker, hClose⟩ := of_decide_eq_true hTest
    obtain ⟨r', hr', hTicker', hDate', hBar'⟩ := h.exists_row hMem
    refine List.mem_map.mpr ⟨r', List.mem_filter.mpr ⟨hr', decide_eq_true ⟨?_, ?_⟩⟩, hDate'⟩
    · exact hTicker'.trans hTicker
    · rw [hBar']
      exact hClose
  exact ⟨hOne h, hOne h.symm⟩

theorem AdjUpdate.Same.newRows (h : u.Same t t') (df : List FetchedBar) :
    newRows df (StockData.existingDates t ticker) = newRows df (StockData.existingDates t' ticker) :=
  List.filter_congr fun _ _ => decide_eq_decide.mpr (not_congr (h.existingDates _))

theorem AdjUpdate.Same.nanPreDelete (h : u.Same t t') (dates : List Nat) :
    u.Same (nanPreDelete t ticker dates) (nanPreDelete t' ticker dates) :=
  h.filter fun x => !(decide (x.1 = ticker ∧ x.2.1 ∈ dates) && x.2.2.close.isNone)

theorem AdjUpdate.Same.stepInsert (h : u.Same t t') (i : Insert) (s : InsertStep) :
    u.Same (stepInsert t i s).1 (StockData.stepInsert t' i s).1 ∧
      (StockData.stepInsert t i s).2 = (StockData.stepInsert t' i s).2 := by
  cases s with
  | read =>
      rw [StockData.stepInsert, StockData.stepInsert]
      cases i.phase with
      | reading =>
          simp only [h.newRows]
          exact ⟨h, trivial⟩
      | _ => exact ⟨h, rfl⟩
  | preDelete commit =>
      rw [StockData.stepInsert, StockData.stepInsert]
      cases i.phase with
      | deleting new =>
          refine ⟨?_, rfl⟩
          simp only
          split
          · exact h
          · exact h.nanPreDelete _
      | _ => exact ⟨h, rfl⟩
  | append commit =>
      rw [StockData.stepInsert, StockData.stepInsert]
      cases i.phase with
      | appending new =>
          refine ⟨?_, rfl⟩
          simp only
          split
          · exact h
          · exact h.append _
      | _ => exact ⟨h, rfl⟩

theorem frame_updateRow {r : StoredBar} (h : r.ticker = u.ticker) :
    u.frame (u.updateRow r) = u.frame r := by
  rw [AdjUpdate.frame, AdjUpdate.frame, AdjUpdate.updateRow]
  simp only [h, true_and]
  cases hVal : u.newVal r.date with
  | none => simp
  | some v => simp

end Same

/-! ## Undisturbed steps -/

/-- The rows of the ticker that the update has read and not yet appended. -/
def UpdatePhase.Holds (rows : List StoredBar) : UpdatePhase → Prop
  | deleting held _ => held = rows
  | appending held _ => held = rows
  | _ => False

/-- A step of an insert of the ticker does not meet the rows that the update holds: it does not look
dates up that are stored with a close and deleted, deletes none of the rows, and appends nothing that
the update is about to delete. -/
def Apart (u : AdjUpdate) (w : AdjWorld) (i : Insert) : InsertStep → Prop
  | .read =>
      i.phase = .reading → ∀ rows n, w.update = .appending rows n →
        ∀ f ∈ i.df, f.date ∉ existingDates rows u.ticker
  | .preDelete commit =>
      ∀ new, i.phase = .deleting new → ∀ rows, w.update.Holds rows → commit ≠ .refused →
        nanPreDelete rows u.ticker (new.map FetchedBar.date) = rows
  | .append commit =>
      ∀ new, i.phase = .appending new → ∀ rows n, w.update = .deleting rows n → commit = .refused

/-- No insert of the ticker comes between the steps of the update; its delete does not raise once it is
carried out, and its append is not refused. -/
def Undisturbed (u : AdjUpdate) (w : AdjWorld) : AdjEvent → Prop
  | .insert k s => ∀ i, w.inserts[k]? = some i → i.ticker = u.ticker → Apart u w i s
  | .delete commit => ∀ rows n, w.update = .deleting rows n → commit ≠ .lost
  | .append commit => ∀ rows n, w.update = .appending rows n → commit ≠ .refused
  | _ => True

/-! ## Simulation -/

/-- The table with the rows that are deleted and not yet appended. -/
def AdjWorld.whole (w : AdjWorld) : List StoredBar :=
  match w.update with
  | .appending rows _ => w.table ++ rows
  | _ => w.table

/-- A world with the update beside one without it. -/
structure Agrees (u : AdjUpdate) (w ref : AdjWorld) : Prop where
  inserts : w.inserts = ref.inserts
  same : u.Same w.whole ref.table
  own : ∀ {rows}, w.update.Holds rows → ∀ r ∈ rows, r.ticker = u.ticker
  scanned : ∀ {rows n}, w.update = .deleting rows n →
    u.Same rows (w.table.filter (·.ticker = u.ticker))

section Simulation

variable {u : AdjUpdate} {w ref : AdjWorld} {rows t : List StoredBar} {i : Insert}

theorem existingDates_append (t t' : List StoredBar) (ticker : String) :
    existingDates (t ++ t') ticker = existingDates t ticker ++ existingDates t' ticker := by
  rw [existingDates, List.filter_append, List.map_append]
  rfl

theorem existingDates_of_other {ticker : String} (h : ∀ r ∈ rows, r.ticker ≠ ticker) :
    existingDates rows ticker = [] := by
  rw [existingDates, List.map_eq_nil_iff, List.filter_eq_nil_iff]
  intro r hr hTest
  exact h r hr (of_decide_eq_true hTest).1

theorem nanPreDelete_of_other {ticker : String} (h : ∀ r ∈ rows, r.ticker ≠ ticker) (dates : List Nat) :
    nanPreDelete rows ticker dates = rows := by
  rw [nanPreDelete, List.filter_eq_self]
  intro r hr
  rw [decide_eq_false fun hTest => h r hr hTest.1]
  rfl

/-- An insert that does not meet the rows beside the table leaves them beside it. -/
theorem stepInsert_beside (hOwn : ∀ r ∈ rows, r.ticker = u.ticker) {n : Nat}
    (hPhase : w.update = .appending rows n) (s : InsertStep)
    (hApart : i.ticker = u.ticker → Apart u w i s) :
    (stepInsert (t ++ rows) i s).1.Perm ((stepInsert t i s).1 ++ rows) ∧
      (stepInsert (t ++ rows) i s).2 = (stepInsert t i s).2 := by
  have hHolds : w.update.Holds rows := by
    rw [hPhase]
    exact rfl
  have hOther : i.ticker ≠ u.ticker → ∀ r ∈ rows, r.ticker ≠ i.ticker :=
    fun hNe r hr hSame => hNe (hSame ▸ hOwn r hr)
  cases s with
  | read =>
      rw [stepInsert, stepInsert]
      cases hi : i.phase with
      | reading =>
          have hNew : newRows i.df (existingDates (t ++ rows) i.ticker) =
              newRows i.df (existingDates t i.ticker) := by
            apply List.filter_congr
            intro f hf
            rw [existingDates_append]
            apply decide_eq_decide.mpr
            rw [List.mem_append, not_or]
            refine and_iff_left ?_
            by_cases hTicker : i.ticker = u.ticker
            · rw [hTicker]
              exact hApart hTicker hi rows n hPhase f hf
            · rw [existingDates_of_other (hOther hTicker)]
              exact List.not_mem_nil
          simp only [hNew]
          exact ⟨List.Perm.refl _, trivial⟩
      | _ => exact ⟨List.Perm.refl _, rfl⟩
  | preDelete commit =>
      rw [stepInsert, stepInsert]
      cases hi : i.phase with
      | deleting new =>
          refine ⟨?_, rfl⟩
          simp only
          split
          · exact List.Perm.refl _
          · rename_i hCommit
            have hRows : nanPreDelete rows i.ticker (new.map FetchedBar.date) = rows := by
              by_cases hTicker : i.ticker = u.ticker
              · rw [hTicker]
                exact hApart hTicker new hi rows hHolds hCommit
              · exact nanPreDelete_of_other (hOther hTicker) _
            have hSplit : nanPreDelete (t ++ rows) i.ticker (new.map FetchedBar.date) =
                nanPreDelete t i.ticker (new.map FetchedBar.date) ++
                  nanPreDelete rows i.ticker (new.map FetchedBar.date) :=
              List.filter_append _ _
            rw [hSplit, hRows]
      | _ => exact ⟨List.Perm.refl _, rfl⟩
  | append commit =>
      rw [stepInsert, stepInsert]
      cases hi : i.phase with
      | appending new =>
          refine ⟨?_, rfl⟩
          simp only
          split
          · exact List.Perm.refl _
          · rw [List.append_assoc, List.append_assoc]
            exact (List.perm_append_comm).append_left t
      | _ => exact ⟨List.Perm.refl _, rfl⟩

/-- An insert that does not meet the rows of the ticker leaves them as they are. -/
theorem stepInsert_own (hScanned : u.Same rows (w.table.filter (·.ticker = u.ticker))) {n : Nat}
    (hPhase : w.update = .deleting rows n) (s : InsertStep)
    (hApart : i.ticker = u.ticker → Apart u w i s) :
    u.Same rows ((stepInsert w.table i s).1.filter (·.ticker = u.ticker)) := by
  have hHolds : w.update.Holds rows := by
    rw [hPhase]
    exact rfl
  cases s with
  | read =>
      rw [stepInsert]
      cases i.phase <;> exact hScanned
  | preDelete commit =>
      rw [stepInsert]
      cases hi : i.phase with
      | deleting new =>
          simp only
          split
          · exact hScanned
          · rename_i hCommit
            rw [nanPreDelete, List.filter_comm]
            by_cases hTicker : i.ticker = u.ticker
            · have hRows := hApart hTicker new hi rows hHolds hCommit
              have hDeleted := @AdjUpdate.Same.nanPreDelete u _ _ u.ticker hScanned (new.map FetchedBar.date)
              rw [hRows] at hDeleted
              rw [hTicker]
              exact hDeleted
            · have hRest : nanPreDelete (w.table.filter (·.ticker = u.ticker)) i.ticker
                  (new.map FetchedBar.date) = w.table.filter (·.ticker = u.ticker) := by
                apply nanPreDelete_of_other
                intro r hr hSame
                exact hTicker (hSame ▸ of_decide_eq_true (List.mem_filter.mp hr).2)
              rw [nanPreDelete] at hRest
              rw [hRest]
              exact hScanned
      | _ => exact hScanned
  | append commit =>
      rw [stepInsert]
      cases hi : i.phase with
      | appending new =>
          simp only
          split
          · exact hScanned
          · rename_i hCommit
            by_cases hTicker : i.ticker = u.ticker
            · exact absurd (hApart hTicker new hi rows n hPhase) hCommit
            · have hNone : (new.map (FetchedBar.stored i.ticker i.now)).filter
                  (·.ticker = u.ticker) = [] := by
                rw [List.filter_eq_nil_iff]
                intro r hr hSame
                obtain ⟨f, -, rfl⟩ := List.mem_map.mp hr
                exact hTicker (of_decide_eq_true hSame)
              rw [List.filter_append, hNone, List.append_nil]
              exact hScanned
      | _ => exact hScanned

theorem whole_of_not_appending (h : ∀ rows n, w.update ≠ .appending rows n) : w.whole = w.table := by
  rw [AdjWorld.whole]
  split
  · rename_i rows n hPhase
    exact absurd hPhase (h rows n)
  · rfl

theorem Agrees.of_idle (hInserts : w.inserts = ref.inserts) (hSame : u.Same w.table ref.table)
    (hIdle : ∀ rows, ¬w.update.Holds rows) : Agrees u w ref where
  inserts := hInserts
  same := by
    rw [whole_of_not_appending fun rows n hPhase => hIdle rows (by rw [hPhase]; exact rfl)]
    exact hSame
  own := fun hHolds => absurd hHolds (hIdle _)
  scanned := fun hPhase => absurd (by rw [hPhase]; exact rfl) (hIdle _)

theorem Agrees.beginInsert (h : Agrees u w ref) (ticker : String) (df : List FetchedBar) (now : Nat) :
    Agrees u (w.step u (.beginInsert ticker df now)) (ref.step u (.beginInsert ticker df now)) where
  inserts := congrArg (fun calls : List Insert => calls ++ [⟨ticker, df, now, .reading⟩]) h.inserts
  same := h.same
  own := h.own
  scanned := h.scanned

theorem Agrees.insert (h : Agrees u w ref) {k : Nat} {s : InsertStep}
    (hUndisturbed : Undisturbed u w (.insert k s)) :
    Agrees u (w.step u (.insert k s)) (ref.step u (.insert k s)) := by
  rw [AdjWorld.step, AdjWorld.step, ← h.inserts]
  cases hInsert : w.inserts[k]? with
  | none => exact h
  | some i =>
      have hApart := hUndisturbed i hInsert
      obtain ⟨hTable, hCall⟩ := h.same.stepInsert i s
      refine ⟨?_, ?_, h.own, ?_⟩
      · simp only
        rw [← hCall]
        congr 1
        cases hPhase : w.update with
        | appending rows n =>
            have hOwn := @Agrees.own u w ref h rows (by rw [hPhase]; exact rfl)
            rw [AdjWorld.whole, hPhase]
            exact (stepInsert_beside hOwn hPhase s hApart).2.symm
        | _ => rw [AdjWorld.whole, hPhase]
      · cases hPhase : w.update with
        | appending rows n =>
            have hOwn := @Agrees.own u w ref h rows (by rw [hPhase]; exact rfl)
            have hWhole : w.whole = w.table ++ rows := by rw [AdjWorld.whole, hPhase]
            rw [hWhole] at hTable
            have hBeside := (stepInsert_beside hOwn hPhase (t := w.table) s hApart).1
            simp only [AdjWorld.whole]
            exact (AdjUpdate.Same.of_perm hBeside.symm).trans hTable
        | _ =>
            have hWhole : w.whole = w.table := by rw [AdjWorld.whole, hPhase]
            rw [hWhole] at hTable
            simp only [AdjWorld.whole]
            exact hTable
      · intro rows n hPhase
        exact stepInsert_own (h.scanned hPhase) hPhase s hApart

theorem Agrees.scan (h : Agrees u w ref) : Agrees u (w.step u .scan) ref := by
  rw [AdjWorld.step]
  split
  · rename_i hPhase
    have hWhole : w.whole = w.table := whole_of_not_appending fun rows n hOther => by
      rw [hPhase] at hOther
      cases hOther
    have hSame := h.same
    rw [hWhole] at hSame
    simp only
    split
    · exact Agrees.of_idle h.inserts hSame fun _ hHolds => hHolds
    · have hTicker : ∀ r ∈ w.table.filter (·.ticker = u.ticker), r.ticker = u.ticker :=
        fun r hr => of_decide_eq_true (List.mem_filter.mp hr).2
      refine ⟨h.inserts, hSame, ?_, ?_⟩
      · rintro rows rfl r hr
        obtain ⟨r', hr', rfl⟩ := List.mem_map.mp hr
        exact hTicker r' hr'
      · intro rows n hNow
        cases hNow
        have hFrames : ((w.table.filter (·.ticker = u.ticker)).map u.updateRow).map u.frame =
            (w.table.filter (·.ticker = u.ticker)).map u.frame := by
          rw [List.map_map]
          exact List.map_congr_left fun r hr => frame_updateRow (hTicker r hr)
        exact List.Perm.of_eq hFrames
  · exact h

theorem Agrees.delete (h : Agrees u w ref) {commit : Commit}
    (hUndisturbed : Undisturbed u w (.delete commit)) : Agrees u (w.step u (.delete commit)) ref := by
  rw [AdjWorld.step]
  split
  · rename_i rows n hPhase
    have hWhole : w.whole = w.table := whole_of_not_appending fun rows' n' hOther => by
      rw [hPhase] at hOther
      cases hOther
    have hSame := h.same
    rw [hWhole] at hSame
    cases commit with
    | refused =>
        exact Agrees.of_idle h.inserts hSame fun _ hHolds => hHolds
    | lost => exact absurd rfl (hUndisturbed rows n hPhase)
    | done =>
        refine ⟨h.inserts, ?_, ?_, fun hOther => UpdatePhase.noConfusion hOther⟩
        · -- the rest of the table and the rows that are held are the table
          have hRest : u.Same (w.table.filter (·.ticker ≠ u.ticker) ++ rows)
              (w.table.filter (·.ticker ≠ u.ticker) ++ w.table.filter (·.ticker = u.ticker)) := by
            rw [AdjUpdate.Same, List.map_append, List.map_append]
            exact (h.scanned hPhase).append_left _
          have hTable : (w.table.filter (·.ticker ≠ u.ticker) ++
              w.table.filter (·.ticker = u.ticker)).Perm w.table := by
            refine List.perm_append_comm.trans ?_
            have hParts := List.filter_append_perm (fun r : StoredBar => r.ticker = u.ticker) w.table
            simp only [← decide_not] at hParts
            exact hParts
          exact (hRest.trans (AdjUpdate.Same.of_perm hTable)).trans hSame
        · rintro rows' rfl
          exact h.own (by rw [hPhase]; exact rfl)
  · exact h

theorem Agrees.append (h : Agrees u w ref) {commit : Commit}
    (hUndisturbed : Undisturbed u w (.append commit)) : Agrees u (w.step u (.append commit)) ref := by
  rw [AdjWorld.step]
  split
  · rename_i rows n hPhase
    have hSame := h.same
    rw [AdjWorld.whole, hPhase] at hSame
    have hCommit := hUndisturbed rows n hPhase
    simp only [if_neg hCommit]
    cases commit with
    | refused => exact absurd rfl hCommit
    | done =>
        exact Agrees.of_idle h.inserts hSame fun _ hHolds => hHolds
    | lost =>
        exact Agrees.of_idle h.inserts hSame fun _ hHolds => hHolds
  · exact h

theorem Agrees.step (h : Agrees u w ref) {e : AdjEvent} (hUndisturbed : Undisturbed u w e) :
    Agrees u (w.step u e) (if e.ofInsert then ref.step u e else ref) := by
  cases e with
  | beginInsert ticker df now => exact h.beginInsert ticker df now
  | insert k s => exact h.insert hUndisturbed
  | scan => exact h.scan
  | delete commit => exact h.delete hUndisturbed
  | append commit => exact h.append hUndisturbed

theorem Agrees.run (h : Agrees u w ref) {es : List AdjEvent}
    (hUndisturbed : EveryStep (AdjWorld.step u) (Undisturbed u) w es) :
    Agrees u (runFrom (AdjWorld.step u) w es)
      (runFrom (AdjWorld.step u) ref (es.filter AdjEvent.ofInsert)) := by
  induction es generalizing w ref with
  | nil => exact h
  | cons e es ih =>
      obtain ⟨hNow, hLater⟩ := hUndisturbed
      have hNext := ih (h.step hNow) hLater
      rw [runFrom_cons]
      cases hInsert : e.ofInsert with
      | true =>
          rw [List.filter_cons_of_pos hInsert, runFrom_cons]
          rw [hInsert, if_pos rfl] at hNext
          exact hNext
      | false =>
          rw [List.filter_cons_of_neg (by simp [hInsert])]
          rw [hInsert, if_neg Bool.false_ne_true] at hNext
          exact hNext

theorem Agrees.start (t : List StoredBar) : Agrees u (AdjWorld.start t) (AdjWorld.start t) :=
  Agrees.of_idle rfl (AdjUpdate.Same.refl t) fun _ hHolds => hHolds

end Simulation

/-- In an undisturbed run, whenever the update is not between its delete and its append, the table has
the rows that it has without the update, up to their time of writing and the adjusted closes on the
dates of the map. -/
theorem update_keeps_table (u : AdjUpdate) (t : List StoredBar) {es : List AdjEvent}
    (hUndisturbed : EveryStep (AdjWorld.step u) (Undisturbed u) (AdjWorld.start t) es)
    (hBetween : ∀ rows n, (runFrom (AdjWorld.step u) (AdjWorld.start t) es).update ≠
      .appending rows n) :
    u.Same (runFrom (AdjWorld.step u) (AdjWorld.start t) es).table
      (runFrom (AdjWorld.step u) (AdjWorld.start t) (es.filter AdjEvent.ofInsert)).table := by
  have hAgrees := (Agrees.start (u := u) t).run hUndisturbed
  rw [← whole_of_not_appending hBetween]
  exact hAgrees.same

/-- The adjusted close of the first day becomes 4. -/
def adjustFirst : AdjUpdate := ⟨"AAPL", .set .empty 1 (some 4), 9⟩

def twoDays : List StoredBar :=
  [⟨"AAPL", 1, closedAt 5, none, 7⟩, ⟨"AAPL", 2, closedAt 6, none, 7⟩]

/-- The update by itself. -/
theorem first_adjusted :
    (runFrom (AdjWorld.step adjustFirst) (.start twoDays) [.scan, .delete .done, .append .done]).table =
        [⟨"AAPL", 1, closedAt 5, some 4, 9⟩, ⟨"AAPL", 2, closedAt 6, none, 9⟩] ∧
      adjustFirst.Same
        (runFrom (AdjWorld.step adjustFirst) (.start twoDays)
          [.scan, .delete .done, .append .done]).table
        (runFrom (AdjWorld.step adjustFirst) (.start twoDays)
          ([.scan, .delete .done, .append .done].filter AdjEvent.ofInsert)).table := by
  refine ⟨by decide +kernel, update_keeps_table adjustFirst twoDays ?_ ?_⟩
  · exact ⟨trivial, fun _ _ _ => Commit.noConfusion, fun _ _ _ => Commit.noConfusion, trivial⟩
  · intro rows n hAppending
    have hReturned : (runFrom (AdjWorld.step adjustFirst) (.start twoDays)
        [.scan, .delete .done, .append .done]).update = .returned 1 := by
      decide +kernel
    rw [hReturned] at hAppending
    cases hAppending

/-- The third day is inserted after the scan. -/
def insertedAfterScan : List AdjEvent :=
  [.scan, .beginInsert "AAPL" [⟨259200, closedAt 7, none⟩] 8, .insert 0 .read,
    .insert 0 (.preDelete .done), .insert 0 (.append .done), .delete .done, .append .done]

/-- A refused append loses all rows of the ticker, and an insert after the scan is lost. -/
theorem rows_lost :
    (runFrom (AdjWorld.step adjustFirst) (.start twoDays)
        [.scan, .delete .done, .append .refused]).table = [] ∧
      ¬adjustFirst.Same
        (runFrom (AdjWorld.step adjustFirst) (.start twoDays) insertedAfterScan).table
        (runFrom (AdjWorld.step adjustFirst) (.start twoDays)
          (insertedAfterScan.filter AdjEvent.ofInsert)).table := by
  refine ⟨by decide +kernel, fun hSame => ?_⟩
  have hLength := hSame.length_eq
  rw [List.length_map, List.length_map] at hLength
  exact absurd hLength (by decide +kernel)

end AsetPlatform.StockData
