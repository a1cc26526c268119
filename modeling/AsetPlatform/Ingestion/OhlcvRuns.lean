import AsetPlatform.Ingestion.OhlcvBulk

/-!
# Crash safety of the bulk ingestion of prices

At whatever point `run_bulk` ends, and however often it is started again, the cursor has passed no
stock that is neither ingested nor recorded as skipped: what a stock needs is written before the
cursor moves to it, and the cursor moves to the stocks in their order (`World.Inv`). A day of a ticker
is stored once as long as rows without a close make room for the new ones; their delete may fail, and
`insert_ohlcv` appends then all the same.
-/

set_option autoImplicit false

namespace AsetPlatform.Ingestion.OhlcvBulk

open AsetPlatform.Library AsetPlatform.StockData

universe u

variable {P : Type u}

/-! ## What the source brings -/

section Source

variable {T : CharTables} {symbol : String} {start stop : Nat}
  {df : List (Nat × Option P)}

theorem fetchOhlcv_ok {reply : Reply P} (h : fetchOhlcv T symbol start stop reply = .ok df) :
    df ≠ [] ∧ (df.map Prod.fst).Nodup ∧ ∀ row ∈ df, start ≤ row.1 := by
  cases reply with
  | raised exc => cases h
  | frame rows distinct missing =>
      simp only [fetchOhlcv] at h
      split at h
      · cases h
      · rename_i row rest hRows
        cases missing with
        | some columns => cases h
        | none =>
            obtain rfl := Except.ok.inj h
            rw [← hRows]
            refine ⟨by simp [hRows], distinct.sublist (List.filter_sublist.map _), ?_⟩
            intro row hRow
            have hIn := (List.mem_filter.mp hRow).2
            simp only [Bool.and_eq_true, decide_eq_true_eq] at hIn
            exact hIn.1

end Source

namespace World

variable {T : CharTables} {w₀ w w' : World P} {p : Process P} {stock : StockMaster}

/-! ## Handled stocks -/

/-- End dates that the registry did not have in the beginning are stored days. -/
def Backed (w₀ w : World P) : Prop :=
  ∀ ticker, ∀ entry ∈ w.registry.get? ticker, ∀ last ∈ entry.dateRangeEnd,
    (∃ old ∈ w₀.registry.get? ticker, old.dateRangeEnd = some last) ∨
      (ticker, last) ∈ storedKeys w.rows

def HasEnd (w : World P) (ticker : String) : Prop :=
  ∃ entry ∈ w.registry.get? ticker, entry.dateRangeEnd.isSome = true

theorem Backed.ingested_iff (h : Backed w₀ w) :
    Ingested w₀ w stock ↔ w.HasEnd (storeAs stock) := by
  constructor
  · rintro ⟨entry, hEntry, last, hLast, -⟩
    exact ⟨entry, hEntry, Option.isSome_of_mem hLast⟩
  · rintro ⟨entry, hEntry, hSome⟩
    obtain ⟨last, hLast⟩ := Option.isSome_iff_exists.mp hSome
    exact ⟨entry, hEntry, last, hLast, h _ entry hEntry last hLast⟩

theorem Handled.mono (h : Handled w₀ w stock) (hBacked : Backed w₀ w) (hBacked' : Backed w₀ w')
    (hEnd : ∀ ticker, w.HasEnd ticker → w'.HasEnd ticker)
    (hSkipped : Recorded w.skipped w.cursor.name "bulk" stock.symbol →
      Recorded w'.skipped w'.cursor.name "bulk" stock.symbol) : Handled w₀ w' stock := by
  rcases h with hIngested | hRecorded
  · exact Or.inl (hBacked'.ingested_iff.mpr (hEnd _ (hBacked.ingested_iff.mp hIngested)))
  · exact Or.inr (hSkipped hRecorded)

/-! ## The invariant -/

/-- What the next write of a process relies on. -/
def StageSound (w₀ w : World P) (p : Process P) : Prop :=
  match p.stage, p.batch with
  | .insert _ df, stock :: _ =>
      df ≠ [] ∧ (df.map Prod.fst).Nodup ∧
        ∀ entry ∈ w.registry.get? (storeAs stock), ∀ last ∈ entry.dateRangeEnd, ∀ row ∈ df,
          last < row.1
  | .register _ _ df, stock :: _ =>
      df ≠ [] ∧ ∀ row ∈ df, (storeAs stock, row.1) ∈ storedKeys w.rows
  | .advance _, stock :: _ => Handled w₀ w stock
  | _, _ => True

/-- Ids are distinct and drawn, the stocks of the beginning are there, and a process works on the
stocks behind the cursor. -/
structure Inv (w₀ w : World P) : Prop where
  distinct : (w.stocks.map StockMaster.id).Nodup
  drawn : ∀ stock ∈ w.stocks, stock.id < w.nextId
  position : w.cursor.lastProcessedId < w.nextId
  grown : w₀.stocks ⊆ w.stocks
  backed : Backed w₀ w
  safe : Safe w₀ w
  pending : ∀ p ∈ w.process,
    Pending StockMaster.id StockMaster.isActive w.stocks w.cursor.lastProcessedId p.batch
  stage : ∀ p ∈ w.process, StageSound w₀ w p

theorem Beginning.inv (h : Beginning w₀) : Inv w₀ w₀ where
  distinct := h.distinct
  drawn := h.drawn
  position := h.position
  grown := List.Subset.refl _
  backed := fun _ entry hEntry _ hLast => Or.inl ⟨entry, hEntry, hLast⟩
  safe := h.safe
  pending := by simp [h.idle]
  stage := by simp [h.idle]

theorem Inv.withProcess (h : Inv w₀ w) {q : Option (Process P)}
    (hPending : ∀ p ∈ q,
      Pending StockMaster.id StockMaster.isActive w.stocks w.cursor.lastProcessedId p.batch)
    (hStage : ∀ p ∈ q, StageSound w₀ w p) : Inv w₀ { w with process := q } where
  distinct := h.distinct
  drawn := h.drawn
  position := h.position
  grown := h.grown
  backed := h.backed
  safe := ⟨h.safe.passed, h.safe.completed, h.safe.once⟩
  pending := hPending
  stage := hStage

theorem Inv.stop (h : Inv w₀ w) : Inv w₀ { w with process := none } :=
  h.withProcess (by simp) (by simp)

theorem Inv.goOn (h : Inv w₀ w) (hp : w.process = some p) {q : Process P} (hBatch : q.batch = p.batch)
    (hStage : StageSound w₀ w q) : Inv w₀ { w with process := some q } := by
  refine h.withProcess ?_ ?_
  · rintro _ ⟨rfl⟩
    rw [hBatch]
    exact h.pending p hp
  · rintro _ ⟨rfl⟩
    exact hStage

theorem Inv.withStatus (h : Inv w₀ w) {status : CursorStatus}
    (hCompleted : status = .completed → ∀ stock ∈ w₀.stocks, stock.isActive = true →
      stock.id ≤ w.cursor.lastProcessedId) :
    Inv w₀ { w with cursor := setCursorStatus w.cursor status } where
  distinct := h.distinct
  drawn := h.drawn
  position := h.position
  grown := h.grown
  backed := h.backed
  safe := ⟨h.safe.passed, hCompleted, h.safe.once⟩
  pending := h.pending
  stage := h.stage

/-! ## The writes of a process -/

/-- When a batch turns out empty, the cursor has passed all stocks, or the batch may hold none. -/
theorem Inv.complete (h : Inv w₀ w) (hBatch : getNextBatch w.cursor w.stocks = [])
    (hSize : w.cursor.batchSize = 0 → ∀ stock ∈ w₀.stocks, stock.isActive = true →
      stock.id ≤ w.cursor.lastProcessedId) :
    Inv w₀ { w with cursor := setCursorStatus w.cursor .completed, process := none } := by
  refine Inv.stop (w := { w with cursor := setCursorStatus w.cursor .completed })
    (h.withStatus fun _ => ?_)
  rcases Nat.eq_zero_or_pos w.cursor.batchSize with hZero | hPos
  · exact hSize hZero
  · exact fun stock hMem => (nextBatch_eq_nil_iff hPos).mp hBatch stock (h.grown hMem)

theorem Inv.select (h : Inv w₀ w) {p : Process P}
    (hSize : w.cursor.batchSize = 0 → ∀ stock ∈ w₀.stocks, stock.isActive = true →
      stock.id ≤ w.cursor.lastProcessedId) : Inv w₀ (w.select p) := by
  unfold World.select
  split
  · exact h.complete ‹_› hSize
  · rename_i stock rest hBatch
    refine h.withProcess ?_ ?_
    · rintro _ ⟨rfl⟩
      rw [← hBatch]
      exact pending_nextBatch h.distinct
    · rintro _ ⟨rfl⟩
      trivial

theorem Inv.finish (h : Inv w₀ w)
    (hSize : w.cursor.batchSize = 0 → ∀ stock ∈ w₀.stocks, stock.isActive = true →
      stock.id ≤ w.cursor.lastProcessedId) : Inv w₀ w.finish := by
  unfold World.finish
  split
  · exact h.complete ‹_› hSize
  · exact h.stop

theorem hasEnd_of_fresh {ticker : String} {today : Nat} (h : w.startDate ticker today = none) :
    w.HasEnd ticker := by
  unfold World.startDate at h
  split at h
  · rename_i last hLast
    obtain ⟨entry, hEntry, hEnd⟩ := Option.bind_eq_some_iff.mp hLast
    exact ⟨entry, hEntry, by simp [hEnd]⟩
  · cases h

theorem lt_of_startDate {ticker : String} {today start : Nat}
    (h : w.startDate ticker today = some start) :
    ∀ entry ∈ w.registry.get? ticker, ∀ last ∈ entry.dateRangeEnd, last < start := by
  intro entry hEntry last hLast
  have hKnown : (w.registry.get? ticker).bind RegistryEntry.dateRangeEnd = some last :=
    Option.bind_eq_some_iff.mpr ⟨entry, hEntry, hLast⟩
  unfold World.startDate at h
  simp only [hKnown] at h
  split at h
  · cases h
  · obtain rfl := Option.some.inj h
    exact Nat.lt_succ_self _

theorem Inv.fetch (h : Inv w₀ w) (hp : w.process = some p) {rest : List StockMaster}
    (hBatch : p.batch = stock :: rest) (a : Answers P) : Inv w₀ (w.fetch T p stock a) := by
  unfold World.fetch
  split
  · rename_i hFresh
    refine h.goOn hp rfl ?_
    simp only [StageSound, hBatch]
    exact Or.inl (h.backed.ingested_iff.mpr (hasEnd_of_fresh hFresh))
  · rename_i start hStart
    split
    · -- the bulk source does not return empty frames
      rename_i hRows
      obtain ⟨k, hReply⟩ := retryWithBackoff_ok hRows
      exact absurd rfl (fetchOhlcv_ok hReply).1
    · rename_i row rows hRows
      obtain ⟨k, hReply⟩ := retryWithBackoff_ok hRows
      obtain ⟨hNe, hDistinct, hFrom⟩ := fetchOhlcv_ok hReply
      refine h.goOn hp rfl ?_
      simp only [StageSound, hBatch]
      refine ⟨hNe, hDistinct, ?_⟩
      intro entry hEntry last hLast row hRow
      exact Nat.lt_of_lt_of_le (lt_of_startDate hStart entry hEntry last hLast) (hFrom row hRow)
    · split
      · split
        · exact h.goOn hp rfl trivial
        · exact h.goOn hp rfl trivial
      · exact h.goOn hp rfl trivial

theorem Backed.insert (h : Backed w₀ w) {df : List (Nat × Option P)} (faults : InsertFaults)
    (hAfter : ∀ entry ∈ w.registry.get? (storeAs stock), ∀ last ∈ entry.dateRangeEnd,
      ∀ row ∈ df, last < row.1) :
    Backed w₀ { w with rows := (insertOhlcv w.rows (storeAs stock) df faults).1 } := by
  intro ticker entry hEntry last hLast
  refine (h ticker entry hEntry last hLast).imp id fun hStored => ?_
  apply mem_storedKeys_insertOhlcv hStored
  intro _ _ hNew
  obtain ⟨r, hr, hKey⟩ := mem_storedKeys.mp hNew
  obtain ⟨hTicker, hRow, -⟩ := mem_filtered.mp hr
  obtain ⟨rfl, rfl⟩ := Prod.mk.inj hKey
  rw [hTicker] at hEntry
  exact absurd (hAfter entry hEntry _ hLast _ hRow) (Nat.lt_irrefl _)

theorem Inv.insert (h : Inv w₀ w) (hp : w.process = some p) {rest : List StockMaster}
    (hBatch : p.batch = stock :: rest) {today : Nat} {df : List (Nat × Option P)}
    (hStage : p.stage = .insert today df) {a : Answers P}
    (hRoom : a.faults.read = false → a.faults.append ≠ .refused → a.faults.nullDelete = true →
      ∀ r ∈ filtered w.rows (storeAs stock) df, r.key ∉ storedKeys w.rows) :
    Inv w₀ (w.insert p stock today df a) := by
  have hSound := h.stage p hp
  simp only [StageSound, hStage, hBatch] at hSound
  obtain ⟨hNe, hDistinct, hAfter⟩ := hSound
  have hBacked := h.backed.insert a.faults hAfter
  have hOnce := nodup_storedKeys_insertOhlcv h.safe.once hDistinct hRoom
  have hStores : (insertOhlcv w.rows (storeAs stock) df a.faults).2 = false → ∀ row ∈ df,
      (storeAs stock, row.1) ∈ storedKeys (insertOhlcv w.rows (storeAs stock) df a.faults).1 :=
    fun hRaised => (insertOhlcv_stores (insertOhlcv_not_raised hRaised)).1
  unfold World.insert
  generalize insertOhlcv w.rows (storeAs stock) df a.faults = result at hBacked hOnce hStores ⊢
  obtain ⟨rows, raised⟩ := result
  refine ⟨h.distinct, h.drawn, h.position, h.grown, hBacked, ⟨?_, h.safe.completed, hOnce⟩, ?_, ?_⟩
  · intro s hMem hActive hLe
    exact (h.safe.passed s hMem hActive hLe).mono h.backed hBacked (fun _ => id) id
  · rintro _ ⟨rfl⟩
    exact h.pending p hp
  · rintro _ ⟨rfl⟩
    cases raised with
    | true => trivial
    | false =>
        simp only [StageSound, hBatch]
        exact ⟨hNe, hStores rfl⟩

theorem Inv.log (h : Inv w₀ w) (hp : w.process = some p) {rest : List StockMaster}
    (hBatch : p.batch = stock :: rest) (message category : String) :
    Inv w₀ (w.log p stock message category) := by
  unfold World.log
  split
  · rename_i skipped hLogged
    have hKept : ∀ s, Handled w₀ w s →
        Handled w₀ { w.goOn p (.advance .failed) with skipped := skipped } s := by
      intro s hHandled
      exact hHandled.imp id fun hRecorded => hRecorded.logSkipped hLogged
    refine ⟨h.distinct, h.drawn, h.position, h.grown, h.backed,
      ⟨?_, h.safe.completed, h.safe.once⟩, ?_, ?_⟩
    · exact fun s hMem hActive hLe => hKept s (h.safe.passed s hMem hActive hLe)
    · rintro _ ⟨rfl⟩
      exact h.pending p hp
    · rintro _ ⟨rfl⟩
      simp only [StageSound, hBatch]
      exact Or.inr (recorded_logSkipped hLogged)
  · exact h.stop

theorem Inv.register (h : Inv w₀ w) (hp : w.process = some p) {rest : List StockMaster}
    (hBatch : p.batch = stock :: rest) {today rows : Nat} {df : List (Nat × Option P)}
    (hStage : p.stage = .register today rows df) : Inv w₀ (w.register p stock today rows df) := by
  have hSound := h.stage p hp
  simp only [StageSound, hStage, hBatch] at hSound
  obtain ⟨hNe, hStored⟩ := hSound
  have hGet : ∀ ticker, (w.register p stock today rows df).registry.get? ticker =
      if ticker = storeAs stock then
        some (upserted (w.registry.get? (storeAs stock)) today rows df)
      else w.registry.get? ticker := fun ticker => Dict.get?_set _ _ _ _
  obtain ⟨last, hLast⟩ : ∃ last, (df.map Prod.fst).max? = some last :=
    Option.isSome_iff_exists.mp (by simp [List.isSome_max?_iff, hNe])
  have hEnd : ∀ ticker, w.HasEnd ticker → (w.register p stock today rows df).HasEnd ticker := by
    rintro ticker ⟨entry, hEntry, hSome⟩
    by_cases hTicker : ticker = storeAs stock
    · exact ⟨_, (hGet ticker).trans (if_pos hTicker), by simp [upserted, hLast]⟩
    · exact ⟨entry, ((hGet ticker).trans (if_neg hTicker)).trans hEntry, hSome⟩
  have hBacked : Backed w₀ (w.register p stock today rows df) := by
    intro ticker entry hEntry day hDay
    rw [hGet] at hEntry
    by_cases hTicker : ticker = storeAs stock
    · rw [if_pos hTicker] at hEntry
      obtain rfl := Option.some.inj hEntry
      obtain ⟨row, hRow, rfl⟩ := List.mem_map.mp (List.max?_mem hDay)
      exact Or.inr (hTicker ▸ hStored row hRow)
    · rw [if_neg hTicker] at hEntry
      exact h.backed ticker entry hEntry day hDay
  refine ⟨h.distinct, h.drawn, h.position, h.grown, hBacked, ⟨?_, h.safe.completed, h.safe.once⟩,
    ?_, ?_⟩
  · intro s hMem hActive hLe
    exact (h.safe.passed s hMem hActive hLe).mono h.backed hBacked hEnd id
  · rintro _ ⟨rfl⟩
    exact h.pending p hp
  · rintro _ ⟨rfl⟩
    simp only [StageSound, hBatch]
    refine Or.inl (hBacked.ingested_iff.mpr ⟨_, (hGet _).trans (if_pos rfl), ?_⟩)
    simp [upserted, hLast]

theorem Inv.advance (h : Inv w₀ w) (hp : w.process = some p) {rest : List StockMaster}
    (hBatch : p.batch = stock :: rest) {outcome : Outcome} (hStage : p.stage = .advance outcome) :
    Inv w₀ (w.advance p stock rest outcome) := by
  have hHandled := h.stage p hp
  simp only [StageSound, hStage, hBatch] at hHandled
  have hPending := h.pending p hp
  rw [hBatch] at hPending
  refine ⟨h.distinct, h.drawn, h.drawn stock (hPending.mem stock List.mem_cons_self).1, h.grown,
    h.backed, ⟨?_, ?_, h.safe.once⟩, ?_, ?_⟩
  · intro s hMem hActive hLe
    rcases hPending.eq_head hMem hActive hLe with hBefore | rfl
    · exact h.safe.passed s hMem hActive hBefore
    · exact hHandled
  · intro hStatus s hMem hActive
    have hBefore := h.safe.completed hStatus s hMem hActive
    have hAbove := hPending.above stock List.mem_cons_self
    exact Nat.le_of_lt (Nat.lt_of_le_of_lt hBefore hAbove)
  · rintro _ ⟨rfl⟩
    exact hPending.tail
  · rintro _ ⟨rfl⟩
    simp only [StageSound]
    cases rest with
    | nil => trivial
    | cons => trivial

/-! ## Runs with crashes -/

theorem Inv.work (h : Inv w₀ w) (hp : w.process = some p) {a : Answers P}
    (hCareful : Careful w₀ w (.work a)) : Inv w₀ (w.work T p a) := by
  simp only [Careful, hp] at hCareful
  cases hStage : p.stage with
  | select =>
      simp only [hStage] at hCareful
      simp only [World.work, hStage]
      exact h.select hCareful
  | finish =>
      simp only [hStage] at hCareful
      simp only [World.work, hStage]
      exact h.finish hCareful
  | fetch =>
      cases hBatch : p.batch with
      | nil =>
          simp only [World.work, hStage, hBatch]
          exact h.stop
      | cons stock rest =>
          simp only [World.work, hStage, hBatch]
          exact h.fetch hp hBatch a
  | insert today df =>
      cases hBatch : p.batch with
      | nil =>
          simp only [World.work, hStage, hBatch]
          exact h.stop
      | cons stock rest =>
          simp only [hStage, hBatch] at hCareful
          simp only [World.work, hStage, hBatch]
          exact h.insert hp hBatch hStage hCareful
  | log message category =>
      cases hBatch : p.batch with
      | nil =>
          simp only [World.work, hStage, hBatch]
          exact h.stop
      | cons stock rest =>
          simp only [World.work, hStage, hBatch]
          exact h.log hp hBatch message category
  | register today rows df =>
      cases hBatch : p.batch with
      | nil =>
          simp only [World.work, hStage, hBatch]
          exact h.stop
      | cons stock rest =>
          simp only [World.work, hStage, hBatch]
          exact h.register hp hBatch hStage
  | advance outcome =>
      cases hBatch : p.batch with
      | nil =>
          simp only [World.work, hStage, hBatch]
          exact h.stop
      | cons stock rest =>
          simp only [World.work, hStage, hBatch]
          exact h.advance hp hBatch hStage

theorem Inv.addStock (h : Inv w₀ w) (gap : Nat) (new : StockMaster) :
    Inv w₀ { w with
      stocks := w.stocks ++ [{ new with id := w.nextId + gap }]
      nextId := w.nextId + gap + 1 } where
  distinct := by
    rw [List.map_append, List.nodup_append]
    refine ⟨h.distinct, List.nodup_singleton _, ?_⟩
    rintro _ hOld _ hNew rfl
    obtain ⟨s, hMem, hId⟩ := List.mem_map.mp hOld
    have hDrawn := h.drawn s hMem
    have hNew' := List.mem_singleton.mp hNew
    simp only at hNew'
    omega
  drawn := by
    intro s hMem
    rcases List.mem_append.mp hMem with hMem | hMem
    · have hDrawn := h.drawn s hMem
      show s.id < w.nextId + gap + 1
      omega
    · rw [List.mem_singleton.mp hMem]
      exact Nat.lt_succ_self _
  position := by
    have hPosition := h.position
    show w.cursor.lastProcessedId < w.nextId + gap + 1
    omega
  grown := fun _ hMem => List.mem_append_left _ (h.grown hMem)
  backed := h.backed
  safe := by
    refine ⟨?_, h.safe.completed, h.safe.once⟩
    intro s hMem hActive hLe
    rcases List.mem_append.mp hMem with hMem | hMem
    · exact h.safe.passed s hMem hActive hLe
    · rw [List.mem_singleton.mp hMem] at hLe
      have hPosition := h.position
      have hLe' : w.nextId + gap ≤ w.cursor.lastProcessedId := hLe
      omega
  pending := by
    intro p hp
    refine (h.pending p hp).concat fun s hMem => ?_
    have hDrawn := h.drawn s hMem
    show s.id < w.nextId + gap
    omega
  stage := h.stage

theorem Inv.step (h : Inv w₀ w) {e : Event P} (hCareful : Careful w₀ w e) :
    Inv w₀ (w.step T e) := by
  cases e with
  | start =>
      unfold World.step
      cases hp : w.process with
      | some p => exact h
      | none =>
          refine Inv.withProcess (w := { w with cursor := setCursorStatus w.cursor .inProgress })
            (h.withStatus fun hStatus => nomatch hStatus) ?_ ?_
          · rintro _ ⟨rfl⟩
            exact ⟨List.Pairwise.nil, by simp, by simp, fun _ _ _ _ => Or.inr (by simp)⟩
          · rintro _ ⟨rfl⟩
            trivial
  | work a =>
      unfold World.step
      cases hp : w.process with
      | none => exact h
      | some p => exact h.work hp hCareful
  | crash => exact h.stop
  | addStock gap stock => exact h.addStock gap stock

theorem careful_of_safe {e : Event P} (hSafe : Safe w₀ (w.step T e)) :
    Careful w₀ w e := by
  cases e with
  | work a =>
      cases hp : w.process with
      | none => simp only [Careful, hp]
      | some p =>
          simp only [World.step, hp] at hSafe
          simp only [Careful, hp]
          have hEmpty : w.cursor.batchSize = 0 → getNextBatch w.cursor w.stocks = [] := by
            intro hZero
            rw [getNextBatch, nextBatch, hZero, List.take_zero]
          cases hStage : p.stage with
          | select =>
              intro hZero
              simp only [World.work, hStage, World.select, hEmpty hZero] at hSafe
              exact hSafe.completed rfl
          | finish =>
              intro hZero
              simp only [World.work, hStage, World.finish, hEmpty hZero] at hSafe
              exact hSafe.completed rfl
          | insert today df =>
              cases hBatch : p.batch with
              | nil => trivial
              | cons stock rest =>
                  simp only [World.work, hStage, hBatch, World.insert] at hSafe
                  exact fun hRead hAppend hFails r hr =>
                    not_mem_of_nodup_insertOhlcv hSafe.once hRead hAppend hFails hr
          | _ => trivial
  | _ => trivial

/-- Whatever fails and wherever the process ends, the cursor passes handled stocks only, is completed
after the last one, and no day of a ticker is stored twice, as long as the steps are careful; and only
then. -/
theorem crash_safe_iff (hBeginning : Beginning w₀) (T : CharTables)
    (events : List (Event P)) :
    EveryState (step T) (Safe w₀) w₀ events ↔ EveryStep (step T) (Careful w₀) w₀ events := by
  have hStep : ∀ (w : World P) (e : Event P), Inv w₀ w → Careful w₀ w e →
      Inv w₀ (w.step T e) := fun _ _ h => h.step
  refine everyState_iff_everyStep hStep (fun w e h => ?_) hBeginning.inv hBeginning.safe
  exact ⟨careful_of_safe, fun hCareful => (h.step hCareful).safe⟩

/-! ## A day without a close -/

/-- One stock, and nothing stored. -/
def oneStock : World Nat where
  stocks := [⟨1, "TCS", "TCS.NS", "INR", true⟩]
  nextId := 2
  cursor := createCursor "nifty500_bulk" 1 50
  skipped := []
  registry := .empty
  rows := []
  process := none

theorem beginning_oneStock : Beginning oneStock where
  idle := rfl
  distinct := by decide
  drawn := by decide
  position := by decide
  safe := by
    refine ⟨fun stock hMem _ hLe => ?_, (fun hStatus => nomatch hStatus), by decide⟩
    obtain rfl := List.mem_singleton.mp hMem
    exact absurd hLe (by decide)

/-- The source gives the last day without a close, and a delete may fail. -/
def openDay (nullDelete : Bool) : Answers Nat :=
  ⟨5000, fun _ => .frame [(4999, none)] (by decide) none, ⟨false, nullDelete, .done⟩⟩

/-- The process ends after the first insert, and is started again. -/
def restarted (nullDelete : Bool) : List (Event Nat) :=
  [.start, .work (openDay false), .work (openDay false), .work (openDay false), .crash,
    .start, .work (openDay false), .work (openDay false), .work (openDay nullDelete),
    .work (openDay false), .work (openDay false), .work (openDay false)]

theorem crash_safe_restarted :
    EveryState (step .ascii) (Safe oneStock) oneStock (restarted false) :=
  (crash_safe_iff beginning_oneStock .ascii _).mpr (by decide +kernel)

/-- After a failed delete the day is stored twice. -/
theorem failedDelete_doubles :
    ¬ EveryState (step .ascii) (Safe oneStock) oneStock (restarted true) := by
  intro h
  have hOnce := h.last.once
  revert hOnce
  decide +kernel

end World

end AsetPlatform.Ingestion.OhlcvBulk
