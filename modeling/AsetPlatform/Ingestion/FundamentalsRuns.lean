import AsetPlatform.Ingestion.Fundamentals
import AsetPlatform.Library.Threads

/-!
# Crash safety of the ingestion of fundamentals

When every task moves the cursor after the tasks of the stocks before its own, and after all of its
own writes, the cursor passes only stocks that are fully ingested or recorded as skipped, wherever the
job ends (`World.crash_safe`). The job does not see to either: the tasks of a batch run side by side,
an exception ends a task without a record, and a failed update of `stock_master` counts as a success.
-/

set_option autoImplicit false

namespace AsetPlatform.Ingestion.Fundamentals

open AsetPlatform.Library AsetPlatform.StockData

theorem updated_idem (T : CharTables) (info : Info) (p : Profile) :
    updated T info (updated T info p) = updated T info p := by
  have hOr : ∀ {α : Type} (x y : Option α), x.or (x.or y) = x.or y := by
    intro α x y
    cases x <;> rfl
  simp only [updated, hOr]

/-- The task has writes to make, or has forgotten one. -/
def Task.Busy (t : Task) : Prop := ¬ t.Settled ∧ t.over = false

namespace World

variable {T : CharTables} {w₀ w w' : World} {b : Batch} {k : Nat} {t : Task} {stock : StockMaster}

/-! ## What a step leaves of a stock -/

/-- What is written of a stock stays. -/
structure Keeps (w w' : World) (stock : StockMaster) : Prop where
  answers : w'.answers stock.id = w.answers stock.id
  info : ∀ info, ⟨stock.yfTicker, info⟩ ∈ w.companyInfo → ⟨stock.yfTicker, info⟩ ∈ w'.companyInfo
  dividends : w.dividends ⊆ w'.dividends
  profile : w'.profiles stock.id = w.profiles stock.id
  recorded : Recorded w.skipped w.cursor.name "fundamentals" stock.symbol →
    Recorded w'.skipped w'.cursor.name "fundamentals" stock.symbol

theorem keeps_setStage (w : World) (b : Batch) (k : Nat) (t : Task) (stage : Stage)
    (stock : StockMaster) : Keeps w (w.setStage b k t stage) stock :=
  ⟨rfl, fun _ => id, List.Subset.refl _, rfl, id⟩

theorem Handled.keep (h : w.Handled T stock) (hKeeps : Keeps w w' stock) : w'.Handled T stock := by
  refine h.imp ?_ hKeeps.recorded
  rintro ⟨attempt, hAnswer, hInfo, hDividends, hProfile⟩
  refine ⟨attempt, hKeeps.answers.trans hAnswer, hKeeps.info _ hInfo, ?_, ?_⟩
  · exact fun day hDay => hKeeps.dividends (hDividends day hDay)
  · rw [hKeeps.profile]
    exact hProfile

/-- What the next write of a task relies on. -/
def StageSound (T : CharTables) (w : World) (t : Task) : Prop :=
  match t.stage with
  | .writeInfo attempt => w.answers t.stock.id = some attempt
  | .writeDividends attempt =>
      w.answers t.stock.id = some attempt ∧ ⟨t.stock.yfTicker, attempt.info⟩ ∈ w.companyInfo
  | .updateMaster attempt =>
      w.answers t.stock.id = some attempt ∧ ⟨t.stock.yfTicker, attempt.info⟩ ∈ w.companyInfo ∧
        ∀ day ∈ attempt.dividends, (t.stock.yfTicker, day) ∈ w.dividends
  | .advance _ false => w.Handled T t.stock
  | .ended false => w.Handled T t.stock
  | _ => True

theorem StageSound.keep (h : StageSound T w t) (hKeeps : Keeps w w' t.stock) :
    StageSound T w' t := by
  unfold StageSound at h ⊢
  split at h
  · exact hKeeps.answers.trans h
  · exact ⟨hKeeps.answers.trans h.1, hKeeps.info _ h.2⟩
  · exact ⟨hKeeps.answers.trans h.1, hKeeps.info _ h.2.1,
      fun day hDay => hKeeps.dividends (h.2.2 day hDay)⟩
  · exact Handled.keep h hKeeps
  · exact Handled.keep h hKeeps
  · trivial

theorem StageSound.handled (h : StageSound T w t) (hSettled : t.Settled) : w.Handled T t.stock := by
  unfold StageSound at h
  unfold Task.Settled at hSettled
  split at hSettled
  · subst hSettled
    simpa only [*] using h
  · subst hSettled
    simpa only [*] using h
  · cases hSettled

/-! ## The invariant -/

/-- The tasks are those of a batch that was read at `origin`, where everything before was handled. A
task that has writes to make has its stock ahead of the cursor. -/
structure BatchSound (T : CharTables) (w : World) (b : Batch) : Prop where
  pending : Pending StockMaster.id StockMaster.isActive w.stocks b.origin (b.tasks.map Task.stock)
  origin : ∀ stock ∈ w.stocks, stock.isActive = true → stock.id ≤ b.origin → w.Handled T stock
  position : b.origin < w.nextId
  ahead : ∀ t ∈ b.tasks, t.Busy → w.cursor.lastProcessedId < t.stock.id
  stage : ∀ t ∈ b.tasks, StageSound T w t

structure Inv (T : CharTables) (w₀ w : World) : Prop where
  distinct : (w.stocks.map StockMaster.id).Nodup
  tickers : (w.stocks.map StockMaster.yfTicker).Nodup
  drawn : ∀ stock ∈ w.stocks, stock.id < w.nextId
  position : w.cursor.lastProcessedId < w.nextId
  grown : w₀.stocks ⊆ w.stocks
  safe : Safe T w₀ w
  status : ∀ b, w.process = some (.running b) → w.cursor.status ≠ .completed
  selecting : w.process = some .selecting → w.cursor.status ≠ .completed
  batch : ∀ b, w.process = some (.running b) → BatchSound T w b

theorem Beginning.inv (h : Beginning T w₀) : Inv T w₀ w₀ where
  distinct := h.distinct
  tickers := h.tickers
  drawn := h.drawn
  position := h.position
  grown := List.Subset.refl _
  safe := h.safe
  status := fun b hb => by simp [h.idle] at hb
  selecting := fun hs => by simp [h.idle] at hs
  batch := fun b hb => by simp [h.idle] at hb

theorem Inv.stop (h : Inv T w₀ w) : Inv T w₀ { w with process := none } where
  distinct := h.distinct
  tickers := h.tickers
  drawn := h.drawn
  position := h.position
  grown := h.grown
  safe := ⟨h.safe.passed, h.safe.completed⟩
  status := fun _ hb => nomatch hb
  selecting := fun hs => nomatch hs
  batch := fun _ hb => nomatch hb

theorem Inv.ticker_ne (h : Inv T w₀ w) {s : StockMaster} (hs : s ∈ w.stocks)
    (hStock : stock ∈ w.stocks) (hId : s.id ≠ stock.id) : s.yfTicker ≠ stock.yfTicker := by
  intro hTicker
  exact hId (congrArg StockMaster.id (List.inj_on_of_nodup_map h.tickers hs hStock hTicker))

theorem BatchSound.id_ne (h : BatchSound T w b) {i : Nat} {s : Task} (hk : b.tasks[k]? = some t)
    (hi : b.tasks[i]? = some s) (hik : i ≠ k) : s.stock.id ≠ t.stock.id := by
  have hNodup : (b.tasks.map fun t => t.stock.id).Nodup := by
    have hOrdered := List.pairwise_map.mp h.pending.ordered
    exact List.pairwise_map.mpr (hOrdered.imp fun hLt => Nat.ne_of_lt hLt)
  intro hSame
  refine hik ((List.getElem?_inj ?_ hNodup).mp ?_)
  · exact (by simpa using (List.getElem?_eq_some_iff.mp hi).1)
  · rw [List.getElem?_map, List.getElem?_map, hi, hk, Option.map_some, Option.map_some, hSame]

theorem BatchSound.mem (h : BatchSound T w b) (hk : b.tasks[k]? = some t) : t.stock ∈ w.stocks :=
  (h.pending.mem _ (List.mem_map_of_mem (List.mem_of_getElem? hk))).1

/-- A busy task writes for its own stock, and the cursor stays. -/
theorem Inv.moveTask (h : Inv T w₀ w) (hb : w.process = some (.running b))
    (hk : b.tasks[k]? = some t) (hBusy : t.Busy) {stage : Stage} {c : Batch}
    (hProcess : w'.process = (w.setStage c k t stage).process) (hTasks : c.tasks = b.tasks)
    (hOrigin : c.origin = b.origin) (hStocks : w'.stocks = w.stocks) (hNext : w'.nextId = w.nextId)
    (hCursor : w'.cursor = w.cursor)
    (hKeeps : ∀ s ∈ w.stocks, s.id ≠ t.stock.id → Keeps w w' s)
    (hStage : StageSound T w' { t with stage := stage }) : Inv T w₀ w' := by
  have hSound := h.batch b hb
  have hMem := hSound.mem hk
  have hAhead := hSound.ahead t (List.mem_of_getElem? hk) hBusy
  have hOriginLt : b.origin < t.stock.id :=
    hSound.pending.above _ (List.mem_map_of_mem (List.mem_of_getElem? hk))
  have hKept : ∀ s ∈ w.stocks, s.id < t.stock.id → w.Handled T s → w'.Handled T s :=
    fun s hs hLt hHandled => hHandled.keep (hKeeps s hs (Nat.ne_of_lt hLt))
  have hStockMap : (b.tasks.set k { t with stage := stage }).map Task.stock =
      b.tasks.map Task.stock := map_set_of_eq hk rfl
  refine ⟨?_, ?_, ?_, ?_, ?_, ⟨?_, ?_⟩, ?_, ?_, ?_⟩
  · rw [hStocks]
    exact h.distinct
  · rw [hStocks]
    exact h.tickers
  · rw [hStocks, hNext]
    exact h.drawn
  · rw [hCursor, hNext]
    exact h.position
  · rw [hStocks]
    exact h.grown
  · rw [hStocks, hCursor]
    intro s hs hActive hLe
    exact hKept s hs (by omega) (h.safe.passed s hs hActive hLe)
  · rw [hCursor]
    exact h.safe.completed
  · intro _ _
    rw [hCursor]
    exact h.status b hb
  · rw [hProcess]
    intro hSelecting
    cases hSelecting
  · intro b' hb'
    rw [hProcess, setStage, Option.some.injEq, Process.running.injEq, hTasks] at hb'
    subst hb'
    refine ⟨?_, ?_, ?_, ?_, ?_⟩
    · simp only [hStockMap, hStocks, hOrigin]
      exact hSound.pending
    · rw [hStocks, hOrigin]
      intro s hs hActive hLe
      exact hKept s hs (by omega) (hSound.origin s hs hActive hLe)
    · rw [hNext, hOrigin]
      exact hSound.position
    · rw [hCursor]
      exact forall_mem_set hSound.ahead fun _ => hAhead
    · intro s hs
      obtain ⟨i, hi⟩ := List.mem_iff_getElem?.mp hs
      rcases getElem?_set_cases hk hi with ⟨-, rfl⟩ | ⟨hik, hi'⟩
      · exact hStage
      · exact (hSound.stage s (List.mem_of_getElem? hi')).keep
          (hKeeps s.stock (hSound.mem hi') (hSound.id_ne hk hi' hik))

theorem Inv.setStage (h : Inv T w₀ w) (hb : w.process = some (.running b))
    (hk : b.tasks[k]? = some t) (hBusy : t.Busy) {stage : Stage} {c : Batch}
    (hTasks : c.tasks = b.tasks) (hOrigin : c.origin = b.origin)
    (hStage : StageSound T w { t with stage := stage }) : Inv T w₀ (w.setStage c k t stage) := by
  refine h.moveTask hb hk hBusy rfl hTasks hOrigin rfl rfl rfl
    (fun s _ _ => keeps_setStage w c k t stage s) ?_
  exact hStage.keep (keeps_setStage w c k t stage _)

/-! ## The writes of a task -/

theorem Inv.fetch (h : Inv T w₀ w) (hb : w.process = some (.running b))
    (hk : b.tasks[k]? = some t) (hStage : t.stage = .fetch) (a : Answers) :
    Inv T w₀ (w.fetch T b k t a) := by
  have hBusy : t.Busy := by simp [Task.Busy, Task.Settled, Task.over, hStage]
  unfold World.fetch
  split
  · rename_i attempt _
    refine h.moveTask hb hk hBusy rfl rfl rfl rfl rfl rfl ?_ ?_
    · exact fun s _ hId => ⟨if_neg hId, fun _ => id, List.Subset.refl _, rfl, id⟩
    · exact if_pos rfl
  · split
    · simp only
      split
      · exact h.setStage hb hk hBusy rfl rfl trivial
      · exact h.setStage hb hk hBusy rfl rfl trivial
    · exact h.setStage hb hk hBusy rfl rfl trivial

theorem Inv.writeInfo (h : Inv T w₀ w) (hb : w.process = some (.running b))
    (hk : b.tasks[k]? = some t) {attempt : Attempt} (hStage : t.stage = .writeInfo attempt)
    (a : Answers) : Inv T w₀ (w.writeInfo T b k t attempt a) := by
  have hBusy : t.Busy := by simp [Task.Busy, Task.Settled, Task.over, hStage]
  have hSound := (h.batch b hb).stage t (List.mem_of_getElem? hk)
  simp only [StageSound, hStage] at hSound
  have hMem := (h.batch b hb).mem hk
  refine h.moveTask hb hk hBusy rfl rfl rfl rfl rfl rfl ?_ ?_
  · intro s hs hId
    refine ⟨rfl, fun info hInfo => ?_, List.Subset.refl _, rfl, id⟩
    have hTicker := h.ticker_ne hs hMem hId
    -- rows of other tickers survive the delete
    have hKept : ⟨s.yfTicker, info⟩ ∈ (if a.infoDelete = .refused then w.companyInfo
        else w.companyInfo.filter fun r => r.ticker ≠ t.stock.yfTicker) := by
      split
      · exact hInfo
      · exact List.mem_filter.mpr ⟨hInfo, by simpa using hTicker⟩
    simp only [World.writeInfo]
    split
    · exact hKept
    · exact List.mem_append_left _ hKept
  · by_cases hAppend : a.infoAppend = .done
    · have hStored : ⟨t.stock.yfTicker, attempt.info⟩ ∈ (w.writeInfo T b k t attempt a).companyInfo := by
        simp only [World.writeInfo, hAppend]
        exact List.mem_append_right _ (List.mem_singleton_self _)
      by_cases hNone : attempt.dividends = []
      · simp only [StageSound, if_pos hAppend, if_pos hNone]
        exact ⟨hSound, hStored, by simp [hNone]⟩
      · simp only [StageSound, if_pos hAppend, if_neg hNone]
        exact ⟨hSound, hStored⟩
    · simp only [StageSound, if_neg hAppend]

theorem mem_dividends (w : World) (ticker : String) {days : List Nat} {day : Nat} (hDay : day ∈ days) :
    (ticker, day) ∈ w.dividends ++ w.newDividends ticker days := by
  rw [List.mem_append]
  by_cases hOld : (ticker, day) ∈ w.dividends
  · exact Or.inl hOld
  · exact Or.inr (List.mem_filter.mpr ⟨List.mem_map_of_mem hDay, by simpa using hOld⟩)

theorem Inv.writeDividends (h : Inv T w₀ w) (hb : w.process = some (.running b))
    (hk : b.tasks[k]? = some t) {attempt : Attempt} (hStage : t.stage = .writeDividends attempt)
    (a : Answers) : Inv T w₀ (w.writeDividends T b k t attempt a) := by
  have hBusy : t.Busy := by simp [Task.Busy, Task.Settled, Task.over, hStage]
  have hSound := (h.batch b hb).stage t (List.mem_of_getElem? hk)
  simp only [StageSound, hStage] at hSound
  have hGrow : ∀ {stage : Stage} (s : StockMaster), Keeps w { w.setStage b k t stage with
      dividends := w.dividends ++ w.newDividends t.stock.yfTicker attempt.dividends } s :=
    fun s => ⟨rfl, fun _ => id, List.subset_append_left _ _, rfl, id⟩
  unfold World.writeDividends
  simp only
  split
  · exact h.setStage hb hk hBusy rfl rfl trivial
  · split
    · rename_i hNone
      refine h.setStage hb hk hBusy rfl rfl ⟨hSound.1, hSound.2, fun day hDay => ?_⟩
      have hStored := w.mem_dividends t.stock.yfTicker hDay
      rw [hNone, List.append_nil] at hStored
      exact hStored
    · split
      · refine h.moveTask hb hk hBusy rfl rfl rfl rfl rfl rfl (fun s _ _ => hGrow s) ?_
        exact ⟨hSound.1, hSound.2, fun day hDay => w.mem_dividends _ hDay⟩
      · exact h.setStage hb hk hBusy rfl rfl trivial
      · exact h.moveTask hb hk hBusy rfl rfl rfl rfl rfl rfl (fun s _ _ => hGrow s) trivial

theorem Inv.updateMaster (h : Inv T w₀ w) (hb : w.process = some (.running b))
    (hk : b.tasks[k]? = some t) {attempt : Attempt} (hStage : t.stage = .updateMaster attempt)
    (a : Answers) : Inv T w₀ (w.updateMaster T b k t attempt a) := by
  have hBusy : t.Busy := by simp [Task.Busy, Task.Settled, Task.over, hStage]
  have hSound := (h.batch b hb).stage t (List.mem_of_getElem? hk)
  simp only [StageSound, hStage] at hSound
  unfold World.updateMaster
  split
  · exact h.setStage hb hk hBusy rfl rfl trivial
  · refine h.moveTask hb hk hBusy rfl rfl rfl rfl rfl rfl ?_ ?_
    · exact fun s _ hId => ⟨rfl, fun _ => id, List.Subset.refl _, if_neg hId, id⟩
    · refine Or.inl ⟨attempt, hSound.1, hSound.2.1, hSound.2.2, ?_⟩
      simp only [if_true, updated_idem]

theorem Inv.log (h : Inv T w₀ w) (hb : w.process = some (.running b))
    (hk : b.tasks[k]? = some t) {message category : String}
    (hStage : t.stage = .log message category) : Inv T w₀ (w.log b k t message category) := by
  have hBusy : t.Busy := by simp [Task.Busy, Task.Settled, Task.over, hStage]
  unfold World.log
  split
  · rename_i skipped hLogged
    refine h.moveTask hb hk hBusy rfl rfl rfl rfl rfl rfl ?_ ?_
    · exact fun s _ _ => ⟨rfl, fun _ => id, List.Subset.refl _, rfl, fun h => h.logSkipped hLogged⟩
    · exact Or.inr (recorded_logSkipped hLogged)
  · exact h.setStage hb hk hBusy rfl rfl trivial

/-- The cursor moves to the stock of a task, when the tasks of all stocks up to it are settled. -/
theorem Inv.advance (h : Inv T w₀ w) (hb : w.process = some (.running b))
    (hk : b.tasks[k]? = some t) {ok swallowed : Bool} (hStage : t.stage = .advance ok swallowed)
    (hCareful : ∀ other ∈ b.tasks, other.stock.id ≤ t.stock.id → other.Settled) :
    Inv T w₀ (w.advance b k t ok swallowed) := by
  have hSound := h.batch b hb
  have hTask := List.mem_of_getElem? hk
  have hMem := hSound.mem hk
  have hSwallowed : swallowed = false := by
    have hSettled := hCareful t hTask (Nat.le_refl _)
    simpa only [Task.Settled, hStage] using hSettled
  have hPassed : ∀ s ∈ w.stocks, s.isActive = true → s.id ≤ t.stock.id → w.Handled T s := by
    intro s hs hActive hLe
    by_cases hBefore : s.id ≤ b.origin
    · exact hSound.origin s hs hActive hBefore
    · -- behind the origin only the stocks of the batch come up to this one
      rcases hSound.pending.complete s hs hActive (Nat.lt_of_not_le hBefore) with hIn | hBehind
      · obtain ⟨other, hOther, rfl⟩ := List.mem_map.mp hIn
        exact (hSound.stage other hOther).handled (hCareful other hOther hLe)
      · exact absurd hLe (Nat.not_le_of_lt (hBehind _ (List.mem_map_of_mem hTask)))
  have hKeeps : ∀ s, Keeps w (w.advance b k t ok swallowed) s :=
    fun s => ⟨rfl, fun _ => id, List.Subset.refl _, rfl, id⟩
  refine ⟨h.distinct, h.tickers, h.drawn, h.drawn _ hMem, h.grown, ⟨?_, ?_⟩, ?_, ?_, ?_⟩
  · exact fun s hs hActive hLe => (hPassed s hs hActive hLe).keep (hKeeps s)
  · exact fun hStatus => absurd hStatus (h.status b hb)
  · exact fun _ _ => h.status b hb
  · exact fun hSelecting => nomatch hSelecting
  · intro c hc
    cases hc
    refine ⟨?_, ?_, hSound.position, ?_, ?_⟩
    · have hStockMap : (b.tasks.set k { t with stage := .ended swallowed }).map Task.stock =
          b.tasks.map Task.stock := map_set_of_eq hk rfl
      simp only [hStockMap]
      exact hSound.pending
    · exact fun s hs hActive hLe => (hSound.origin s hs hActive hLe).keep (hKeeps s)
    · refine forall_mem_set (fun other hOther hBusy => ?_) fun hBusy => nomatch hBusy.2
      exact Nat.lt_of_not_le fun hLe => hBusy.1 (hCareful other hOther hLe)
    · refine forall_mem_set (fun other hOther => (hSound.stage other hOther).keep (hKeeps _)) ?_
      subst hSwallowed
      exact (hPassed t.stock hMem (hSound.pending.mem _ (List.mem_map_of_mem hTask)).2
        (Nat.le_refl _)).keep (hKeeps _)

theorem Inv.taskStep (h : Inv T w₀ w) (hb : w.process = some (.running b))
    (hk : b.tasks[k]? = some t) {a : Answers} (hCareful : Careful w₀ w (.task k a)) :
    Inv T w₀ (w.taskStep T b k t a) := by
  simp only [Careful, hb] at hCareful
  have hHere := hCareful t hk
  unfold World.taskStep
  cases hStage : t.stage with
  | fetch => exact h.fetch hb hk hStage a
  | writeInfo attempt => exact h.writeInfo hb hk hStage a
  | writeDividends attempt => exact h.writeDividends hb hk hStage a
  | updateMaster attempt => exact h.updateMaster hb hk hStage a
  | log message category => exact h.log hb hk hStage
  | advance ok swallowed =>
      simp only [hStage] at hHere
      exact h.advance hb hk hStage hHere
  | ended swallowed => exact h
  | died => exact h

/-! ## The job and its environment -/

/-- The cursor gets another status or batch size, and no batch is at work afterwards. -/
theorem Inv.withCursor (h : Inv T w₀ w) {c : Cursor} {q : Option Process}
    (hLast : c.lastProcessedId = w.cursor.lastProcessedId) (hName : c.name = w.cursor.name)
    (hCompleted : c.status = .completed → ∀ stock ∈ w₀.stocks, stock.isActive = true →
      stock.id ≤ w.cursor.lastProcessedId) (hRunning : ∀ b, q ≠ some (.running b))
    (hSelecting : q = some .selecting → c.status ≠ .completed) :
    Inv T w₀ { w with cursor := c, process := q } where
  distinct := h.distinct
  tickers := h.tickers
  drawn := h.drawn
  position := by
    rw [hLast]
    exact h.position
  grown := h.grown
  safe := by
    refine ⟨?_, ?_⟩
    · rw [hLast]
      intro s hs hActive hLe
      refine (h.safe.passed s hs hActive hLe).keep ⟨rfl, fun _ => id, List.Subset.refl _, rfl, ?_⟩
      rw [hName]
      exact id
    · rw [hLast]
      exact hCompleted
  status := fun b hb => absurd hb (hRunning b)
  selecting := hSelecting
  batch := fun b hb => absurd hb (hRunning b)

theorem Inv.go (h : Inv T w₀ w) {p : Process} (hp : w.process = some p)
    (hCareful : Careful w₀ w .go) : Inv T w₀ (w.go p) := by
  cases p with
  | starting =>
      exact h.withCursor rfl rfl (fun hStatus => by cases hStatus) (fun _ hq => by cases hq)
        fun _ hStatus => by cases hStatus
  | selecting =>
      simp only [Careful, hp] at hCareful
      unfold World.go
      simp only
      split
      · rename_i hBatch
        refine h.withCursor rfl rfl (fun _ => ?_) (fun _ hq => by cases hq) fun hq => by cases hq
        rcases Nat.eq_zero_or_pos w.cursor.batchSize with hZero | hPos
        · exact hCareful hZero
        · exact fun stock hMem => (nextBatch_eq_nil_iff hPos).mp hBatch stock (h.grown hMem)
      · have hStocks : ∀ stocks : List StockMaster,
            (stocks.map fun stock => (⟨stock, .fetch⟩ : Task)).map Task.stock = stocks := by
          intro stocks
          rw [List.map_map]
          exact List.map_id stocks
        have hPending : Pending StockMaster.id StockMaster.isActive w.stocks
            w.cursor.lastProcessedId (getNextBatch w.cursor w.stocks) :=
          pending_nextBatch h.distinct
        refine ⟨h.distinct, h.tickers, h.drawn, h.position, h.grown,
          ⟨h.safe.passed, h.safe.completed⟩, ?_, (fun hq => by cases hq), ?_⟩
        · exact fun _ _ => h.selecting hp
        · intro b hb
          cases hb
          refine ⟨?_, h.safe.passed, h.position, ?_, ?_⟩
          · rw [hStocks]
            exact hPending
          · intro t ht _
            obtain ⟨stock, hStock, rfl⟩ := List.mem_map.mp ht
            exact hPending.above stock hStock
          · intro t ht
            obtain ⟨stock, -, rfl⟩ := List.mem_map.mp ht
            trivial
  | running b =>
      unfold World.go
      simp only
      split
      · split
        · exact h.withCursor rfl rfl (fun hStatus => by cases hStatus) (fun _ hq => by cases hq)
            fun hq => by cases hq
        · exact h.stop
      · exact h

theorem Inv.fail (h : Inv T w₀ w) (hb : w.process = some (.running b))
    (hk : b.tasks[k]? = some t) : Inv T w₀ (w.setStage b k t .died) := by
  have hSound := h.batch b hb
  refine ⟨h.distinct, h.tickers, h.drawn, h.position, h.grown,
    ⟨h.safe.passed, h.safe.completed⟩, fun _ _ => h.status b hb, (fun hq => nomatch hq), ?_⟩
  intro c hc
  cases hc
  have hStockMap : (b.tasks.set k { t with stage := .died }).map Task.stock =
      b.tasks.map Task.stock := map_set_of_eq hk rfl
  refine ⟨?_, hSound.origin, hSound.position, ?_, ?_⟩
  · simp only [hStockMap]
    exact hSound.pending
  · exact forall_mem_set hSound.ahead fun hBusy => nomatch hBusy.2
  · exact forall_mem_set hSound.stage trivial

theorem Inv.addStock (h : Inv T w₀ w) {gap : Nat} {new : StockMaster}
    (hNew : new.yfTicker ∉ w.stocks.map StockMaster.yfTicker) :
    Inv T w₀ { w with
      stocks := w.stocks ++ [{ new with id := w.nextId + gap }]
      nextId := w.nextId + gap + 1 } where
  distinct := by
    rw [List.map_append, List.nodup_append]
    refine ⟨h.distinct, List.nodup_singleton _, ?_⟩
    rintro _ hOld _ hLast rfl
    obtain ⟨s, hMem, hId⟩ := List.mem_map.mp hOld
    have hDrawn := h.drawn s hMem
    have hLast' := List.mem_singleton.mp hLast
    simp only at hLast'
    omega
  tickers := by
    rw [List.map_append, List.nodup_append]
    refine ⟨h.tickers, List.nodup_singleton _, ?_⟩
    rintro _ hOld _ hLast rfl
    rw [List.mem_singleton.mp hLast] at hOld
    exact hNew hOld
  drawn := by
    intro s hMem
    rcases List.mem_append.mp hMem with hMem | hMem
    · have hDrawn := h.drawn s hMem
      show s.id < w.nextId + gap + 1
      omega
    · rw [List.mem_singleton.mp hMem]
      exact Nat.lt_succ_self _
  position := by
    have hPosition := h.position
    show w.cursor.lastProcessedId < w.nextId + gap + 1
    omega
  grown := fun _ hMem => List.mem_append_left _ (h.grown hMem)
  safe := by
    refine ⟨?_, h.safe.completed⟩
    intro s hMem hActive hLe
    rcases List.mem_append.mp hMem with hMem | hMem
    · exact h.safe.passed s hMem hActive hLe
    · rw [List.mem_singleton.mp hMem] at hLe
      have hPosition := h.position
      have hLe' : w.nextId + gap ≤ w.cursor.lastProcessedId := hLe
      omega
  status := h.status
  selecting := h.selecting
  batch := by
    intro b hb
    have hSound := h.batch b hb
    refine ⟨?_, ?_, Nat.lt_of_lt_of_le hSound.position (Nat.le_succ_of_le (Nat.le_add_right _ _)),
      hSound.ahead, hSound.stage⟩
    · exact hSound.pending.concat fun s hMem => Nat.lt_of_lt_of_le (h.drawn s hMem)
        (Nat.le_add_right _ _)
    · intro s hMem hActive hLe
      rcases List.mem_append.mp hMem with hMem | hMem
      · exact hSound.origin s hMem hActive hLe
      · rw [List.mem_singleton.mp hMem] at hLe
        have hPosition := hSound.position
        have hLe' : w.nextId + gap ≤ b.origin := hLe
        omega

/-! ## Runs with crashes -/

theorem Inv.step (h : Inv T w₀ w) {e : Event} (hCareful : Careful w₀ w e) :
    Inv T w₀ (w.step T e) := by
  unfold World.step
  split
  · -- a new job replaces the batch size at most
    rename_i batchSize hIdle
    refine h.withCursor ?_ ?_ ?_ (fun _ hq => nomatch hq) fun hq => nomatch hq
    · unfold resize
      split <;> rfl
    · unfold resize
      split <;> rfl
    · have hStatus : (resize w.cursor batchSize).status = w.cursor.status := by
        unfold resize
        split <;> rfl
      rw [hStatus]
      exact h.safe.completed
  · exact h
  · rename_i p hp
    exact h.go hp hCareful
  · rename_i k a b hb
    split
    · rename_i t hk
      exact h.taskStep hb hk hCareful
    · exact h
  · rename_i k b hb
    split
    · rename_i t hk
      split
      · exact h
      · exact h.fail hb hk
    · exact h
  · exact h.stop
  · split
    · exact h
    · rename_i hNew
      exact h.addStock hNew
  · exact h

/-- Whatever fails and wherever the job ends, the cursor passes only stocks that are fully ingested or
recorded as skipped, and is completed after the last one, when its moves are careful. -/
theorem crash_safe (hBeginning : Beginning T w₀) {events : List Event}
    (hCareful : EveryStep (step T) (Careful w₀) w₀ events) :
    EveryState (step T) (Safe T w₀) w₀ events := by
  have hStep : ∀ (w : World) (e : Event), Inv T w₀ w → Careful w₀ w e → Inv T w₀ (w.step T e) :=
    fun _ _ h => h.step
  exact (everyState_of_invariant hStep hBeginning.inv hCareful).imp fun _ h => h.safe

/-- Two stocks, of which nothing is stored. -/
def twoStocks : World where
  stocks := [⟨1, "TCS", "TCS.NS", "INR", true⟩, ⟨2, "INFY", "INFY.NS", "INR", true⟩]
  nextId := 3
  cursor := createCursor "nifty500_fundamentals" 2 50
  skipped := []
  profiles := fun _ => ⟨none, none, none⟩
  companyInfo := []
  dividends := []
  answers := fun _ => none
  process := none

theorem beginning_twoStocks : Beginning .ascii twoStocks where
  idle := rfl
  distinct := by decide
  tickers := by decide
  drawn := by decide
  position := by decide
  safe := by
    refine ⟨fun stock hMem _ hLe => ?_, fun hStatus => nomatch hStatus⟩
    have hPositive : ∀ stock ∈ twoStocks.stocks, 0 < stock.id := by decide
    exact absurd hLe (Nat.not_le_of_lt (hPositive stock hMem))

/-- Yahoo knows the sector, and one dividend. -/
def known : Answers :=
  { replies := fun _ => ⟨.ok ⟨some "Technology", none, some 5, none⟩, .ok [4000]⟩ }

/-- Yahoo knows nothing. -/
def unknown : Answers := { replies := fun _ => ⟨.error "no data", .error "no data"⟩ }

/-- The first stock is ingested, the job ends, and the second one is skipped in the next job. -/
def inOrder : List Event :=
  [.start none, .go, .go, .task 0 known, .task 1 known, .task 0 known, .task 0 known,
    .task 0 known, .task 0 known, .crash, .start (some 1), .go, .go, .task 0 unknown,
    .task 0 unknown, .task 0 unknown, .go, .start none, .go, .go]

theorem crash_safe_inOrder :
    EveryStep (step .ascii) (Careful twoStocks) twoStocks inOrder ∧
      EveryState (step .ascii) (Safe .ascii twoStocks) twoStocks inOrder := by
  have hCareful : EveryStep (step .ascii) (Careful twoStocks) twoStocks inOrder := by decide +kernel
  exact ⟨hCareful, crash_safe beginning_twoStocks hCareful⟩

/-- The second stock is skipped while the first one is written, and the job ends. -/
def outOfOrder : List Event :=
  [.start none, .go, .go, .task 0 known, .task 1 unknown, .task 1 unknown, .task 1 unknown, .crash]

/-- The update of `stock_master` fails. -/
def forgotten : List Event :=
  [.start none, .go, .go, .task 0 known, .task 0 known, .task 0 known,
    .task 0 { known with master := .refused }, .task 0 known]

/-- In both cases the cursor has passed the first stock. -/
theorem passes_unhandled :
    ¬ EveryState (step .ascii) (Safe .ascii twoStocks) twoStocks outOfOrder ∧
      ¬ EveryState (step .ascii) (Safe .ascii twoStocks) twoStocks forgotten := by
  have hFirst : ∀ events, EveryState (step .ascii) (Safe .ascii twoStocks) twoStocks events →
      ∀ stock ∈ (runFrom (step .ascii) twoStocks events).stocks, stock.isActive = true →
        stock.id ≤ (runFrom (step .ascii) twoStocks events).cursor.lastProcessedId →
          (runFrom (step .ascii) twoStocks events).Handled .ascii stock := fun _ h => h.last.passed
  constructor
  · intro h
    have hPassed := hFirst _ h
    revert hPassed
    decide +kernel
  · intro h
    have hPassed := hFirst _ h
    revert hPassed
    decide +kernel

end World

end AsetPlatform.Ingestion.Fundamentals
