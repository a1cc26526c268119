import AsetPlatform.Forecast.Tier1Features

/-!
# Tier-1 features and the stored values

The features look for columns that the writes do not name (`f_score`, `total_revenue`, `diluted_eps`),
and read the level texts, which are texts of lists, as floats. So four features are 0 after any writes
(`quiet_forecastTier1`), and `usesStored_iff` says for which stored values that is what they should be.
-/

set_option autoImplicit false

namespace AsetPlatform.Forecast.Tier1

open AsetPlatform.Library StockData.Quarterly Reports

/-! ## Four features -/

/-- The growths, the score and the position are 0. -/
structure Quiet (f : Features) : Prop where
  position : f.srPosition = .number 0
  piotroski : f.piotroski = .number 0
  revenue : f.revenueGrowth = .number 0
  eps : f.epsGrowth = .number 0

theorem quiet_neutral : Quiet neutral := ⟨rfl, rfl, rfl, rfl⟩

section Quiet

variable {fmt : Formats} {price : PyFloat} {out : Features}

/-- The levels of a row are texts of lists. -/
def AnalysisRow.Listed (fmt : Formats) (r : AnalysisRow) : Prop :=
  ∃ sup res, r.supportLevels = some (listText fmt sup) ∧ r.resistanceLevels = some (listText fmt res)

theorem toFloat_listText (xs : List PyFloat) : toFloat (.text (listText fmt xs)) = none :=
  readFloat_bracket _

theorem present_listText (xs : List PyFloat) : present (.text (listText fmt xs)) = .error () := by
  rw [present, toFloat_listText]
  intro h
  cases h

theorem bothPresent_listText (xs ys : List PyFloat) :
    bothPresent (.text (listText fmt xs)) (.text (listText fmt ys)) = .error () := by
  rw [bothPresent, present_listText]
  · rfl
  · intro h
    cases h
  · intro h
    cases h

theorem quiet_analysisFeatures {r : AnalysisRow} (hListed : r.Listed fmt) (h : Quiet out) :
    Quiet (analysisFeatures price r.record out) := by
  obtain ⟨sup, res, hSup, hRes⟩ := hListed
  have hLevels : bothPresent (r.record.get "support_levels") (r.record.get "resistance_levels") =
      .error () := by
    have hGetSup : r.record.get "support_levels" = .text (listText fmt sup) := by
      change textCell r.supportLevels = _
      rw [hSup]
      rfl
    have hGetRes : r.record.get "resistance_levels" = .text (listText fmt res) := by
      change textCell r.resistanceLevels = _
      rw [hRes]
      rfl
    rw [hGetSup, hGetRes, bothPresent_listText]
  rw [analysisFeatures, hLevels]
  cases present (r.record.get "annualized_volatility_pct") with
  | error _ => exact h
  | ok vol =>
      have hVol : Quiet (vol.elim out fun x => { out with volatilityRegime := x.div (.number 100) }) := by
        cases vol with
        | none => exact h
        | some x => exact ⟨h.position, h.piotroski, h.revenue, h.eps⟩
      cases bothPresent (r.record.get "bull_phase_pct") (r.record.get "bear_phase_pct") with
      | error _ => exact hVol
      | ok phases =>
          cases phases with
          | none => exact hVol
          | some p => exact ⟨hVol.position, hVol.piotroski, hVol.revenue, hVol.eps⟩

theorem piotroskiFeature_record (r : PiotroskiRow) : piotroskiFeature r.record out = out := rfl

theorem get_quarterRecord_of_notMem {key : String} (r : QuarterRow)
    (hKey : key ∉ ["ticker", "quarter_end", "fiscal_year", "fiscal_quarter", "statement_type"] ++
      metricColumns ++ ["updated_at"]) : (quarterRecord r).get key = .none := by
  have hNone : (quarterRecord r).lookup key = none := by
    rw [List.lookup_eq_none_iff]
    intro p hp
    have hName : p.1 ∈ ["ticker", "quarter_end", "fiscal_year", "fiscal_quarter",
        "statement_type"] ++ metricColumns ++ ["updated_at"] := by
      rw [List.append_assoc]
      rcases List.mem_append.mp hp with hHead | hTail
      · exact List.mem_append_left _ (List.mem_map_of_mem hHead)
      · refine List.mem_append_right _ ?_
        rcases List.mem_append.mp hTail with hMetric | hLast
        · exact List.mem_append_left _ (List.of_mem_zip hMetric).1
        · exact List.mem_append_right _ (List.mem_map_of_mem hLast)
    rw [bne_iff_ne]
    rintro rfl
    exact hKey hName
  rw [Record.get, hNone]
  rfl

theorem safeGrowth_none (v : Value) : safeGrowth .none v = .number 0 := rfl

theorem quiet_quarterlyFeatures (rows : List QuarterRow) (h : Quiet out) :
    Quiet (quarterlyFeatures (rows.map quarterRecord) out) := by
  match rows with
  | [] => exact h
  | [_] => exact h
  | curr :: prev :: _ =>
      have hRevenue : (quarterRecord curr).get "total_revenue" = .none :=
        get_quarterRecord_of_notMem curr (by decide)
      have hEps : (quarterRecord curr).get "diluted_eps" = .none :=
        get_quarterRecord_of_notMem curr (by decide)
      refine ⟨h.position, h.piotroski, ?_, ?_⟩
      · change safeGrowth ((quarterRecord curr).get "total_revenue") _ = _
        rw [hRevenue, safeGrowth_none]
      · change safeGrowth ((quarterRecord curr).get "diluted_eps") _ = _
        rw [hEps, safeGrowth_none]

theorem quiet_computeTier1Features {analysisRow : Option AnalysisRow}
    (hListed : ∀ r, analysisRow = some r → r.Listed fmt) (piotroskiRow : Option PiotroskiRow)
    (quarterlyRows : Option (List QuarterRow)) :
    Quiet (computeTier1Features (analysisRow.map AnalysisRow.record)
      (piotroskiRow.map PiotroskiRow.record)
      (quarterlyRows.map fun rows => rows.map quarterRecord) price) := by
  have hAnalysis : Quiet ((analysisRow.map AnalysisRow.record).elim neutral fun row =>
      analysisFeatures price row neutral) := by
    cases analysisRow with
    | none => exact quiet_neutral
    | some r => exact quiet_analysisFeatures (hListed r rfl) quiet_neutral
  have hRows : (quarterlyRows.map fun rows => rows.map quarterRecord).getD [] =
      (quarterlyRows.getD []).map quarterRecord := by
    cases quarterlyRows <;> rfl
  rw [computeTier1Features, hRows]
  refine quiet_quarterlyFeatures _ ?_
  cases piotroskiRow with
  | none => exact hAnalysis
  | some r =>
      rw [Option.map_some, Option.elim_some, piotroskiFeature_record]
      exact hAnalysis

end Quiet

/-! ## Any writes -/

section Writes

variable {fmt : Formats}

/-- All summaries have listed levels. -/
def Listed (fmt : Formats) (s : Store) : Prop := ∀ r ∈ s.analysis, r.Listed fmt

theorem Listed.apply {s : Store} (h : Listed fmt s) (w : Write) : Listed fmt (s.apply fmt w) := by
  cases w with
  | analysis ticker movement now deleteFails =>
      intro r hr
      rcases List.mem_append.mp hr with hOld | hNew
      · refine h r ?_
        cases deleteFails with
        | true => exact hOld
        | false => exact List.mem_of_mem_filter hOld
      · rw [List.mem_singleton.mp hNew]
        exact ⟨movement.supportLevels, movement.resistanceLevels, rfl, rfl⟩
  | piotroski => exact h
  | quarterly => exact h
  | batchQuarterly => exact h

theorem listed_stored (writes : List Write) : Listed fmt (stored fmt writes) := by
  have hAll : ∀ s, Listed fmt s → Listed fmt (writes.foldl (Store.apply fmt) s) := by
    induction writes with
    | nil => exact fun s h => h
    | cons w ws ih => exact fun s h => ih _ (h.apply w)
  exact hAll _ fun r hr => by cases hr

theorem mem_of_analysisCache {S : Sorts} {store : Store} {tickers : List String} {ticker : String}
    {r : AnalysisRow} (h : analysisCache S store tickers ticker = some r) : r ∈ store.analysis := by
  rw [analysisCache, getAnalysisSummaryBatch, find?_lastPerKey] at h
  have hSorted := List.mem_reverse.mp (List.mem_of_find?_eq_some h)
  exact List.mem_of_mem_filter ((S.computedAt.perm _).subset hSorted)

theorem quiet_forecastTier1 {store : Store} (h : Listed fmt store) (S : Sorts) (tickers : List String)
    (registry : Jobs.Registry) (ticker : String) (price : ℚ) :
    Quiet (forecastTier1 S store tickers registry ticker price) :=
  quiet_computeTier1Features (fun r hr => h r (mem_of_analysisCache hr)) _ _

end Writes

/-! ## What the features should be -/

section Stored

variable (store : Store) (ticker : String)

/-- The stored income rows of a ticker, the latest quarter first. -/
def latestIncome : List QuarterRow :=
  (store.quarterly.filter fun r => r.ticker = ticker ∧ r.statementType = "income").insertionSort
    fun r r' => r'.quarterEnd ≤ r.quarterEnd

/-- The latest stored score of a ticker. -/
def latestScore : Option PiotroskiRow :=
  ((store.piotroski.filter (·.ticker = ticker)).insertionSort
    fun r r' => r'.scoreDate ≤ r.scoreDate).head?

/-- The latest stored summary of a ticker. -/
def latestSummary : Option AnalysisRow :=
  ((store.analysis.filter (·.ticker = ticker)).insertionSort
    fun r r' => r'.computedAt ≤ r.computedAt).head?

/-- The growth of a stored column over the last two income quarters. -/
def storedGrowth (column : String) : PyFloat :=
  match latestIncome store ticker with
  | curr :: prev :: _ => safeGrowth ((quarterRecord curr).get column) ((quarterRecord prev).get column)
  | _ => .number 0

/-- The stored score out of nine. -/
def storedScore : PyFloat :=
  (latestScore store ticker).elim (.number 0) fun r => (PyFloat.number r.totalScore).div (.number 9)

end Stored

/-- The price between a support and a resistance, when there are both. -/
def storedPosition (price : ℚ) : Option ℚ → Option ℚ → PyFloat
  | some sup, some res => levelPosition (.number price) (.number sup) (.number res)
  | _, _ => .number 0

/-- The four features are those of the stored values of a ticker, where `support` and `resistance` take
a level from a list; rows of other statement types do not matter. -/
structure UsesStored (fmt : Formats) (support resistance : List PyFloat → Option ℚ) (store : Store)
    (ticker : String) (price : ℚ) (run : Store → Features) : Prop where
  revenue : (run store).revenueGrowth = storedGrowth store ticker "revenue"
  eps : (run store).epsGrowth = storedGrowth store ticker "eps_diluted"
  score : (run store).piotroski = storedScore store ticker
  position : ∀ r sup res, latestSummary store ticker = some r →
    r.supportLevels = some (listText fmt sup) → r.resistanceLevels = some (listText fmt res) →
      (run store).srPosition = storedPosition price (support sup) (resistance res)
  noSummary : latestSummary store ticker = none → (run store).srPosition = .number 0
  incomeOnly : ∀ store', store'.analysis = store.analysis → store'.piotroski = store.piotroski →
    store'.quarterly.filter (·.statementType = "income") =
      store.quarterly.filter (·.statementType = "income") →
        (run store').revenueGrowth = (run store).revenueGrowth ∧
          (run store').epsGrowth = (run store).epsGrowth

/-- A value that does not grow: one of the two is missing, the earlier is 0, or they are equal. -/
def Level (curr prev : Value) : Prop :=
  ∀ c p, toFloat curr = some c → toFloat prev = some p →
    c = .nan ∨ p = .nan ∨ p = .number 0 ∨ ∃ x, c = .number x ∧ p = .number x

/-- The stored values have neutral features. -/
structure NeutralStored (fmt : Formats) (support resistance : List PyFloat → Option ℚ) (store : Store)
    (ticker : String) (price : ℚ) : Prop where
  revenue : ∀ curr prev rest, latestIncome store ticker = curr :: prev :: rest →
    Level ((quarterRecord curr).get "revenue") ((quarterRecord prev).get "revenue")
  eps : ∀ curr prev rest, latestIncome store ticker = curr :: prev :: rest →
    Level ((quarterRecord curr).get "eps_diluted") ((quarterRecord prev).get "eps_diluted")
  score : ∀ r, latestScore store ticker = some r → r.totalScore = 0
  position : ∀ r sup res s s', latestSummary store ticker = some r →
    r.supportLevels = some (listText fmt sup) → r.resistanceLevels = some (listText fmt res) →
      support sup = some s → resistance res = some s' → s' ≤ s ∨ price ≤ s

section Definitions

theorem clip_eq_zero_iff {x : PyFloat} :
    clip (.number (-1)) (.number 1) x = .number 0 ↔ x = .number 0 := by
  cases x with
  | nan => decide +kernel
  | inf negative => cases negative <;> decide +kernel
  | number x =>
      by_cases hHigh : x < 1
      · by_cases hLow : -1 < x
        · simp [clip, PyFloat.lt, hHigh, hLow]
        · have hZero : x ≠ 0 := by
            rintro rfl
            norm_num at hLow
          simp [clip, PyFloat.lt, hHigh, hLow, hZero]
      · have hZero : x ≠ 0 := by
          rintro rfl
          norm_num at hHigh
        simp only [clip, PyFloat.lt, hHigh, decide_false, Bool.false_eq_true, if_false]
        norm_num
        exact hZero

theorem ratio_eq_zero_iff {c p : PyFloat} (hc : c ≠ .nan) (hp : p ≠ .nan) (hZero : p ≠ .number 0) :
    (c.sub p).div (if p.negative then p.neg else p) = .number 0 ↔
      ∃ x, c = .number x ∧ p = .number x := by
  cases c with
  | nan => exact absurd rfl hc
  | inf s =>
      cases p with
      | nan => exact absurd rfl hp
      | inf t => cases s <;> cases t <;> simp [PyFloat.sub, PyFloat.neg, PyFloat.add, PyFloat.div,
          PyFloat.negative]
      | number p =>
          by_cases hSign : p < 0 <;>
            simp [PyFloat.sub, PyFloat.neg, PyFloat.add, PyFloat.div, PyFloat.negative, hSign]
  | number c =>
      cases p with
      | nan => exact absurd rfl hp
      | inf t => cases t <;> simp [PyFloat.sub, PyFloat.neg, PyFloat.add, PyFloat.div,
          PyFloat.negative]
      | number p =>
          have hp' : p ≠ 0 := fun h => hZero (congrArg _ h)
          have hEqual : (∃ x, PyFloat.number c = .number x ∧ PyFloat.number p = .number x) ↔ c = p := by
            simp [eq_comm]
          rw [hEqual]
          by_cases hSign : p < 0
          · simp [PyFloat.sub, PyFloat.neg, PyFloat.add, PyFloat.div, PyFloat.negative, hSign, hp',
              ← sub_eq_add_neg, sub_eq_zero]
          · simp [PyFloat.sub, PyFloat.neg, PyFloat.add, PyFloat.div, PyFloat.negative, hSign, hp',
              ← sub_eq_add_neg, sub_eq_zero]

theorem growth_eq_zero_iff (c p : PyFloat) :
    (if c.isNaN || p.isNaN then PyFloat.number 0
      else if p.isZero then .number 0
      else clip (.number (-1)) (.number 1) ((c.sub p).div (if p.negative then p.neg else p))) =
        .number 0 ↔
      c = .nan ∨ p = .nan ∨ p = .number 0 ∨ ∃ x, c = .number x ∧ p = .number x := by
  by_cases hc : c = .nan
  · simp [hc, PyFloat.isNaN]
  by_cases hp : p = .nan
  · simp [hp, PyFloat.isNaN]
  have hNumbers : (c.isNaN || p.isNaN) = false := by
    cases c <;> cases p <;> simp_all [PyFloat.isNaN]
  rw [hNumbers, if_neg Bool.false_ne_true]
  by_cases hZero : p = .number 0
  · simp [hZero, PyFloat.isZero]
  have hNonzero : p.isZero = false := by
    cases p <;> simp_all [PyFloat.isZero]
  rw [hNonzero, if_neg Bool.false_ne_true, clip_eq_zero_iff, ratio_eq_zero_iff hc hp hZero]
  simp [hc, hp, hZero]

theorem safeGrowth_eq_zero_iff (curr prev : Value) :
    safeGrowth curr prev = .number 0 ↔ Level curr prev := by
  rw [safeGrowth, Level]
  cases hCurr : toFloat curr with
  | none => simp
  | some c =>
      cases hPrev : toFloat prev with
      | none => simp
      | some p =>
          have hLevel : (∀ c' p', some c = some c' → some p = some p' →
              c' = .nan ∨ p' = .nan ∨ p' = .number 0 ∨ ∃ x, c' = .number x ∧ p' = .number x) ↔
              (c = .nan ∨ p = .nan ∨ p = .number 0 ∨ ∃ x, c = .number x ∧ p = .number x) := by
            simp
          rw [hLevel]
          exact growth_eq_zero_iff c p

theorem storedGrowth_eq_zero_iff (store : Store) (ticker column : String) :
    storedGrowth store ticker column = .number 0 ↔
      ∀ curr prev rest, latestIncome store ticker = curr :: prev :: rest →
        Level ((quarterRecord curr).get column) ((quarterRecord prev).get column) := by
  rw [storedGrowth]
  split
  · rename_i curr prev rest hRows
    rw [safeGrowth_eq_zero_iff]
    constructor
    · intro h curr' prev' rest' hRows'
      obtain ⟨rfl, hTail⟩ := List.cons.inj (hRows.symm.trans hRows')
      obtain ⟨rfl, -⟩ := List.cons.inj hTail
      exact h
    · exact fun h => h curr prev rest hRows
  · rename_i hFew
    exact iff_of_true rfl fun curr prev rest hRows => absurd hRows (hFew curr prev rest)

theorem storedScore_eq_zero_iff (store : Store) (ticker : String) :
    storedScore store ticker = .number 0 ↔
      ∀ r, latestScore store ticker = some r → r.totalScore = 0 := by
  rw [storedScore]
  cases latestScore store ticker with
  | none => exact iff_of_true rfl fun r hr => by cases hr
  | some r =>
      simp [PyFloat.div]

theorem clip_zero_iff (x : ℚ) :
    clip (.number 0) (.number 1) (.number x) = .number 0 ↔ ¬0 < x := by
  by_cases hHigh : x < 1
  · by_cases hLow : 0 < x
    · simp [clip, PyFloat.lt, hHigh, hLow, hLow.ne']
    · simp [clip, PyFloat.lt, hHigh, hLow]
  · have hLow : 0 < x := lt_of_lt_of_le one_pos (not_lt.mp hHigh)
    simp [clip, PyFloat.lt, hHigh, hLow]

theorem levelPosition_eq_zero_iff (price sup res : ℚ) :
    levelPosition (.number price) (.number sup) (.number res) = .number 0 ↔ res ≤ sup ∨ price ≤ sup := by
  by_cases hSpan : sup < res
  · have hPositive : 0 < res - sup := sub_pos.mpr hSpan
    have hRatio : 0 < (price - sup) / (res - sup) ↔ sup < price := by
      rw [div_pos_iff_of_pos_right hPositive, sub_pos]
    have hPlace : levelPosition (.number price) (.number sup) (.number res) =
        clip (.number 0) (.number 1) (.number ((price - sup) / (res - sup))) := by
      simp [levelPosition, PyFloat.sub, PyFloat.neg, PyFloat.add, PyFloat.lt, PyFloat.div,
        ← sub_eq_add_neg, hSpan, hPositive.ne']
    rw [hPlace, clip_zero_iff, hRatio, not_lt]
    exact ⟨Or.inr, fun h => h.resolve_left (not_le_of_gt hSpan)⟩
  · have hPlace : levelPosition (.number price) (.number sup) (.number res) = .number 0 := by
      simp [levelPosition, PyFloat.sub, PyFloat.neg, PyFloat.add, PyFloat.lt, ← sub_eq_add_neg, hSpan]
    exact iff_of_true hPlace (Or.inl (not_lt.mp hSpan))

end Definitions

/-- The features of a ticker use what is stored of it exactly when the stored values have neutral
features. -/
theorem usesStored_iff (fmt : Formats) (support resistance : List PyFloat → Option ℚ) (S : Sorts)
    (registry : Jobs.Registry) (tickers : List String) (writes : List Write) (ticker : String)
    (price : ℚ) :
    UsesStored fmt support resistance (stored fmt writes) (Jobs.yfTicker registry ticker) price
        (fun store => forecastTier1 S store tickers registry ticker price) ↔
      NeutralStored fmt support resistance (stored fmt writes) (Jobs.yfTicker registry ticker)
        price := by
  have hListed : Listed fmt (stored fmt writes) := listed_stored writes
  have hQuiet : ∀ store, Listed fmt store →
      Quiet (forecastTier1 S store tickers registry ticker price) :=
    fun store h => quiet_forecastTier1 h S tickers registry ticker price
  obtain ⟨hPosition, hPiotroski, hRevenue, hEps⟩ := hQuiet _ hListed
  constructor
  · intro h
    refine ⟨?_, ?_, ?_, ?_⟩
    · exact (storedGrowth_eq_zero_iff _ _ _).mp (h.revenue.symm.trans hRevenue)
    · exact (storedGrowth_eq_zero_iff _ _ _).mp (h.eps.symm.trans hEps)
    · exact (storedScore_eq_zero_iff _ _).mp (h.score.symm.trans hPiotroski)
    · intro r sup res s s' hr hSup hRes hs hs'
      have hDefined := (h.position r sup res hr hSup hRes).symm.trans hPosition
      rw [hs, hs'] at hDefined
      exact (levelPosition_eq_zero_iff price s s').mp hDefined
  · intro h
    refine ⟨?_, ?_, ?_, ?_, fun _ => hPosition, ?_⟩
    · exact hRevenue.trans ((storedGrowth_eq_zero_iff _ _ _).mpr h.revenue).symm
    · exact hEps.trans ((storedGrowth_eq_zero_iff _ _ _).mpr h.eps).symm
    · exact hPiotroski.trans ((storedScore_eq_zero_iff _ _).mpr h.score).symm
    · intro r sup res hr hSup hRes
      refine hPosition.trans ?_
      cases hs : support sup with
      | none => rfl
      | some s =>
          cases hs' : resistance res with
          | none => rfl
          | some s' =>
              exact ((levelPosition_eq_zero_iff price s s').mpr
                (h.position r sup res s s' hr hSup hRes hs hs')).symm
    · intro store' hAnalysis _ _
      have hListed' : Listed fmt store' := fun r hr => hListed r (hAnalysis ▸ hr)
      obtain ⟨-, -, hRevenue', hEps'⟩ := hQuiet store' hListed'
      exact ⟨hRevenue'.trans hRevenue.symm, hEps'.trans hEps.symm⟩

/-- Stable sorts. -/
def Sorts.insertion : Sorts where
  byComputedAt := List.insertionSort fun a b => a.computedAt ≤ b.computedAt
  byScoreDate := List.insertionSort fun a b => b.scoreDate ≤ a.scoreDate
  byQuarterEnd := List.insertionSort fun a b => b.quarterEnd ≤ a.quarterEnd
  computedAt := sortsUp_insertionSort _
  scoreDate := sortsDown_insertionSort _
  quarterEnd := sortsDown_insertionSort _

/-- The income of a quarter, of which only the revenue is known. -/
def revenueRow (quarterEnd : Nat) (revenue : ℚ) : QuarterRow where
  ticker := "AAPL"
  quarterEnd := quarterEnd
  fiscalYear := some 2024
  fiscalQuarter := "Q"
  statementType := "income"
  metrics := .finite revenue :: List.replicate 17 .null
  updatedAt := 0

def firstLevel (levels : List PyFloat) : Option ℚ := levels.head?.bind safeFloat

/-- The revenue doubles, and its growth stays 0. -/
theorem doubled_revenue_unused :
    ¬UsesStored .decimal firstLevel firstLevel
      (stored .decimal [.quarterly "AAPL" [revenueRow 90 100, revenueRow 181 200] 1])
      (Jobs.yfTicker .empty "AAPL") 100
      (fun store => forecastTier1 .insertion store ["AAPL"] .empty "AAPL" 100) := by
  intro h
  have hListed : Listed .decimal
      (stored .decimal [.quarterly "AAPL" [revenueRow 90 100, revenueRow 181 200] 1]) :=
    listed_stored _
  have hQuiet := quiet_forecastTier1 hListed .insertion ["AAPL"] .empty "AAPL" 100
  have hTicker : Jobs.yfTicker .empty "AAPL" = "AAPL" := by decide +kernel
  have hDoubled : storedGrowth
      (stored .decimal [.quarterly "AAPL" [revenueRow 90 100, revenueRow 181 200] 1]) "AAPL"
      "revenue" = .number 1 := by decide +kernel
  have hGrowth := h.revenue.symm.trans hQuiet.revenue
  rw [hTicker, hDoubled] at hGrowth
  exact absurd hGrowth (by decide)

end AsetPlatform.Forecast.Tier1
