import AsetPlatform.Reports.RoundTrip

/-!
# Cached and fresh forecast reports

`insert_forecast_run` stores a run with `_safe_float` on every number, and `get_latest_forecast_run`
reads a missing number back as NaN. `agrees_iff`: the report rebuilt from the stored run shows what
the fresh one showed exactly when the run has all three targets and its accuracy, none of its numbers
is infinite, and no bound is zero.
-/

set_option autoImplicit false

namespace AsetPlatform.Reports

open Library

/-! ## Storage -/

/-- `_safe_float`. -/
def safeFloat : PyFloat → Option ℚ
  | .number x => some x
  | _ => none

/-- A number of a row, read back. -/
def readBack : Option ℚ → PyFloat
  | some x => .number x
  | none => .nan

def throughTable (x : PyFloat) : PyFloat := readBack (safeFloat x)

/-- The run as it is read back, after `forecast_stock` has inserted it. -/
def storedRun (today : Nat) (run : ForecastRun) : StoredRun where
  runDate := today
  sentiment := some run.summary.sentiment
  currentPriceAtRun := some (throughTable run.currentPrice)
  target := fun m =>
    match run.summary.targets m with
    | none => ⟨some .nan, some .nan, some .nan, some .nan⟩
    | some t => ⟨some (throughTable t.price), some (throughTable t.pctChange),
        some (throughTable t.lower), some (throughTable t.upper)⟩
  mae := some (readBack (run.accuracy.map Accuracy.mae))
  rmse := some (readBack (run.accuracy.map Accuracy.rmse))
  mape := some (readBack (run.accuracy.map Accuracy.mapePct))

/-- The same price, sentiment, targets and accuracy. -/
def SameShown (a b : ForecastFields) : Prop :=
  a.currentPrice = b.currentPrice ∧ a.sentiment = b.sentiment ∧ a.targets = b.targets ∧
    a.mae = b.mae ∧ a.rmse = b.rmse ∧ a.mape = b.mape

/-- The report rebuilt from the stored run and the fresh one show the same, as they are read. -/
def Agrees (fmt : Formats) (sym : List Char) (ticker : Ticker) (months today : Nat)
    (run : ForecastRun) (closing : ReportEnd) : Prop :=
  ∃ text, rebuildForecastReport fmt sym ticker months (storedRun today run) = .ok (some text) ∧
    ∃ a b, parseForecast (some text) = some a ∧
      parseForecast (some (freshReport fmt sym ticker months run closing)) = some b ∧ SameShown a b

/-- No infinity. -/
def PyFloat.Bounded (x : PyFloat) : Prop := ∀ s, x ≠ .inf s

/-- The numbers of a target survive the table and their printing. -/
structure Target.Kept (t : Target) : Prop where
  price : PyFloat.Bounded t.price
  pctChange : PyFloat.Bounded t.pctChange
  lower : PyFloat.Bounded t.lower ∧ t.lower.isZero = false
  upper : PyFloat.Bounded t.upper ∧ t.upper.isZero = false

/-! ## Texts of numbers -/

section Texts

variable (fmt : Formats)

theorem throughTable_of_bounded {x : PyFloat} (h : PyFloat.Bounded x) : throughTable x = x := by
  cases x with
  | nan => rfl
  | inf s => exact absurd rfl (h s)
  | number x => rfl

theorem throughTable_inf (s : Bool) : throughTable (.inf s) = .nan := rfl

theorem infText_ne (s : Bool) : (if s then "-inf".toList else "inf".toList) ≠ "nan".toList := by
  cases s <;> decide

theorem str_throughTable_iff (x : PyFloat) :
    fmt.str (throughTable x) = fmt.str x ↔ PyFloat.Bounded x := by
  constructor
  · intro h s hs
    rw [hs, throughTable_inf, fmt.str_nan, fmt.str_inf] at h
    exact infText_ne s h.symm
  · intro h
    rw [throughTable_of_bounded h]

theorem fixed_throughTable_iff (n : Nat) (x : PyFloat) :
    fmt.fixed n (throughTable x) = fmt.fixed n x ↔ PyFloat.Bounded x := by
  constructor
  · intro h s hs
    rw [hs, throughTable_inf, fmt.fixed_nan, fmt.fixed_inf] at h
    exact infText_ne s h.symm
  · intro h
    rw [throughTable_of_bounded h]

/-- The sign and the digits of a percentage. -/
def pctText (pct : PyFloat) : List Char :=
  (if PyFloat.le (.number 0) pct then "+".toList else []) ++ fmt.fixed 1 pct

theorem pctText_throughTable_iff (x : PyFloat) :
    pctText fmt (throughTable x) = pctText fmt x ↔ PyFloat.Bounded x := by
  constructor
  · intro h s hs
    rw [hs, throughTable_inf, pctText, pctText, fmt.fixed_nan, fmt.fixed_inf] at h
    cases s with
    | false => exact absurd h (by decide)
    | true => exact absurd h (by decide)
  · intro h
    rw [throughTable_of_bounded h]

theorem isZero_throughTable (x : PyFloat) : (throughTable x).isZero = x.isZero := by
  cases x <;> rfl

/-- A bound of zero is shown as unknown. -/
theorem boundText_throughTable_iff (sym : List Char) (x : PyFloat) :
    boundText fmt sym (some (throughTable x)) = sym ++ fmt.str x ↔
      PyFloat.Bounded x ∧ x.isZero = false := by
  cases hZero : x.isZero with
  | true =>
      have hText : boundText fmt sym (some (throughTable x)) = "?".toList := by
        simp only [boundText, isZero_throughTable, hZero, if_true]
      rw [hText]
      refine iff_of_false ?_ fun h => Bool.noConfusion h.2
      intro h
      -- the mark would be the last character of a numeral
      have hMark : '?' ∈ fmt.str x := by
        rcases List.append_eq_singleton_iff.mp h.symm with ⟨-, hStr⟩ | ⟨-, hStr⟩
        · rw [hStr]
          exact List.mem_singleton_self _
        · exact absurd hStr (fmt.numeral_str x).1
      exact absurd ((fmt.numeral_str x).2 '?' hMark) (by decide)
  | false =>
      have hText : boundText fmt sym (some (throughTable x)) = sym ++ fmt.str (throughTable x) := by
        simp only [boundText, isZero_throughTable, hZero]
        rfl
      rw [hText, List.append_cancel_left_eq, str_throughTable_iff]
      exact (and_iff_left rfl).symm

/-- The text of a target says what its parts are. -/
theorem targetText_inj {sym : List Char} (hSym : Inline sym) {p p' q q' : PyFloat}
    {lo lo' hi hi' : List Char} (hLo : Word lo) (hLo' : Word lo')
    (h : targetText fmt sym p q lo hi = targetText fmt sym p' q' lo' hi') :
    fmt.str p = fmt.str p' ∧ pctText fmt q = pctText fmt q' ∧ lo = lo' ∧ hi = hi' := by
  have hBlank : ∀ {s : List Char}, Inline s → ' ' ∉ s := fun hs hMem =>
    Bool.noConfusion ((hs _ hMem).1.symm.trans separates_whiteSpace.blank)
  have hOpen : Inline "(".toList := by decide
  have hClose : Inline "%)".toList := by decide
  have hBracket : Inline "[".toList := by decide
  have hDash : Inline "–".toList := by decide
  have hPct : ∀ x, Inline ("(".toList ++ pctText fmt x ++ "%)".toList) := fun x =>
    (hOpen.append (word_sign fmt x).1).append hClose
  obtain ⟨hPrice, hRest⟩ := append_sep_inj (hBlank (word_money fmt hSym p).1)
    (hBlank (word_money fmt hSym p').1) h
  obtain ⟨hPercent, hRest⟩ := append_sep_inj (hBlank (hPct q)) (hBlank (hPct q')) hRest
  obtain ⟨hLower, hRest⟩ := append_sep_inj (hBlank (hBracket.append hLo.1))
    (hBlank (hBracket.append hLo'.1)) hRest
  obtain ⟨-, hUpper⟩ := append_sep_inj (hBlank hDash) (hBlank hDash) hRest
  refine ⟨List.append_cancel_left hPrice, ?_, List.append_cancel_left hLower,
    List.append_cancel_right hUpper⟩
  exact List.append_cancel_left (List.append_cancel_right hPercent)

end Texts

/-! ## Agreement -/

theorem filterMap_pair_inj {α β : Type*} {f g : α → Option β} {ks : List α} :
    (ks.filterMap fun k => (f k).map fun v => (k, v)) =
      (ks.filterMap fun k => (g k).map fun v => (k, v)) ↔ ∀ k ∈ ks, f k = g k := by
  constructor
  · intro h k hk
    have hMem : ∀ (f' : α → Option β) (v : β),
        (k, v) ∈ ks.filterMap (fun k => (f' k).map fun v => (k, v)) ↔ f' k = some v := by
      intro f' v
      rw [List.mem_filterMap]
      constructor
      · rintro ⟨k', -, hv⟩
        obtain ⟨w, hw, hSame⟩ := Option.map_eq_some_iff.mp hv
        cases hSame
        exact hw
      · intro hv
        exact ⟨k, hk, by rw [hv]; rfl⟩
    apply Option.ext
    intro v
    rw [← hMem f v, ← hMem g v, h]
  · intro h
    exact List.filterMap_congr fun k hk => by rw [h k hk]

section Agreement

variable (fmt : Formats) {sym : List Char}

/-- The line of a target agrees exactly when the target exists and its numbers are kept. -/
theorem targetText_storedRun_iff (hSym : Inline sym) (today : Nat) (run : ForecastRun) (h : String) :
    (storedRun today run).targetText fmt sym h = run.targetText fmt sym h ↔
      ∃ t, run.summary.targets (horizonMonths h) = some t ∧ t.Kept := by
  unfold StoredRun.targetText ForecastRun.targetText storedRun
  dsimp only
  cases hTarget : run.summary.targets (horizonMonths h) with
  | none =>
      refine iff_of_false ?_ ?_
      · exact Option.some_ne_none _
      · rintro ⟨t, hSome, -⟩
        cases hSome
  | some t =>
      dsimp only
      rw [Option.map_some, Option.some.injEq]
      have hFields : (∃ t', some t = some t' ∧ t'.Kept) ↔ t.Kept :=
        ⟨fun ⟨t', hSame, hKept⟩ => by cases hSame; exact hKept, fun hKept => ⟨t, rfl, hKept⟩⟩
      rw [hFields]
      constructor
      · intro hText
        obtain ⟨hPrice, hPct, hLower, hUpper⟩ := targetText_inj fmt hSym
          (word_boundText fmt hSym _) (word_money fmt hSym _) hText
        exact ⟨(str_throughTable_iff fmt _).mp hPrice, (pctText_throughTable_iff fmt _).mp hPct,
          (boundText_throughTable_iff fmt sym _).mp hLower,
          (boundText_throughTable_iff fmt sym _).mp hUpper⟩
      · rintro ⟨hPrice, hPct, hLower, hUpper⟩
        rw [(boundText_throughTable_iff fmt sym _).mpr hLower,
          (boundText_throughTable_iff fmt sym _).mpr hUpper, throughTable_of_bounded hPrice,
          throughTable_of_bounded hPct]

/-- What the two reports show is the same exactly when the run is kept. -/
theorem sameShown_iff (hSym : Inline sym) (today : Nat) (run : ForecastRun) :
    SameShown ((storedRun today run).shown fmt sym) (run.shown fmt sym) ↔
      PyFloat.Bounded run.currentPrice ∧ run.accuracy.isSome ∧
        ∀ h ∈ horizons, ∃ t, run.summary.targets (horizonMonths h) = some t ∧ t.Kept := by
  have hPrice : ((storedRun today run).shown fmt sym).currentPrice = (run.shown fmt sym).currentPrice ↔
      PyFloat.Bounded run.currentPrice := by
    change some (sym ++ fmt.fixed 2 (throughTable run.currentPrice)) =
      some (sym ++ fmt.fixed 2 run.currentPrice) ↔ _
    rw [Option.some.injEq, List.append_cancel_left_eq, fixed_throughTable_iff]
  have hTargets : ((storedRun today run).shown fmt sym).targets = (run.shown fmt sym).targets ↔
      ∀ h ∈ horizons, ∃ t, run.summary.targets (horizonMonths h) = some t ∧ t.Kept := by
    rw [StoredRun.shown, ForecastRun.shown, filterMap_pair_inj]
    exact forall₂_congr fun h _ => targetText_storedRun_iff fmt hSym today run h
  have hAccuracy : (((storedRun today run).shown fmt sym).mae = (run.shown fmt sym).mae ∧
      ((storedRun today run).shown fmt sym).rmse = (run.shown fmt sym).rmse ∧
      ((storedRun today run).shown fmt sym).mape = (run.shown fmt sym).mape) ↔
      run.accuracy.isSome := by
    unfold StoredRun.shown ForecastRun.shown storedRun
    dsimp only
    cases hAccuracy : run.accuracy with
    | none =>
        refine iff_of_false ?_ Bool.false_ne_true
        rintro ⟨hMae, -⟩
        exact Option.some_ne_none _ hMae
    | some a => exact iff_of_true ⟨rfl, rfl, rfl⟩ rfl
  unfold SameShown
  rw [hPrice, hTargets, hAccuracy]
  constructor
  · rintro ⟨hp, -, ht, ha⟩
    exact ⟨hp, ha, ht⟩
  · rintro ⟨hp, ha, ht⟩
    exact ⟨hp, rfl, ht, ha⟩

theorem rebuildable_storedRun (today : Nat) (run : ForecastRun) :
    (storedRun today run).Rebuildable := by
  refine ⟨rfl, rfl, ⟨"3M", by decide, ?_⟩, fun _ _ => rfl⟩
  unfold storedRun
  dsimp only
  cases run.summary.targets (horizonMonths "3M") with
  | none => exact ⟨rfl, rfl⟩
  | some t => exact ⟨rfl, rfl⟩

theorem agrees_iff_kept (hSym : Inline sym) (ticker : Ticker) (months today : Nat) (run : ForecastRun)
    (closing : ReportEnd) :
    Agrees fmt sym ticker months today run closing ↔
      PyFloat.Bounded run.currentPrice ∧ run.accuracy.isSome ∧
        ∀ h ∈ horizons, ∃ t, run.summary.targets (horizonMonths h) = some t ∧ t.Kept := by
  rw [← sameShown_iff fmt hSym today run]
  obtain ⟨entries, hEntries⟩ :=
    (@rebuildable_iff fmt sym ticker months (storedRun today run)).mpr (rebuildable_storedRun today run)
  have hRebuilt := parseForecast_rebuilt fmt hSym hEntries
  have hFresh := parseForecast_freshReport fmt hSym ticker months run closing
  have hText : rebuildForecastReport fmt sym ticker months (storedRun today run) =
      .ok (some (renderEntries entries)) := by
    rw [rebuildForecastReport, hEntries]
    rfl
  constructor
  · rintro ⟨text, hSame, a, b, ha, hb, hShown⟩
    rw [hText] at hSame
    cases hSame
    rw [hRebuilt] at ha
    rw [hFresh] at hb
    cases ha
    cases hb
    exact hShown
  · intro hShown
    exact ⟨_, hText, _, _, hRebuilt, hFresh, hShown⟩

end Agreement

/-! ## Runs of `forecast_stock` -/

/-- The targets are those within the horizon. -/
theorem isSome_lookup_generateTargets {rows : List ForecastRow} {today : Nat} {price : PyFloat}
    {months : Nat} {ms : List Nat} {targets : List (Nat × Target)}
    (h : generateTargets rows today price months ms = .ok targets) (m : Nat) :
    (targets.lookup m).isSome ↔ m ∈ ms ∧ m ≤ months := by
  induction ms generalizing targets with
  | nil =>
      cases h
      exact iff_of_false Bool.false_ne_true fun h => List.not_mem_nil h.1
  | cons n ms ih =>
      rw [generateTargets] at h
      by_cases hFar : months < n
      · rw [if_pos hFar] at h
        rw [ih h, List.mem_cons]
        constructor
        · rintro ⟨hm, hLe⟩
          exact ⟨.inr hm, hLe⟩
        · rintro ⟨rfl | hm, hLe⟩
          · exact absurd hLe (Nat.not_le.mpr hFar)
          · exact ⟨hm, hLe⟩
      · rw [if_neg hFar] at h
        cases hTarget : targetAt rows today price n with
        | error e =>
            rw [hTarget] at h
            cases h
        | ok target =>
            cases hRest : generateTargets rows today price months ms with
            | error e =>
                rw [hTarget, hRest] at h
                cases h
            | ok rest =>
                rw [hTarget, hRest] at h
                cases h
                rw [List.lookup_cons, List.mem_cons]
                by_cases hHere : m = n
                · subst hHere
                  rw [beq_self_eq_true]
                  exact iff_of_true rfl ⟨.inl rfl, Nat.not_lt.mp hFar⟩
                · rw [beq_false_of_ne hHere]
                  dsimp only
                  rw [ih hRest]
                  simp only [hHere, false_or]

theorem isSome_targets {rows : List ForecastRow} {today : Nat} {price : PyFloat} {months : Nat}
    {summary : ForecastSummary} (h : generateForecastSummary rows today price months = .ok summary)
    (m : Nat) : (summary.targets m).isSome ↔ m ∈ [3, 6, 9] ∧ m ≤ months := by
  rw [generateForecastSummary] at h
  cases hTargets : generateTargets rows today price months [3, 6, 9] with
  | error e =>
      rw [hTargets] at h
      cases h
  | ok targets =>
      rw [hTargets] at h
      cases h
      exact isSome_lookup_generateTargets hTargets m

/-- The cached report of a run shows what its fresh report showed exactly when the horizon covers all
targets, the run has its accuracy, no number is infinite and no bound is zero. -/
theorem agrees_iff (fmt : Formats) (code : CurrencyCode) (ticker : Ticker)
    {rows : List ForecastRow} {today months : Nat} {price : PyFloat} {summary : ForecastSummary}
    (hSummary : generateForecastSummary rows today price months = .ok summary)
    (accuracy : Option Accuracy) (closing : ReportEnd) :
    Agrees fmt (currencySymbol code) ticker months today ⟨price, summary, accuracy⟩ closing ↔
      9 ≤ months ∧ PyFloat.Bounded price ∧ accuracy.isSome ∧
        ∀ m ∈ [3, 6, 9], ∀ t ∈ summary.targets m, t.Kept := by
  rw [agrees_iff_kept fmt (inline_currencySymbol code)]
  have hMonths : ∀ m, m ∈ [3, 6, 9] ↔ ∃ h ∈ horizons, horizonMonths h = m := by
    intro m
    simp [horizons, horizonMonths, eq_comm]
  constructor
  · rintro ⟨hPrice, hAccuracy, hTargets⟩
    obtain ⟨t, hSome, -⟩ := hTargets "9M" (by decide)
    have hLast : (summary.targets 9).isSome := Option.isSome_iff_exists.mpr ⟨t, hSome⟩
    have hNine := ((isSome_targets hSummary 9).mp hLast).2
    refine ⟨hNine, hPrice, hAccuracy, ?_⟩
    intro m hm t' ht'
    obtain ⟨h, hh, rfl⟩ := (hMonths m).mp hm
    obtain ⟨t, hSome, hKept⟩ := hTargets h hh
    rw [Option.mem_def.mp ht'] at hSome
    cases hSome
    exact hKept
  · rintro ⟨hNine, hPrice, hAccuracy, hTargets⟩
    refine ⟨hPrice, hAccuracy, ?_⟩
    intro h hh
    have hm := (hMonths (horizonMonths h)).mpr ⟨h, hh, rfl⟩
    have hLe : horizonMonths h ≤ 9 := by
      simp only [List.mem_cons, List.not_mem_nil, or_false] at hm
      omega
    obtain ⟨t, ht⟩ := Option.isSome_iff_exists.mp
      ((isSome_targets hSummary (horizonMonths h)).mpr ⟨hm, hLe.trans hNine⟩)
    exact ⟨t, ht, hTargets _ hm t ht⟩

/-- A forecast of 110, between 105 and 115. -/
def sampleForecast : List ForecastRow := [⟨20454, .number 110, .number 105, .number 115⟩]

def sampleEnd : ReportEnd := ⟨1000, 1 / 2, ⟨1 / 2, 1 / 2, 1 / 2, 1 / 2⟩, .stable⟩

/-- The target that every horizon finds in it. -/
def sampleTarget : Target where
  date := 20454
  price := (PyFloat.number 110).round 2
  pctChange := (PyFloat.number ((110 + -100) / 100 * 100)).round 2
  lower := (PyFloat.number 105).round 2
  upper := (PyFloat.number 115).round 2

theorem kept_sampleTarget : sampleTarget.Kept := by
  have hBounded : ∀ x : ℚ, PyFloat.Bounded ((PyFloat.number x).round 2) := fun x s h =>
    PyFloat.noConfusion h
  exact ⟨hBounded _, hBounded _, ⟨hBounded _, by decide +kernel⟩, ⟨hBounded _, by decide +kernel⟩⟩

theorem targetAt_sampleForecast (m : Nat) :
    targetAt sampleForecast 20089 (.number 100) m = .ok sampleTarget := by
  have hPrice : (PyFloat.number 100).isZero = false := by decide
  have hHundred : ¬ (100 : ℚ) = 0 := by decide
  simp only [targetAt, sampleForecast, nearestRow, List.foldl_nil, hPrice, sampleTarget, PyFloat.sub,
    PyFloat.neg, PyFloat.add, PyFloat.div, PyFloat.mul, ne_eq, hHundred, not_false_eq_true, if_true]
  rfl

/-- A run over nine months with its accuracy. -/
theorem agrees_nineMonths :
    ∃ summary, generateForecastSummary sampleForecast 20089 (.number 100) 9 = .ok summary ∧
      Agrees Formats.decimal (currencySymbol ⟨"USD", by decide⟩) aapl 9 20089
        ⟨.number 100, summary, some ⟨3, 4, 5⟩⟩ sampleEnd := by
  have hSummary : generateForecastSummary sampleForecast 20089 (.number 100) 9 =
      .ok ⟨fun m => [(3, sampleTarget), (6, sampleTarget), (9, sampleTarget)].lookup m,
        sentimentOf sampleTarget.pctChange⟩ := by
    simp only [generateForecastSummary, generateTargets, targetAt_sampleForecast]
    rfl
  refine ⟨_, hSummary, (agrees_iff _ _ _ hSummary _ _).mpr ⟨le_rfl, fun s h => PyFloat.noConfusion h,
    rfl, ?_⟩⟩
  intro m hm t ht
  simp only [List.mem_cons, List.not_mem_nil, or_false] at hm
  rcases hm with rfl | rfl | rfl
  all_goals
    cases ht
    exact kept_sampleTarget

/-- A run over three months: the cached report shows targets at six and at nine months, of NaN. -/
theorem threeMonths_shows_nan :
    ∃ summary, generateForecastSummary sampleForecast 20089 (.number 100) 3 = .ok summary ∧
      ¬ Agrees Formats.decimal (currencySymbol ⟨"USD", by decide⟩) aapl 3 20089
        ⟨.number 100, summary, some ⟨3, 4, 5⟩⟩ sampleEnd := by
  have hSummary : generateForecastSummary sampleForecast 20089 (.number 100) 3 =
      .ok ⟨fun m => [(3, sampleTarget)].lookup m, sentimentOf sampleTarget.pctChange⟩ := by
    simp only [generateForecastSummary, generateTargets, targetAt_sampleForecast]
    rfl
  refine ⟨_, hSummary, ?_⟩
  rw [agrees_iff_kept _ (inline_currencySymbol _)]
  rintro ⟨-, -, hTargets⟩
  obtain ⟨t, hSome, -⟩ := hTargets "6M" (by decide)
  exact Option.some_ne_none t hSome.symm

end AsetPlatform.Reports
