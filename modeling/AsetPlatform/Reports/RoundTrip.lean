import AsetPlatform.Reports.ForecastReport
import AsetPlatform.Reports.PriceAnalysis

/-!
# Reports and their readers

`roundTrip_iff`: an analysis report is written and read back exactly when the history has a return
between two consecutive calendar months and one between two consecutive calendar years, and an answer
of `forecast_stock` is read back exactly when it is not the note for tickers with little data.

The labels of the forecast reader end one name each of all that a forecast report can hold
(`test_forecastNames`, `test_targetNames`), so that reading is looking the name up.
-/

set_option autoImplicit false

namespace AsetPlatform.Reports

open Library

/-! ## The names of a forecast report -/

def forecastNames : List (List Char) :=
  ["=== PRICE FORECAST", "CURRENT PRICE     ", "  3M Target  ", "  6M Target  ", "  9M Target  ",
    "SENTIMENT         ", "  MAE             ", "  RMSE            ", "  MAPE            ",
    "  Accuracy        ", "⚠ LOW DATA WARNING"].map String.toList

/-- The labels of the forecast reader, and the names that end with them. -/
def forecastLabels : List (String × String) :=
  [("CURRENT PRICE", "CURRENT PRICE     "), ("SENTIMENT", "SENTIMENT         "),
    ("MAE", "  MAE             "), ("RMSE", "  RMSE            "), ("MAPE", "  MAPE            "),
    ("Accuracy", "  Accuracy        ")]

theorem wellLabelled_forecast : ∀ e ∈ forecastLabels, WellLabelled e.1.toList := by
  simp only [forecastLabels, List.forall_mem_cons]
  repeat rw [String.toList_ofList]
  decide

theorem test_forecastNames :
    ∀ e ∈ forecastLabels, ∀ name ∈ forecastNames,
      prefixTest e.1.toList.reverse (ending whiteSpace name) = some (name == e.2.toList) := by
  simp only [forecastLabels, List.forall_mem_cons]
  simp only [forecastNames, List.map]
  repeat rw [String.toList_ofList]
  decide +kernel

theorem wellLabelled_horizons : ∀ h ∈ horizons, WellLabelled h.toList := by
  simp only [horizons, List.forall_mem_cons]
  repeat rw [String.toList_ofList]
  decide

theorem test_targetNames :
    ∀ h ∈ horizons, ∀ name ∈ forecastNames,
      twoWordsTest whiteSpace h.toList "Target".toList (ending whiteSpace name) =
        some (name == targetName h) := by
  simp only [horizons, List.forall_mem_cons]
  simp only [forecastNames, targetName, List.map]
  repeat rw [String.toList_ofList]
  decide +kernel

def targetLabel {h : String} (hh : WellLabelled h.toList) : Label whiteSpace :=
  have hTarget : WellLabelled "Target".toList := by decide
  Label.twoWords h.toList "Target".toList hh.1 hh.2.1 hh.2.2 hTarget.1 hTarget.2.1 hTarget.2.2
    separates_whiteSpace

/-! ## Reading by name -/

/-- The entries of a forecast report: known names with a cell each, and headings. -/
def ForecastEntry : TextEntry → Prop
  | .plain text => ':' ∉ text
  | .field name value => name ∈ forecastNames ∧ Cell value

theorem colon_notMem_forecastNames : ∀ name ∈ forecastNames, ':' ∉ name := by
  simp only [forecastNames, List.map]
  repeat rw [String.toList_ofList]
  decide

theorem labelled_forecast (L : Label whiteSpace) {own : List Char}
    (hTest : ∀ name ∈ forecastNames, L.test (ending whiteSpace name) = some (name == own))
    {entries : List TextEntry} (hEntries : ∀ e ∈ entries, ForecastEntry e) {rest : List Char}
    (hRest : Quiet L rest) :
    labelled whiteSpace L.pattern (renderEntries entries ++ rest) =
      (entries.filterMap TextEntry.pair).lookup own := by
  rw [labelled_render separates_whiteSpace _ hRest]
  · apply findSome?_read_eq_lookup hTest
    intro f hf
    obtain ⟨e, he, hPair⟩ := List.mem_filterMap.mp hf
    cases e with
    | plain text => exact absurd hPair.symm (Option.some_ne_none f)
    | field name value =>
        cases hPair
        exact (hEntries _ he).1
  · intro e he
    have hEntry := hEntries e he
    cases e with
    | plain text => exact quiet_of_notMem hEntry
    | field name value =>
        refine ⟨colon_notMem_forecastNames name hEntry.1, ?_, hEntry.2.tidy,
          quiet_of_notMem hEntry.2.colon⟩
        rw [hTest name hEntry.1]
        rfl

/-- Nothing after the entries is read under a label of the reader. -/
def QuietEnd (rest : List Char) : Prop :=
  (∀ (e : String × String) (he : e ∈ forecastLabels),
    Quiet (labelOf (wellLabelled_forecast e he)) rest) ∧
  ∀ (h : String) (hh : h ∈ horizons), Quiet (targetLabel (wellLabelled_horizons h hh)) rest

/-- The fields of a text with these names and values. -/
def fieldsOf (pairs : List (List Char × List Char)) : ForecastFields where
  currentPrice := pairs.lookup "CURRENT PRICE     ".toList
  sentiment := pairs.lookup "SENTIMENT         ".toList
  targets := horizons.filterMap fun h => (pairs.lookup (targetName h)).map fun v => (h, v)
  mae := pairs.lookup "  MAE             ".toList
  rmse := pairs.lookup "  RMSE            ".toList
  mape := pairs.lookup "  MAPE            ".toList
  accuracyError := pairs.lookup "  Accuracy        ".toList

/-- Reading a forecast report is looking its names up. -/
theorem parseForecast_render (entries : List TextEntry) (rest : List Char)
    (hText : renderEntries entries ++ rest ≠ []) (hEntries : ∀ e ∈ entries, ForecastEntry e)
    (hRest : QuietEnd rest) :
    parseForecast (some (renderEntries entries ++ rest)) =
      some (fieldsOf (entries.filterMap TextEntry.pair)) := by
  have hExtract : ∀ e ∈ forecastLabels,
      extract (some (renderEntries entries ++ rest)) e.1.toList =
        (entries.filterMap TextEntry.pair).lookup e.2.toList := by
    intro e he
    have hRead := labelled_forecast (labelOf (wellLabelled_forecast e he))
      (fun name hName => test_forecastNames e he name hName) hEntries (hRest.1 e he)
    obtain ⟨c, text, hCons⟩ := List.exists_cons_of_ne_nil hText
    rw [← hRead, hCons]
    rfl
  have hTarget : ∀ h ∈ horizons,
      labelled whiteSpace (twoWords whiteSpace h.toList "Target".toList)
        (renderEntries entries ++ rest) =
        (entries.filterMap TextEntry.pair).lookup (targetName h) := fun h hh =>
    labelled_forecast (targetLabel (wellLabelled_horizons h hh))
      (fun name hName => test_targetNames h hh name hName) hEntries (hRest.2 h hh)
  have hPrice := hExtract ("CURRENT PRICE", "CURRENT PRICE     ") (by simp [forecastLabels])
  have hSentiment := hExtract ("SENTIMENT", "SENTIMENT         ") (by simp [forecastLabels])
  have hMae := hExtract ("MAE", "  MAE             ") (by simp [forecastLabels])
  have hRmse := hExtract ("RMSE", "  RMSE            ") (by simp [forecastLabels])
  have hMape := hExtract ("MAPE", "  MAPE            ") (by simp [forecastLabels])
  have hError := hExtract ("Accuracy", "  Accuracy        ") (by simp [forecastLabels])
  have hTargets : (horizons.filterMap fun h =>
      (labelled whiteSpace (twoWords whiteSpace h.toList "Target".toList)
        (renderEntries entries ++ rest)).map fun value => (h, value)) =
      horizons.filterMap fun h =>
        ((entries.filterMap TextEntry.pair).lookup (targetName h)).map fun v => (h, v) :=
    List.filterMap_congr fun h hh => by rw [hTarget h hh]
  rw [parseForecast, Option.map_some]
  simp only at hPrice hSentiment hMae hRmse hMape hError
  rw [hPrice, hSentiment, hMae, hRmse, hMape, hError, hTargets]
  rfl

/-! ## The fields of a report -/

/-- Looking a key up among the values that there are. -/
theorem lookup_filterMap {α β γ : Type*} [BEq β] (ks : List α) (name : α → β) (f : α → Option γ)
    (key : β) :
    (ks.filterMap fun k => (f k).map fun v => (name k, v)).lookup key =
      ks.findSome? fun k => if key == name k then f k else none := by
  induction ks with
  | nil => rfl
  | cons k ks ih =>
      rw [List.findSome?_cons, List.filterMap_cons]
      cases hf : f k with
      | none =>
          rw [Option.map_none, ite_self]
          exact ih
      | some v =>
          rw [Option.map_some]
          dsimp only
          rw [List.lookup_cons]
          cases hKey : key == name k with
          | true => rfl
          | false => exact ih

/-- The targets of a report, under their names. -/
def targetPairs (targets : String → Option (List Char)) : List (List Char × List Char) :=
  horizons.filterMap fun h => (targets h).map fun v => (targetName h, v)

theorem pairs_targetEntries (targets : String → Option (List Char)) :
    (targetEntries targets).filterMap TextEntry.pair = targetPairs targets := by
  have hFields : (horizons.filterMap fun h => (targets h).map fun v =>
      TextEntry.field (targetName h) v).filterMap TextEntry.pair = targetPairs targets := by
    rw [List.filterMap_filterMap, targetPairs]
    refine List.filterMap_congr fun h _ => ?_
    cases targets h <;> rfl
  unfold targetEntries
  split
  · rename_i hNone
    rw [hNone] at hFields
    exact hFields
  · exact hFields

theorem lookup_targetPairs (targets : String → Option (List Char)) {h : String}
    (hh : h ∈ horizons) : (targetPairs targets).lookup (targetName h) = targets h := by
  have hNames : ∀ h ∈ horizons, ∀ h' ∈ horizons, (targetName h == targetName h') = (h == h') := by
    decide
  rw [targetPairs, lookup_filterMap]
  simp only [horizons, List.findSome?_cons, List.findSome?_nil, hNames h hh "3M" (by decide),
    hNames h hh "6M" (by decide), hNames h hh "9M" (by decide)]
  simp only [horizons, List.mem_cons, List.not_mem_nil, or_false] at hh
  rcases hh with rfl | rfl | rfl
  · cases targets "3M" <;> simp
  · cases targets "6M" <;> simp
  · cases targets "9M" <;> simp

theorem lookup_targetPairs_none (targets : String → Option (List Char)) {key : List Char}
    (hKey : ∀ h ∈ horizons, (key == targetName h) = false) :
    (targetPairs targets).lookup key = none := by
  rw [targetPairs, lookup_filterMap]
  apply List.findSome?_eq_none_iff.mpr
  intro h hh
  rw [hKey h hh]
  rfl

/-- The names after the sentiment. -/
def closingNames : List (List Char) :=
  ["  MAE             ", "  RMSE            ", "  MAPE            ", "  Accuracy        ",
    "⚠ LOW DATA WARNING"].map String.toList

theorem lookup_none {pairs : List (List Char × List Char)} {key : List Char}
    (h : ∀ f ∈ pairs, (key == f.1) = false) : pairs.lookup key = none := by
  induction pairs with
  | nil => rfl
  | cons f pairs ih =>
      rw [List.lookup_cons, h f List.mem_cons_self]
      exact ih fun g hg => h g (List.mem_cons_of_mem f hg)

/-- The fields of a report with these parts. -/
theorem fieldsOf_forecast (headline currentPrice sentiment : List Char)
    (targets : String → Option (List Char)) {closing : List (List Char × List Char)}
    (hClosing : ∀ f ∈ closing, f.1 ∈ closingNames) :
    fieldsOf (("=== PRICE FORECAST".toList, headline) :: ("CURRENT PRICE     ".toList, currentPrice) ::
      (targetPairs targets ++ ("SENTIMENT         ".toList, sentiment) :: closing)) =
    { currentPrice := some currentPrice
      sentiment := some sentiment
      targets := horizons.filterMap fun h => (targets h).map fun v => (h, v)
      mae := closing.lookup "  MAE             ".toList
      rmse := closing.lookup "  RMSE            ".toList
      mape := closing.lookup "  MAPE            ".toList
      accuracyError := closing.lookup "  Accuracy        ".toList } := by
  -- the names of the parts are different, so that each lookup passes the other parts
  have hPass : ∀ key ∈ "SENTIMENT         ".toList :: closingNames,
      (key == "=== PRICE FORECAST".toList) = false ∧ (key == "CURRENT PRICE     ".toList) = false ∧
        ∀ h ∈ horizons, (key == targetName h) = false := by
    simp only [horizons, List.forall_mem_cons]
    simp only [closingNames, targetName, List.map]
    repeat rw [String.toList_ofList]
    decide
  have hTarget : ∀ h ∈ horizons, (targetName h == "=== PRICE FORECAST".toList) = false ∧
      (targetName h == "CURRENT PRICE     ".toList) = false ∧
      (targetName h == "SENTIMENT         ".toList) = false ∧
      ∀ key ∈ closingNames, (targetName h == key) = false := by
    simp only [horizons, List.forall_mem_cons]
    simp only [closingNames, targetName, List.map]
    repeat rw [String.toList_ofList]
    decide
  have hSentiment : ∀ key ∈ closingNames, (key == "SENTIMENT         ".toList) = false := by
    simp only [closingNames, List.map]
    repeat rw [String.toList_ofList]
    decide
  have hLookup : ∀ key ∈ closingNames,
      List.lookup key (("=== PRICE FORECAST".toList, headline) ::
        ("CURRENT PRICE     ".toList, currentPrice) ::
        (targetPairs targets ++ ("SENTIMENT         ".toList, sentiment) :: closing)) =
      closing.lookup key := by
    intro key hKey
    obtain ⟨hHead, hPrice, hTargets⟩ := hPass key (List.mem_cons_of_mem _ hKey)
    rw [List.lookup_cons, hHead, List.lookup_cons, hPrice, List.lookup_append,
      lookup_targetPairs_none targets hTargets, Option.none_or, List.lookup_cons,
      hSentiment key hKey]
  have hSentimentOf : List.lookup "SENTIMENT         ".toList (("=== PRICE FORECAST".toList, headline) ::
        ("CURRENT PRICE     ".toList, currentPrice) ::
        (targetPairs targets ++ ("SENTIMENT         ".toList, sentiment) :: closing)) =
      some sentiment := by
    obtain ⟨hHead, hPrice, hTargets⟩ := hPass _ List.mem_cons_self
    rw [List.lookup_cons, hHead, List.lookup_cons, hPrice, List.lookup_append,
      lookup_targetPairs_none targets hTargets, Option.none_or, List.lookup_cons, beq_self_eq_true]
  have hTargetsOf : ∀ h ∈ horizons, List.lookup (targetName h)
      (("=== PRICE FORECAST".toList, headline) :: ("CURRENT PRICE     ".toList, currentPrice) ::
        (targetPairs targets ++ ("SENTIMENT         ".toList, sentiment) :: closing)) = targets h := by
    intro h hh
    obtain ⟨hHead, hPrice, hSent, hRest⟩ := hTarget h hh
    rw [List.lookup_cons, hHead, List.lookup_cons, hPrice, List.lookup_append,
      lookup_targetPairs targets hh, List.lookup_cons, hSent,
      lookup_none fun f hf => hRest f.1 (hClosing f hf), Option.or_none]
  have hPriceOf : List.lookup "CURRENT PRICE     ".toList
      (("=== PRICE FORECAST".toList, headline) :: ("CURRENT PRICE     ".toList, currentPrice) ::
        (targetPairs targets ++ ("SENTIMENT         ".toList, sentiment) :: closing)) =
      some currentPrice := by
    have hHead : ("CURRENT PRICE     ".toList == "=== PRICE FORECAST".toList) = false := by decide
    rw [List.lookup_cons, hHead, List.lookup_cons, beq_self_eq_true]
  have hTargetList := List.filterMap_congr fun h hh =>
    congrArg (Option.map fun v => (h, v)) (hTargetsOf h hh)
  rw [fieldsOf, hPriceOf, hSentimentOf, hTargetList, hLookup "  MAE             ".toList (by decide),
    hLookup "  RMSE            ".toList (by decide), hLookup "  MAPE            ".toList (by decide),
    hLookup "  Accuracy        ".toList (by decide)]

theorem pairs_forecastEntries (currentPrice : List Char) (targets : String → Option (List Char))
    (sentiment : Sentiment) (header : String) (accuracy : List TextEntry) :
    (forecastEntries currentPrice targets sentiment header accuracy).filterMap TextEntry.pair =
      ("CURRENT PRICE     ".toList, currentPrice) :: (targetPairs targets ++
        ("SENTIMENT         ".toList, sentiment.emoji.toList) :: accuracy.filterMap TextEntry.pair) := by
  rw [forecastEntries, List.filterMap_append, List.filterMap_append, List.filterMap_append,
    pairs_targetEntries]
  rfl

/-! ## The cells of a report -/

section Cells

variable (fmt : Formats) {sym : List Char}

theorem word_money (hSym : Inline sym) (x : PyFloat) : Word (sym ++ fmt.str x) :=
  hSym.word (word_numeral (fmt.numeral_str x))

theorem cell_percent (x : PyFloat) (n : Nat) : Cell (fmt.fixed n x ++ "%".toList) :=
  (cell_numeral (fmt.numeral_fixed n x)).percent

theorem word_boundText (hSym : Inline sym) (x : Option PyFloat) : Word (boundText fmt sym x) := by
  have hMark : Word "?".toList := by decide
  cases x with
  | none => exact hMark
  | some x =>
      simp only [boundText]
      split
      · exact hMark
      · exact word_money fmt hSym x

theorem Cell.beforeBlank {s t : List Char} (hs : Cell s) (ht : Cell t) : Cell (s ++ ' ' :: t) :=
  hs.blank ht

theorem word_sign (pct : PyFloat) :
    Word ((if PyFloat.le (.number 0) pct then "+".toList else []) ++ fmt.fixed 1 pct) := by
  apply Inline.word _ (word_numeral (fmt.numeral_fixed 1 pct))
  split <;> decide

theorem cell_targetText (hSym : Inline sym) (price pct : PyFloat) {lo hi : List Char} (hLo : Word lo)
    (hHi : Word hi) : Cell (targetText fmt sym price pct lo hi) := by
  have hOpen : Cell "(".toList := by decide
  have hClose : Cell "%)".toList := by decide
  have hBracket : Cell "[".toList := by decide
  have hEnd : Cell "]".toList := by decide
  have hDash : Cell "–".toList := by decide
  have hPct := (hOpen.append (word_sign fmt pct).cell).append hClose
  have hBounds := (hBracket.append hLo.cell).beforeBlank (hDash.beforeBlank (hHi.cell.append hEnd))
  exact (word_money fmt hSym price).cell.beforeBlank (hPct.beforeBlank hBounds)

theorem forecastEntry_headline (ticker : Ticker) (months : Nat) :
    ForecastEntry (forecastHeadline ticker months) := by
  refine ⟨by decide, ?_⟩
  have hTicker : Cell ticker.text := ticker.inline.cell ticker.nonempty
  have hOpen : Cell "(".toList := by decide
  have hMonth : Cell "-month".toList := by decide
  have hEnd : Cell "horizon) ===".toList := by decide
  have hMonths := hOpen.append ((cell_numeral (numeral_toString months)).append hMonth)
  have hValue := hTicker.blank (hMonths.blank hEnd)
  simpa only [List.append_assoc] using hValue

theorem cell_emoji (sentiment : Sentiment) : Cell sentiment.emoji.toList := by
  cases sentiment <;> decide

/-- The part that both reports share. -/
theorem forecastEntry_forecastEntries {currentPrice : List Char} (hPrice : Cell currentPrice)
    {targets : String → Option (List Char)} (hTargets : ∀ h, ∀ v ∈ targets h, Cell v)
    (sentiment : Sentiment) {header : String} (hHeader : ':' ∉ header.toList)
    {accuracy : List TextEntry} (hAccuracy : ∀ e ∈ accuracy, ForecastEntry e) :
    ∀ e ∈ forecastEntries currentPrice targets sentiment header accuracy, ForecastEntry e := by
  have hNames : ∀ h ∈ horizons, targetName h ∈ forecastNames := by decide
  have hBlank : ForecastEntry (.plain []) := List.not_mem_nil
  have hTargetEntries : ∀ e ∈ targetEntries targets, ForecastEntry e := by
    intro e he
    unfold targetEntries at he
    split at he
    · rw [List.mem_singleton.mp he]
      exact hBlank
    · obtain ⟨h, hh, hEntry⟩ := List.mem_filterMap.mp he
      obtain ⟨v, hv, rfl⟩ := Option.map_eq_some_iff.mp hEntry
      exact ⟨hNames h hh, hTargets h v hv⟩
  have hPriceEntry : ForecastEntry (.field "CURRENT PRICE     ".toList currentPrice) :=
    ⟨by decide, hPrice⟩
  have hTitle : ForecastEntry (.plain "PRICE TARGETS".toList) := by
    have hColon : ':' ∉ "PRICE TARGETS".toList := by decide
    exact hColon
  have hSentiment : ForecastEntry (.field "SENTIMENT         ".toList sentiment.emoji.toList) :=
    ⟨by decide, cell_emoji sentiment⟩
  have hHeaderEntry : ForecastEntry (.plain header.toList) := hHeader
  intro e he
  simp only [forecastEntries, List.mem_append, List.mem_cons, List.not_mem_nil, or_false] at he
  rcases he with (rfl | rfl | rfl | rfl) | he | (rfl | rfl | rfl | rfl) | he
  · exact hBlank
  · exact hPriceEntry
  · exact hBlank
  · exact hTitle
  · exact hTargetEntries e he
  · exact hBlank
  · exact hSentiment
  · exact hBlank
  · exact hHeaderEntry
  · exact hAccuracy e he

theorem forecastEntry_accuracy {mae rmse mape : List Char} (hMae : Cell mae) (hRmse : Cell rmse)
    (hMape : Cell mape) : ∀ e ∈ accuracyEntries mae rmse mape, ForecastEntry e := by
  intro e he
  simp only [accuracyEntries, List.mem_cons, List.not_mem_nil, or_false] at he
  rcases he with rfl | rfl | rfl
  · exact ⟨by decide, hMae⟩
  · exact ⟨by decide, hRmse⟩
  · exact ⟨by decide, hMape⟩

/-- A cell between two texts. -/
theorem cell_around {s x t : List Char} (hx : Cell x) (hStart : s ≠ [] ∧ s.dropWhile whiteSpace.isSpace = s)
    (hStop : t ≠ [] ∧ ending whiteSpace t = t.reverse) (hs : '\n' ∉ s ∧ ':' ∉ s)
    (ht : '\n' ∉ t ∧ ':' ∉ t) : Cell (s ++ (x ++ t)) where
  tidy :=
    { nonempty := fun h => hStart.1 (List.append_eq_nil_iff.mp h).1
      line := by
        simp only [List.mem_append, not_or]
        exact ⟨hs.1, hx.tidy.line, ht.1⟩
      start := by
        rw [List.dropWhile_append, hStart.2, if_neg]
        rw [List.isEmpty_iff]
        exact hStart.1
      stop := by
        have hEnd : ending whiteSpace t ≠ [] := by
          rw [hStop.2]
          exact fun h => hStop.1 (List.reverse_eq_nil_iff.mp h)
        rw [← List.append_assoc, ending_append hEnd, hStop.2, ← List.reverse_append] }
  colon := by
    simp only [List.mem_append, not_or]
    exact ⟨hs.2, hx.colon, ht.2⟩

theorem forecastEntry_lowDataWarning (dataDays : Nat) :
    ∀ e ∈ lowDataWarning dataDays, ForecastEntry e := by
  intro e he
  unfold lowDataWarning at he
  split at he
  · rcases List.mem_cons.mp he with rfl | he
    · exact List.not_mem_nil
    · rw [List.mem_singleton.mp he]
      refine ⟨by decide, ?_⟩
      apply cell_around (cell_numeral (numeral_toString dataDays))
      all_goals
        try rw [String.toList_append]
        repeat rw [String.toList_ofList]
        decide +kernel
  · exact absurd he List.not_mem_nil

theorem forecastEntry_freshEntries (hSym : Inline sym) (ticker : Ticker) (months : Nat)
    (run : ForecastRun) (dataDays : Nat) :
    ∀ e ∈ freshEntries fmt sym ticker months run dataDays, ForecastEntry e := by
  intro e he
  rcases List.mem_append.mp he with he | he
  · rcases List.mem_cons.mp he with rfl | he
    · exact forecastEntry_headline ticker months
    · refine forecastEntry_forecastEntries ?_ ?_ run.summary.sentiment ?_ ?_ e he
      · exact (hSym.word (word_numeral (fmt.numeral_fixed 2 _))).cell
      · intro h v hv
        obtain ⟨t, -, rfl⟩ := Option.map_eq_some_iff.mp hv
        exact cell_targetText fmt hSym t.price t.pctChange (word_money fmt hSym _)
          (word_money fmt hSym _)
      · have hCrossValidated : ':' ∉ "MODEL ACCURACY (cross-validated)".toList := by decide
        have hPlain : ':' ∉ "MODEL ACCURACY".toList := by decide
        cases run.accuracy with
        | none => exact hPlain
        | some a => exact hCrossValidated
      · cases run.accuracy with
        | none =>
            intro e he
            rw [List.mem_singleton.mp he]
            have hColon : ':' ∉ "  Insufficient data for accuracy metrics (need 2+ years)".toList := by
              decide
            exact hColon
        | some a =>
            exact forecastEntry_accuracy (word_money fmt hSym _).cell (word_money fmt hSym _).cell
              (cell_percent fmt _ 1)
  · exact forecastEntry_lowDataWarning dataDays e he

/-- What a rebuilt report is made of. -/
theorem rebuiltEntries_cases {ticker : Ticker} {months : Nat} {run : StoredRun}
    {entries : List TextEntry}
    (h : rebuiltEntries fmt sym ticker months run = .ok (some entries)) :
    ∃ price sentiment accuracy, run.currentPriceAtRun = some price ∧ run.sentiment = some sentiment ∧
      run.accuracyEntries fmt sym = .ok accuracy ∧
      entries = forecastHeadline ticker months ::
        .plain ("(cached from ".toList ++ (isoDate run.runDate ++ ")".toList)) ::
        forecastEntries (sym ++ fmt.fixed 2 price) (run.targetText fmt sym) sentiment
          "MODEL ACCURACY (last 12 months in-sample)" accuracy := by
  unfold rebuiltEntries at h
  split at h
  · rename_i price sentiment hPrice hSentiment
    split at h
    · cases h
    · cases hAccuracy : run.accuracyEntries fmt sym with
      | error e =>
          rw [hAccuracy] at h
          cases h
      | ok accuracy =>
          rw [hAccuracy] at h
          cases h
          exact ⟨price, sentiment, accuracy, hPrice, hSentiment, rfl, rfl⟩
  · cases h

theorem forecastEntry_rebuiltEntries (hSym : Inline sym) (ticker : Ticker) (months : Nat)
    {run : StoredRun} {entries : List TextEntry}
    (h : rebuiltEntries fmt sym ticker months run = .ok (some entries)) :
    ∀ e ∈ entries, ForecastEntry e := by
  obtain ⟨price, sentiment, accuracy, -, -, hAccuracy, rfl⟩ := rebuiltEntries_cases fmt h
  have hDate : ':' ∉ "(cached from ".toList ++ (isoDate run.runDate ++ ")".toList) := by
    simp only [List.mem_append, not_or]
    exact ⟨by decide, (cell_numeral (numeral_isoDate run.runDate)).colon, by decide⟩
  intro e he
  rcases List.mem_cons.mp he with rfl | he
  · exact forecastEntry_headline ticker months
  · rcases List.mem_cons.mp he with rfl | he
    · exact hDate
    · refine forecastEntry_forecastEntries ?_ ?_ sentiment (by decide) ?_ e he
      · exact (hSym.word (word_numeral (fmt.numeral_fixed 2 price))).cell
      · intro h' v hv
        unfold StoredRun.targetText at hv
        dsimp only at hv
        split at hv
        · cases hv
          exact cell_targetText fmt hSym _ _ (word_boundText fmt hSym _) (word_boundText fmt hSym _)
        · cases hv
      · unfold StoredRun.accuracyEntries at hAccuracy
        split at hAccuracy
        · split at hAccuracy
          · cases hAccuracy
          · cases hAccuracy
            exact forecastEntry_accuracy (word_money fmt hSym _).cell (word_money fmt hSym _).cell
              (cell_percent fmt _ 1)
        · cases hAccuracy
          intro e he
          rw [List.mem_singleton.mp he]
          exact ⟨by decide, by decide⟩

end Cells

/-! ## What follows the entries -/

/-- What stands before the colons after the entries, and in the note. -/
def silentNames : List (List Char) :=
  ["\n**Confidence", "Low confidence", "Rejected confidence", "\n**Regime", " trading days)",
    "\nSentiment", "\nNote"].map String.toList

theorem quietEnd_of {rest : List Char}
    (h : ∀ L : Label whiteSpace,
      (∀ s ∈ silentNames, L.test (ending whiteSpace s) = some false) → Quiet L rest) :
    QuietEnd rest := by
  have hLabels : ∀ e ∈ forecastLabels, ∀ s ∈ silentNames,
      prefixTest e.1.toList.reverse (ending whiteSpace s) = some false := by
    simp only [forecastLabels, List.forall_mem_cons]
    simp only [silentNames, List.map]
    repeat rw [String.toList_ofList]
    decide +kernel
  have hTargets : ∀ h ∈ horizons, ∀ s ∈ silentNames,
      twoWordsTest whiteSpace h.toList "Target".toList (ending whiteSpace s) = some false := by
    simp only [horizons, List.forall_mem_cons]
    simp only [silentNames, List.map]
    repeat rw [String.toList_ofList]
    decide +kernel
  exact ⟨fun e he => h _ fun s hs => hLabels e he s hs, fun t ht => h _ fun s hs => hTargets t ht s hs⟩

theorem quietEnd_nil : QuietEnd [] := quietEnd_of fun _ _ => quiet_of_notMem List.not_mem_nil

theorem colon_notMem_append {s t : List Char} (hs : ':' ∉ s) (ht : ':' ∉ t) : ':' ∉ s ++ t := by
  rw [List.mem_append, not_or]
  exact ⟨hs, ht⟩

theorem colon_notMem_weakReason (components : ConfidenceComponents) :
    ':' ∉ weakReason (weakSignals components) := by
  have hIssues : ∀ issue ∈ weakSignals components, ':' ∉ issue.toList := by
    have hAll : ∀ issue ∈ ["low directional accuracy", "high forecast error",
        "poor prediction interval coverage", "limited data signals"], ':' ∉ issue.toList := by decide
    intro issue hIssue
    apply hAll
    simp only [weakSignals, List.mem_append] at hIssue
    rcases hIssue with ((h | h) | h) | h
    all_goals
      split at h
      · rw [List.mem_singleton.mp h]
        decide
      · exact absurd h List.not_mem_nil
  unfold weakReason
  split
  · decide
  · intro hMem
    rcases mem_intercalate hMem with hSep | ⟨x, hx, hMem⟩
    · exact absurd hSep (by decide)
    · obtain ⟨issue, hIssue, rfl⟩ := List.mem_map.mp hx
      exact hIssues issue hIssue hMem

theorem confidenceBadge_cases (score : ℚ) (components : ConfidenceComponents) :
    ':' ∉ (confidenceBadge score components).1.toList ∧
      ∀ r ∈ (confidenceBadge score components).2, ':' ∉ r.2 ∧ r.1 ∈ silentNames ∧ ':' ∉ r.1 := by
  have hReason := colon_notMem_weakReason components
  have hBadges : ∀ badge ∈ ["High", "Medium", "Low", "Rejected"], ':' ∉ badge.toList := by decide
  have hLabels : ∀ label ∈ ["Low confidence".toList, "Rejected confidence".toList],
      label ∈ silentNames ∧ ':' ∉ label := by decide
  unfold confidenceBadge
  split
  · exact ⟨hBadges "High" (by decide), fun r hr => by cases hr⟩
  · split
    · exact ⟨hBadges "Medium" (by decide), fun r hr => by cases hr⟩
    · split
      · refine ⟨hBadges "Low" (by decide), fun r hr => ?_⟩
        cases hr
        exact ⟨hReason, hLabels "Low confidence".toList (by decide)⟩
      · refine ⟨hBadges "Rejected" (by decide), fun r hr => ?_⟩
        cases hr
        exact ⟨hReason, hLabels "Rejected confidence".toList (by decide)⟩

theorem quietEnd_report (fmt : Formats) (closing : ReportEnd) :
    QuietEnd (confidenceText fmt closing ++ regimeLine closing.regime) := by
  refine quietEnd_of fun L hL => ?_
  obtain ⟨hBadge, hReason⟩ := confidenceBadge_cases closing.score closing.components
  have hScore := (cell_numeral (fmt.numeral_fixed 0 (.number (closing.score * 100)))).colon
  have hValue : ':' ∉ "** ".toList ++ ((confidenceBadge closing.score closing.components).1.toList ++
      (" (".toList ++ (fmt.fixed 0 (.number (closing.score * 100)) ++ "%)".toList))) := by
    apply colon_notMem_append (by decide)
    apply colon_notMem_append hBadge
    apply colon_notMem_append (by decide)
    exact colon_notMem_append hScore (by decide)
  have hConfidence := quiet_of_colon (L := L) List.not_mem_nil (s := "\n**Confidence".toList)
    (by decide) (hL _ (by decide)) (quiet_of_notMem hValue)
  have hRegime : ':' ∉ "** ".toList ++ (regimeText closing.regime).toList := by
    apply colon_notMem_append (by decide)
    cases closing.regime <;> decide
  have hLine := quiet_of_colon (L := L) List.not_mem_nil (s := "\n**Regime".toList) (by decide)
    (hL _ (by decide)) (quiet_of_notMem hRegime)
  have hText : Quiet L (confidenceText fmt closing) := by
    simp only [confidenceText]
    refine hConfidence.append ?_
    split
    · exact quiet_of_notMem List.not_mem_nil
    · rename_i label reason hSome
      obtain ⟨hColon, hLabel, hLabelColon⟩ := hReason _ hSome
      have hBlank : ':' ∉ ' ' :: reason := by
        rw [List.mem_cons, not_or]
        exact ⟨by decide, hColon⟩
      exact quiet_of_colon (by decide) hLabelColon (hL label hLabel) (quiet_of_notMem hBlank)
  exact hText.append hLine

theorem quietEnd_lowDataNote (ticker : Ticker) (age : Int) (dataDays : Nat)
    (sentiment : Option Sentiment) : QuietEnd (lowDataNote ticker age dataDays sentiment) := by
  refine quietEnd_of fun L hL => ?_
  have hTicker : ':' ∉ ticker.text := fun h => (ticker.inline _ h).2 rfl
  have hDays := (cell_numeral (numeral_toString dataDays)).colon
  have hSentiment : ':' ∉ ' ' :: (sentiment.elim "None" Sentiment.text).toList := by
    cases sentiment with
    | none => decide
    | some s => cases s <;> decide
  have hStart : ':' ∉ "Forecast for ".toList ++ (ticker.text ++ (" (cached ".toList ++
      ((toString age).toList ++ ("d ago, low data — ".toList ++ (toString dataDays).toList)))) := by
    apply colon_notMem_append (by decide)
    apply colon_notMem_append hTicker
    apply colon_notMem_append (by decide)
    apply colon_notMem_append (colon_notMem_toString age)
    exact colon_notMem_append (by decide) hDays
  have hLast : Quiet L " Limited price history — forecast confidence is low.".toList :=
    quiet_of_notMem (by decide)
  have hNote := quiet_of_colon (s := "\nNote".toList) hSentiment (by decide) (hL _ (by decide)) hLast
  have hBlank := quiet_of_colon (L := L) List.not_mem_nil (s := "\nSentiment".toList) (by decide)
    (hL _ (by decide)) hNote
  exact quiet_of_colon hStart (by decide) (hL _ (by decide)) hBlank

/-! ## Answers -/

section Answers

variable (fmt : Formats) {sym : List Char}

def accuracyNames : List (List Char) :=
  ["  MAE             ", "  RMSE            ", "  MAPE            ", "  Accuracy        "].map
    String.toList

theorem lookup_lowDataWarning (dataDays : Nat) {key : List Char} (hKey : key ∈ accuracyNames) :
    ((lowDataWarning dataDays).filterMap TextEntry.pair).lookup key = none := by
  have hName : ∀ key ∈ accuracyNames, (key == "⚠ LOW DATA WARNING".toList) = false := by
    simp only [accuracyNames, List.map]
    repeat rw [String.toList_ofList]
    decide
  unfold lowDataWarning
  split
  · exact lookup_none fun f hf => by
      rw [List.mem_singleton.mp hf]
      exact hName key hKey
  · rfl

theorem mem_closingNames_of_warning (dataDays : Nat) :
    ∀ f ∈ (lowDataWarning dataDays).filterMap TextEntry.pair, f.1 ∈ closingNames := by
  have hName : "⚠ LOW DATA WARNING".toList ∈ closingNames :=
    List.mem_map_of_mem (by decide)
  intro f hf
  unfold lowDataWarning at hf
  split at hf
  · rw [List.mem_singleton.mp hf]
    exact hName
  · exact absurd hf List.not_mem_nil

theorem lookup_accuracyEntries (mae rmse mape : List Char) :
    (((accuracyEntries mae rmse mape).filterMap TextEntry.pair).lookup "  MAE             ".toList =
      some mae) ∧
    (((accuracyEntries mae rmse mape).filterMap TextEntry.pair).lookup "  RMSE            ".toList =
      some rmse) ∧
    (((accuracyEntries mae rmse mape).filterMap TextEntry.pair).lookup "  MAPE            ".toList =
      some mape) ∧
    (((accuracyEntries mae rmse mape).filterMap TextEntry.pair).lookup "  Accuracy        ".toList =
      none) ∧
    ∀ f ∈ (accuracyEntries mae rmse mape).filterMap TextEntry.pair, f.1 ∈ closingNames := by
  have hPairs : (accuracyEntries mae rmse mape).filterMap TextEntry.pair =
      [("  MAE             ".toList, mae), ("  RMSE            ".toList, rmse),
        ("  MAPE            ".toList, mape)] := rfl
  have hRmse : ("  RMSE            ".toList == "  MAE             ".toList) = false := by decide
  have hMape : ("  MAPE            ".toList == "  MAE             ".toList) = false ∧
      ("  MAPE            ".toList == "  RMSE            ".toList) = false := by decide
  have hError : ("  Accuracy        ".toList == "  MAE             ".toList) = false ∧
      ("  Accuracy        ".toList == "  RMSE            ".toList) = false ∧
      ("  Accuracy        ".toList == "  MAPE            ".toList) = false := by decide
  rw [hPairs]
  simp only [List.lookup_cons, beq_self_eq_true, hRmse, hMape, hError, List.lookup_nil,
    true_and]
  have hNames : ∀ name ∈ ["  MAE             ".toList, "  RMSE            ".toList,
      "  MAPE            ".toList], name ∈ closingNames := by decide
  intro f hf
  apply hNames
  simp only [List.mem_cons, List.not_mem_nil, or_false] at hf ⊢
  rcases hf with rfl | rfl | rfl
  · exact .inl rfl
  · exact .inr (.inl rfl)
  · exact .inr (.inr rfl)

/-- A fresh report is read back. -/
theorem parseForecast_freshReport (hSym : Inline sym) (ticker : Ticker) (months : Nat)
    (run : ForecastRun) (closing : ReportEnd) :
    parseForecast (some (freshReport fmt sym ticker months run closing)) =
      some (run.shown fmt sym) := by
  have hWarning := mem_closingNames_of_warning closing.dataDays
  have hLookup : ∀ (pairs : List (List Char × List Char)), ∀ key ∈ accuracyNames,
      (pairs ++ (lowDataWarning closing.dataDays).filterMap TextEntry.pair).lookup key =
        pairs.lookup key := by
    intro pairs key hKey
    rw [List.lookup_append, lookup_lowDataWarning _ hKey, Option.or_none]
  rw [freshReport, parseForecast_render _ _ _ (forecastEntry_freshEntries fmt hSym ticker months run _)
    (quietEnd_report fmt closing)]
  · rw [freshEntries, List.filterMap_append, List.filterMap_cons]
    simp only [forecastHeadline, TextEntry.pair, pairs_forecastEntries, List.cons_append,
      List.append_assoc]
    cases hAccuracy : run.accuracy with
    | none =>
        rw [fieldsOf_forecast]
        · rw [hLookup _ _ (by decide), hLookup _ _ (by decide), hLookup _ _ (by decide),
            hLookup _ _ (by decide)]
          rw [ForecastRun.shown, hAccuracy]
          rfl
        · exact hWarning
    | some a =>
        obtain ⟨hMae, hRmse, hMape, hError, hNames⟩ := lookup_accuracyEntries
          (sym ++ fmt.str (.number a.mae)) (sym ++ fmt.str (.number a.rmse))
          (fmt.fixed 1 (.number a.mapePct) ++ "%".toList)
        rw [fieldsOf_forecast]
        · rw [hLookup _ _ (by decide), hLookup _ _ (by decide), hLookup _ _ (by decide),
            hLookup _ _ (by decide), hMae, hRmse, hMape, hError]
          rw [ForecastRun.shown, hAccuracy]
          rfl
        · intro f hf
          rcases List.mem_append.mp hf with hf | hf
          · exact hNames f hf
          · exact hWarning f hf
  · simp [freshEntries, renderEntries, TextEntry.render, forecastHeadline]

/-- A rebuilt report is read back. -/
theorem parseForecast_rebuilt (hSym : Inline sym) {ticker : Ticker} {months : Nat} {run : StoredRun}
    {entries : List TextEntry}
    (h : rebuiltEntries fmt sym ticker months run = .ok (some entries)) :
    parseForecast (some (renderEntries entries)) = some (run.shown fmt sym) := by
  have hEntries := forecastEntry_rebuiltEntries fmt hSym ticker months h
  obtain ⟨price, sentiment, accuracy, hPrice, hSentiment, hAccuracy, rfl⟩ := rebuiltEntries_cases fmt h
  have hRead := parseForecast_render _ []
    (by simp [renderEntries, TextEntry.render, forecastHeadline]) hEntries quietEnd_nil
  rw [List.append_nil] at hRead
  rw [hRead, List.filterMap_cons, List.filterMap_cons]
  simp only [forecastHeadline, TextEntry.pair, pairs_forecastEntries]
  unfold StoredRun.accuracyEntries at hAccuracy
  split at hAccuracy
  · rename_i mae rmse hMaeSome hRmseSome
    split at hAccuracy
    · cases hAccuracy
    · rename_i mape hMapeSome
      cases hAccuracy
      obtain ⟨hMae, hRmse, hMape, hError, hNames⟩ := lookup_accuracyEntries
        (sym ++ fmt.str mae) (sym ++ fmt.str rmse) (fmt.fixed 1 mape ++ "%".toList)
      rw [fieldsOf_forecast _ _ _ _ hNames, hMae, hRmse, hMape, hError, StoredRun.shown, hPrice,
        hSentiment, hMaeSome, hRmseSome, hMapeSome]
      rfl
  · rename_i hMissing
    cases hAccuracy
    have hNames : ∀ f ∈ ([.field "  Accuracy        ".toList "N/A".toList] : List TextEntry).filterMap
        TextEntry.pair, f.1 ∈ closingNames := by decide
    have hBoth : ¬ (run.mae.isSome = true ∧ run.rmse.isSome = true) := by
      rintro ⟨hMae, hRmse⟩
      obtain ⟨mae, hMae⟩ := Option.isSome_iff_exists.mp hMae
      obtain ⟨rmse, hRmse⟩ := Option.isSome_iff_exists.mp hRmse
      exact hMissing mae rmse hMae hRmse
    rw [fieldsOf_forecast _ _ _ _ hNames, StoredRun.shown, hPrice, hSentiment, if_neg hBoth,
      if_neg hBoth]
    have hMae : (if run.rmse.isSome then run.mae.map fun x => sym ++ fmt.str x else none) = none := by
      split
      · rename_i hRmse
        cases hMaeSome : run.mae with
        | none => rfl
        | some mae => exact absurd ⟨by rw [hMaeSome]; rfl, hRmse⟩ hBoth
      · rfl
    have hRmse : (if run.mae.isSome then run.rmse.map fun x => sym ++ fmt.str x else none) = none := by
      split
      · rename_i hMaeSome
        cases hRmseSome : run.rmse with
        | none => rfl
        | some rmse => exact absurd ⟨hMaeSome, by rw [hRmseSome]; rfl⟩ hBoth
      · rfl
    rw [hMae, hRmse]
    rfl

theorem parseForecast_lowDataNote (ticker : Ticker) (age : Int) (dataDays : Nat)
    (sentiment : Option Sentiment) :
    parseForecast (some (lowDataNote ticker age dataDays sentiment)) = some (fieldsOf []) := by
  apply parseForecast_render [] _ _ (fun e he => absurd he List.not_mem_nil)
    (quietEnd_lowDataNote ticker age dataDays sentiment)
  intro hNil
  change lowDataNote ticker age dataDays sentiment = [] at hNil
  have hStart := (List.append_eq_nil_iff.mp (List.append_eq_nil_iff.mp hNil).1).1
  exact absurd hStart (by decide)

/-- Reading the answer yields what it shows. -/
def ForecastRoundTrips (answer : ForecastAnswer) : Prop :=
  parseForecast (some answer.text) = some answer.shown

/-- The run has what a rebuilt report needs. -/
def StoredRun.Rebuildable (run : StoredRun) : Prop :=
  run.currentPriceAtRun.isSome ∧ run.sentiment.isSome ∧
    (∃ h ∈ horizons, (run.target (horizonMonths h)).price.isSome ∧
      (run.target (horizonMonths h)).pctChange.isSome) ∧
    (run.mae.isSome → run.rmse.isSome → run.mape.isSome)

/-- The note is served: little data, and a run of the last thirty days that is past its cooldown or
lacks a field. -/
def ServesNote (today dataDays : Nat) (latest : Option StoredRun) : Prop :=
  dataDays < 730 ∧ ∃ stored, latest = some stored ∧ today < stored.runDate + 30 ∧
    ¬ (today < stored.runDate + 7 ∧ stored.Rebuildable)

theorem rebuildable_iff (ticker : Ticker) (months : Nat) (run : StoredRun) :
    (∃ entries, rebuiltEntries fmt sym ticker months run = .ok (some entries)) ↔ run.Rebuildable := by
  have hTargets : (horizons.all fun h => (run.targetText fmt sym h).isNone) = true ↔
      ¬ ∃ h ∈ horizons, (run.target (horizonMonths h)).price.isSome ∧
        (run.target (horizonMonths h)).pctChange.isSome := by
    simp only [List.all_eq_true, not_exists, not_and]
    refine forall₂_congr fun h _ => ?_
    unfold StoredRun.targetText
    dsimp only
    cases (run.target (horizonMonths h)).price <;> cases (run.target (horizonMonths h)).pctChange <;>
      simp
  unfold StoredRun.Rebuildable
  constructor
  · rintro ⟨entries, h⟩
    obtain ⟨price, sentiment, accuracy, hPrice, hSentiment, hAccuracy, -⟩ := rebuiltEntries_cases fmt h
    refine ⟨by rw [hPrice]; rfl, by rw [hSentiment]; rfl, ?_, ?_⟩
    · by_contra hNone
      rw [rebuiltEntries, hPrice, hSentiment] at h
      simp only [if_pos (hTargets.mpr hNone)] at h
      cases h
    · intro hMae hRmse
      unfold StoredRun.accuracyEntries at hAccuracy
      obtain ⟨mae, hMae⟩ := Option.isSome_iff_exists.mp hMae
      obtain ⟨rmse, hRmse⟩ := Option.isSome_iff_exists.mp hRmse
      rw [hMae, hRmse] at hAccuracy
      cases hMape : run.mape with
      | none =>
          rw [hMape] at hAccuracy
          cases hAccuracy
      | some mape => rfl
  · rintro ⟨hPrice, hSentiment, hSome, hAccuracy⟩
    obtain ⟨price, hPrice⟩ := Option.isSome_iff_exists.mp hPrice
    obtain ⟨sentiment, hSentiment⟩ := Option.isSome_iff_exists.mp hSentiment
    have hLines : ∃ accuracy, run.accuracyEntries fmt sym = .ok accuracy := by
      unfold StoredRun.accuracyEntries
      cases hMae : run.mae with
      | none => exact ⟨_, rfl⟩
      | some mae =>
          cases hRmse : run.rmse with
          | none => exact ⟨_, rfl⟩
          | some rmse =>
              obtain ⟨mape, hMape⟩ := Option.isSome_iff_exists.mp
                (hAccuracy (by rw [hMae]; rfl) (by rw [hRmse]; rfl))
              rw [hMape]
              exact ⟨_, rfl⟩
    obtain ⟨accuracy, hLines⟩ := hLines
    rw [rebuiltEntries, hPrice, hSentiment]
    simp only [if_neg fun hAll => hTargets.mp hAll hSome, hLines]
    exact ⟨_, rfl⟩

/-- Within its cooldown, a run that can be rebuilt is answered with its report. -/
theorem cooldownReport_cases (hSym : Inline sym) (ticker : Ticker) (months today : Nat)
    (latest : Option StoredRun) :
    (∃ answer, cooldownReport fmt sym ticker months today latest = some answer ∧
      ForecastRoundTrips answer ∧
      ∃ stored, latest = some stored ∧ today < stored.runDate + 7 ∧ stored.Rebuildable) ∨
    cooldownReport fmt sym ticker months today latest = none ∧
      ∀ stored, latest = some stored → ¬ (today < stored.runDate + 7 ∧ stored.Rebuildable) := by
  cases latest with
  | none => exact .inr ⟨rfl, fun stored h => by cases h⟩
  | some stored =>
      by_cases hAge : today < stored.runDate + 7
      · by_cases hRebuild : stored.Rebuildable
        · obtain ⟨entries, hEntries⟩ := 
            (@rebuildable_iff fmt sym ticker months stored).mpr hRebuild
          left
          refine ⟨⟨renderEntries entries, stored.shown fmt sym⟩, ?_, ?_, stored, rfl, hAge, hRebuild⟩
          · simp only [cooldownReport, if_pos hAge, rebuildForecastReport, hEntries]
            rfl
          · exact parseForecast_rebuilt fmt hSym hEntries
        · right
          refine ⟨?_, fun stored' h => by cases h; exact fun hBoth => hRebuild hBoth.2⟩
          have hNone : ¬ ∃ entries, rebuiltEntries fmt sym ticker months stored = .ok (some entries) :=
            fun h => hRebuild ((rebuildable_iff fmt ticker months stored).mp h)
          simp only [cooldownReport, if_pos hAge, rebuildForecastReport]
          cases hEntries : rebuiltEntries fmt sym ticker months stored with
          | error e => rfl
          | ok found =>
              cases found with
              | none => rfl
              | some entries => exact absurd ⟨entries, hEntries⟩ hNone
      · right
        refine ⟨?_, fun stored' h => by cases h; exact fun hBoth => hAge hBoth.1⟩
        simp only [cooldownReport, if_neg hAge]

theorem forecastRoundTrips_iff (hSym : Inline sym) (ticker : Ticker) (months today : Nat)
    (latest : Option StoredRun) (run : ForecastRun) (closing : ReportEnd) :
    ForecastRoundTrips (forecastStock fmt sym ticker months today latest run closing) ↔
      ¬ ServesNote today closing.dataDays latest := by
  have hFresh : ForecastRoundTrips ⟨freshReport fmt sym ticker months run closing, run.shown fmt sym⟩ :=
    parseForecast_freshReport fmt hSym ticker months run closing
  unfold forecastStock
  rcases cooldownReport_cases fmt hSym ticker months today latest with
    ⟨answer, hAnswer, hRound, stored, rfl, hAge, hRebuild⟩ | ⟨hNone, hPast⟩
  · rw [hAnswer]
    refine iff_of_true hRound ?_
    rintro ⟨-, stored', hSame, -, hNot⟩
    cases hSame
    exact hNot ⟨hAge, hRebuild⟩
  · rw [hNone]
    by_cases hDays : closing.dataDays < 730
    · simp only [if_pos hDays]
      cases latest with
      | none => exact iff_of_true hFresh fun h => by obtain ⟨-, stored, hSame, -⟩ := h; cases hSame
      | some stored =>
          by_cases hAge : today < stored.runDate + 30
          · simp only [if_pos hAge]
            refine iff_of_false ?_ (not_not.mpr ⟨hDays, stored, rfl, hAge, hPast stored rfl⟩)
            intro hRound
            have hNote := (parseForecast_lowDataNote ticker _ _ _).symm.trans hRound
            have hSentiment := congrArg ForecastFields.sentiment (Option.some.inj hNote)
            exact Option.some_ne_none _ hSentiment.symm
          · simp only [if_neg hAge]
            refine iff_of_true hFresh ?_
            rintro ⟨-, stored', hSame, hYoung, -⟩
            cases hSame
            exact hAge hYoung
    · simp only [if_neg hDays]
      exact iff_of_true hFresh fun h => hDays h.1

end Answers

/-- An analysis report is written and read back exactly when two consecutive months and two consecutive
years have a return; an answer about a forecast is read back exactly when it is not the note. -/
theorem roundTrip_iff (fmt : Formats) (code : CurrencyCode) (ticker : Ticker) :
    (∀ (closes : Closes) (last : Indicators) (movement : Movement),
      AnalysisRoundTrips (analyseStockPrice fmt code ticker closes last movement) ↔
        closes.HasReturn monthOf ∧ closes.HasReturn yearOf) ∧
    ∀ (months today : Nat) (latest : Option StoredRun) (run : ForecastRun) (closing : ReportEnd),
      ForecastRoundTrips
          (forecastStock fmt (currencySymbol code) ticker months today latest run closing) ↔
        ¬ ServesNote today closing.dataDays latest :=
  ⟨analysisRoundTrips_iff fmt code ticker,
    forecastRoundTrips_iff fmt (inline_currencySymbol code) ticker⟩

/-- The closes of a stock listed on the first of January 2025, for twenty days. -/
def recentListing : Closes where
  rows := (List.range 20).map fun i => (20089 + i, .number (100 + i))
  nonempty := by decide
  sorted := by decide

def aapl : Ticker where
  text := "AAPL".toList
  nonempty := by decide
  valid := by decide

/-- A history within one month has no calendar returns: the tool answers with an error text. -/
theorem recentListing_raises :
    ¬ AnalysisRoundTrips (analyseStockPrice Formats.decimal ⟨"USD", by decide⟩ aapl recentListing
      ⟨some .nan, some .nan, some (.number 100), some .nan, some .nan⟩
      ⟨.nan, .nan, .number 0, 0, [.number 99], [.number 120], .number 1, .number 2⟩) := by
  rw [analysisRoundTrips_iff]
  rintro ⟨-, y, hFirst, hSecond, -⟩
  have hYear : ∀ r ∈ recentListing.rows, yearOf r.1 = 55 := by
    intro r hr
    obtain ⟨i, hi, rfl⟩ := List.mem_map.mp hr
    rw [List.mem_range] at hi
    have hStart : monthStart 660 = 20089 := by decide +kernel
    have hStop : monthStart (660 + 1) = 20120 := by decide +kernel
    have hMonth : monthOf (20089 + i) = 660 := monthOf_eq (by omega) (by rw [hStop]; omega)
    simp only [yearOf, hMonth]
  obtain ⟨r, hr, hPeriod, -⟩ := recentListing.exists_of_lastClose hFirst
  obtain ⟨r', hr', hPeriod', -⟩ := recentListing.exists_of_lastClose hSecond
  rw [hYear r hr] at hPeriod
  rw [hYear r' hr'] at hPeriod'
  omega

end AsetPlatform.Reports
