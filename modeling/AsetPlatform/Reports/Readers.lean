import AsetPlatform.Library.FloatTexts
import AsetPlatform.Library.LabelledText

/-!
# The readers of the tool reports

`_extract`, `_parse_analysis` and `_parse_forecast` of `backend/agents/report_builder.py`, and what the
writers of the reports put into a line: tickers, currency symbols, dates and numerals. A `Cell` is such
a text: it stands on one line, has no white space around it and no colon in it.
-/

set_option autoImplicit false

namespace AsetPlatform.Reports

open Library

/-- `str.isspace`, for one character; the other tables are not used here. -/
def whiteSpace : CharTables :=
  { CharTables.ascii with
    isSpace := fun c =>
      let n := c.toNat
      (9 ≤ n ∧ n ≤ 13) ∨ (28 ≤ n ∧ n ≤ 32) ∨ n = 133 ∨ n = 160 ∨ n = 5760 ∨ (8192 ≤ n ∧ n ≤ 8202) ∨
        n = 8232 ∨ n = 8233 ∨ n = 8239 ∨ n = 8287 ∨ n = 12288 }

theorem separates_whiteSpace : whiteSpace.Separates := ⟨by decide, by decide, by decide⟩

/-! ## Readers -/

/-- `_extract`. -/
def extract (text : Option (List Char)) (label : List Char) : Option (List Char) :=
  match text with
  | none | some [] => none
  | some text => labelled whiteSpace (Regex.literal (· == ·) label) text

/-- The keys of `_parse_analysis`, and their labels. -/
def analysisLabels : List (String × String) :=
  [("current_price", "Current Price"), ("all_time_high", "All Time High"),
    ("all_time_low", "All Time Low"), ("total_return", "10Y Total Return"),
    ("avg_annual_return", "Avg Annual Ret"), ("sma_50", "SMA 50"), ("sma_200", "SMA 200"),
    ("rsi", "RSI (14)"), ("macd", "MACD"), ("volatility", "Volatility"), ("sharpe", "Sharpe Ratio"),
    ("bull_phase", "Bull phase"), ("bear_phase", "Bear phase"), ("max_drawdown", "Max Drawdown"),
    ("max_dd_duration", "Max DD Duration"), ("support", "Support"), ("resistance", "Resistance"),
    ("best_month", "Best Month"), ("worst_month", "Worst Month"), ("best_year", "Best Year"),
    ("worst_year", "Worst Year")]

/-- `_parse_analysis`. -/
def parseAnalysis (text : Option (List Char)) : List (String × Option (List Char)) :=
  match text with
  | none => []
  | some text => analysisLabels.map fun l => (l.1, extract (some text) l.2.toList)

/-- What `_parse_forecast` returns. -/
structure ForecastFields where
  currentPrice : Option (List Char)
  sentiment : Option (List Char)
  targets : List (String × List Char)
  mae : Option (List Char)
  rmse : Option (List Char)
  mape : Option (List Char)
  accuracyError : Option (List Char)

/-- The horizons of the targets. -/
def horizons : List String := ["3M", "6M", "9M"]

/-- `_parse_forecast`. -/
def parseForecast (text : Option (List Char)) : Option ForecastFields :=
  text.map fun text =>
    { currentPrice := extract (some text) "CURRENT PRICE".toList
      sentiment := extract (some text) "SENTIMENT".toList
      targets := horizons.filterMap fun horizon =>
        (labelled whiteSpace (twoWords whiteSpace horizon.toList "Target".toList) text).map
          fun value => (horizon, value)
      mae := extract (some text) "MAE".toList
      rmse := extract (some text) "RMSE".toList
      mape := extract (some text) "MAPE".toList
      accuracyError := extract (some text) "Accuracy".toList }

/-! ## Cells -/

/-- A text on one line, with no white space around it and no colon in it. -/
structure Cell (s : List Char) : Prop where
  tidy : Tidy whiteSpace s
  colon : ':' ∉ s

def Inline (s : List Char) : Prop := ∀ c ∈ s, whiteSpace.isSpace c = false ∧ c ≠ ':'

instance decidableInline (s : List Char) : Decidable (Inline s) := List.decidableBAll _ s

theorem dropWhile_eq_self {α : Type*} {p : α → Bool} {s : List α} (h : ∀ c ∈ s, p c = false) :
    s.dropWhile p = s := by
  cases s with
  | nil => rfl
  | cons c s => exact List.dropWhile_cons_of_neg (by rw [h c List.mem_cons_self]; exact Bool.false_ne_true)

theorem Inline.cell {s : List Char} (h : Inline s) (hNonempty : s ≠ []) : Cell s where
  tidy :=
    { nonempty := hNonempty
      line := fun hMem => Bool.noConfusion ((h _ hMem).1.symm.trans separates_whiteSpace.newline)
      start := dropWhile_eq_self fun c hc => (h c hc).1
      stop := dropWhile_eq_self fun c hc => (h c (List.mem_reverse.mp hc)).1 }
  colon := fun hMem => (h _ hMem).2 rfl

theorem Inline.append {s t : List Char} (hs : Inline s) (ht : Inline t) : Inline (s ++ t) := by
  intro c hc
  rcases List.mem_append.mp hc with hc | hc
  · exact hs c hc
  · exact ht c hc

theorem inline_of_alphanum {s : List Char}
    (h : ∀ c ∈ s, c.isAlphanum = true ∨ c = '.' ∨ c = '+' ∨ c = '-' ∨ c = '^') : Inline s := by
  intro c hc
  rcases h c hc with hAlpha | rfl | rfl | rfl | rfl
  · -- letters and digits are away from white space and from the colon
    have hRange : 48 ≤ c.toNat ∧ c.toNat ≤ 57 ∨ 65 ≤ c.toNat ∧ c.toNat ≤ 90 ∨
        97 ≤ c.toNat ∧ c.toNat ≤ 122 := by
      simp only [Char.isAlphanum, isAlpha_eq, isUpper_eq, isLower_eq, Char.isDigit,
        Bool.or_eq_true, Bool.and_eq_true, decide_eq_true_eq, ge_iff_le, UInt32.le_iff_toNat_le] at hAlpha
      have hVal : c.val.toNat = c.toNat := rfl
      simp at hAlpha
      omega
    constructor
    · simp only [whiteSpace, decide_eq_false_iff_not]
      omega
    · rintro rfl
      revert hRange
      decide
  all_goals exact ⟨by decide, by decide⟩

theorem inline_numeral {s : List Char} (h : Numeral s) : Inline s :=
  inline_of_alphanum fun c hc => by
    rcases h.2 c hc with h | h | h | h
    · exact .inl h
    · exact .inr (.inl h)
    · exact .inr (.inr (.inl h))
    · exact .inr (.inr (.inr (.inl h)))

theorem Cell.join {s m t : List Char} (hs : Cell s) (hLine : '\n' ∉ m) (hColon : ':' ∉ m)
    (ht : Cell t) : Cell (s ++ (m ++ t)) where
  tidy := hs.tidy.join hLine ht.tidy
  colon := by
    simp only [List.mem_append, not_or]
    exact ⟨hs.colon, hColon, ht.colon⟩

theorem Cell.append {s t : List Char} (hs : Cell s) (ht : Cell t) : Cell (s ++ t) :=
  hs.join (m := []) List.not_mem_nil List.not_mem_nil ht

/-- A text without white space and colons that is not empty. -/
def Word (s : List Char) : Prop := Inline s ∧ s ≠ []

instance decidableWord (s : List Char) : Decidable (Word s) := inferInstanceAs (Decidable (_ ∧ _))

theorem Word.cell {s : List Char} (h : Word s) : Cell s := h.1.cell h.2

theorem Inline.word {s t : List Char} (hs : Inline s) (ht : Word t) : Word (s ++ t) :=
  ⟨hs.append ht.1, fun h => ht.2 (List.append_eq_nil_iff.mp h).2⟩

theorem word_numeral {s : List Char} (h : Numeral s) : Word s := ⟨inline_numeral h, h.1⟩

theorem cell_numeral {s : List Char} (h : Numeral s) : Cell s := (inline_numeral h).cell h.1

theorem cell_iff (s : List Char) :
    Cell s ↔ s ≠ [] ∧ '\n' ∉ s ∧ s.dropWhile whiteSpace.isSpace = s ∧
      ending whiteSpace s = s.reverse ∧ ':' ∉ s :=
  ⟨fun h => ⟨h.tidy.nonempty, h.tidy.line, h.tidy.start, h.tidy.stop, h.colon⟩,
    fun h => ⟨⟨h.1, h.2.1, h.2.2.1, h.2.2.2.1⟩, h.2.2.2.2⟩⟩

instance decidableCell (s : List Char) : Decidable (Cell s) := decidable_of_iff _ (cell_iff s).symm

theorem Cell.blank {s t : List Char} (hs : Cell s) (ht : Cell t) : Cell (s ++ (" ".toList ++ t)) :=
  hs.join (by decide) (by decide) ht

theorem cell_word {s : List Char} (h : Word s) : Cell s := h.cell

theorem Cell.parens {s : List Char} (h : Cell s) : Cell ("(".toList ++ s ++ ")".toList) :=
  ((cell_word (by decide)).append h).append (cell_word (by decide))

theorem Cell.percent {s : List Char} (h : Cell s) : Cell (s ++ "%".toList) :=
  h.append (cell_word (by decide))

/-! ## Labels of the readers -/

/-- A text that can be a label: not empty, no white space at its end, no colon. -/
def WellLabelled (l : List Char) : Prop := l ≠ [] ∧ ending whiteSpace l = l.reverse ∧ ':' ∉ l

instance decidableWellLabelled (l : List Char) : Decidable (WellLabelled l) :=
  inferInstanceAs (Decidable (_ ∧ _ ∧ _))

def labelOf {l : List Char} (h : WellLabelled l) : Label whiteSpace := Label.text l h.1 h.2.1 h.2.2

theorem extract_render {l : List Char} (h : WellLabelled l) {entries : List TextEntry} {rest : List Char}
    (hText : renderEntries entries ++ rest ≠ []) (hClear : ∀ e ∈ entries, e.Clear (labelOf h))
    (hRest : Quiet (labelOf h) rest) :
    extract (some (renderEntries entries ++ rest)) l = entries.findSome? (TextEntry.read (labelOf h)) := by
  obtain ⟨c, text, hCons⟩ := List.exists_cons_of_ne_nil hText
  rw [← labelled_render separates_whiteSpace hClear hRest, hCons]
  rfl

/-! ## Tickers, currencies and dates -/

/-- A ticker that `validate_ticker` lets pass, in upper case. -/
structure Ticker where
  text : List Char
  nonempty : text ≠ []
  valid : ∀ c ∈ text, c.isAlphanum = true ∨ c = '.' ∨ c = '-' ∨ c = '^'

theorem Ticker.inline (ticker : Ticker) : Inline ticker.text :=
  inline_of_alphanum fun c hc => by
    rcases ticker.valid c hc with h | h | h | h
    · exact .inl h
    · exact .inr (.inl h)
    · exact .inr (.inr (.inr (.inl h)))
    · exact .inr (.inr (.inr (.inr h)))

/-- An ISO code of a currency: letters. -/
structure CurrencyCode where
  text : String
  letters : ∀ c ∈ text.toList, c.isAlpha = true

/-- The symbols of `_currency_symbol`. -/
def currencySymbols : List (String × String) :=
  [("USD", "$"), ("INR", "₹"), ("GBP", "£"), ("EUR", "€"), ("JPY", "¥"), ("CNY", "¥"),
    ("AUD", "A$"), ("CAD", "CA$"), ("HKD", "HK$"), ("SGD", "S$")]

/-- `_currency_symbol`. -/
def currencySymbol (code : CurrencyCode) : List Char :=
  let key := if code.text = "" then "USD" else code.text
  match currencySymbols.lookup (asciiUpper key) with
  | some symbol => symbol.toList
  | none => if code.text = "" then "$".toList else code.text.toList

theorem mem_of_lookup {α β : Type*} [BEq α] [LawfulBEq α] {l : List (α × β)} {k : α} {v : β}
    (h : l.lookup k = some v) : (k, v) ∈ l := by
  induction l with
  | nil => exact absurd h.symm (Option.some_ne_none v)
  | cons e l ih =>
      rw [List.lookup_cons] at h
      split at h
      · rename_i hKey
        cases h
        rw [eq_of_beq hKey]
        exact List.mem_cons_self
      · exact List.mem_cons_of_mem e (ih h)

theorem inline_currencySymbol (code : CurrencyCode) : Inline (currencySymbol code) := by
  unfold currencySymbol
  dsimp only
  split
  · rename_i symbol hSymbol
    have hAll : ∀ e ∈ currencySymbols, Inline e.2.toList := by decide
    exact hAll _ (mem_of_lookup hSymbol)
  · split
    · decide
    · refine inline_of_alphanum fun c hc => .inl ?_
      rw [Char.isAlphanum, code.letters c hc, Bool.true_or]

/-- `str(date)`. -/
def isoDate (day : Nat) : List Char :=
  let month := monthOf day
  (toString (1970 + month / 12)).toList ++ '-' :: (padDigits 2 (month % 12 + 1) ++
    '-' :: padDigits 2 (day - monthStart month + 1))

theorem numeral_isoDate (day : Nat) : Numeral (isoDate day) := by
  have hDay := (numeral_padDigits 2 (day - monthStart (monthOf day) + 1)).cons (.inr (.inr rfl))
  have hMonth := (numeral_padDigits 2 (monthOf day % 12 + 1)).append hDay.2
  exact (numeral_toString _).append (hMonth.cons (.inr (.inr rfl))).2

end AsetPlatform.Reports
