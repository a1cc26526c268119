import AsetPlatform.Library.Run
import AsetPlatform.Library.Spans
import AsetPlatform.StockData.InsertOhlcv

/-!
# LLM price intervals

`add_pricing` and `update_pricing` of `stocks/repository.py`, on the table `stocks.llm_pricing`. An
update reads the whole table, ends the open interval of its provider and model the day before the new
rate, and overwrites the table; the new rate is appended in a commit of its own. A table that cannot be
read counts as an empty one, and an empty one is not overwritten.
-/

set_option autoImplicit false

namespace AsetPlatform.StockData

open AsetPlatform.Library

universe u

/-- A row of `stocks.llm_pricing`. Days are ordinals. -/
structure PriceRow where
  pricingId : String
  provider : String
  model : String
  inputCostPer1m : ℚ
  outputCostPer1m : ℚ
  effectiveFrom : Int
  effectiveTo : Option Int
  currency : String
  updatedBy : Option String
  createdAt : Int
  deriving DecidableEq

/-- The arguments of `add_pricing` and of `update_pricing`. -/
structure PricingArgs where
  provider : String
  model : String
  inputCost : ℚ
  outputCost : ℚ
  effectiveFrom : Int
  updatedBy : Option String := none
  deriving DecidableEq

def PriceRow.pair (r : PriceRow) : String × String := (r.provider, r.model)

def PricingArgs.pair (a : PricingArgs) : String × String := (a.provider, a.model)

/-- The row that `add_pricing` writes, with its `uuid4` and its time. -/
def PricingArgs.row (a : PricingArgs) (pid : String) (now : Int) : PriceRow where
  pricingId := pid
  provider := a.provider
  model := a.model
  inputCostPer1m := a.inputCost
  outputCostPer1m := a.outputCost
  effectiveFrom := a.effectiveFrom
  effectiveTo := none
  currency := "USD"
  updatedBy := a.updatedBy
  createdAt := now

/-- `date.min.toordinal()`. -/
def dateMin : Int := 1

/-- The rows with no `effective_to`. -/
def getCurrentPricing (t : List PriceRow) : List PriceRow := t.filter (·.effectiveTo.isNone)

def addPricing (t : List PriceRow) (a : PricingArgs) (pid : String) (now : Int) : List PriceRow :=
  t ++ [a.row pid now]

/-- `df.loc[mask, "effective_to"] = close_date`, on one row. -/
def PricingArgs.closeRate (a : PricingArgs) (r : PriceRow) : PriceRow :=
  if r.provider = a.provider ∧ r.model = a.model ∧ r.effectiveTo = none then
    { r with effectiveTo := some (a.effectiveFrom - 1) }
  else r

def closeRates (df : List PriceRow) (a : PricingArgs) : List PriceRow := df.map a.closeRate

/-- The table after an update, or `none` when the day before the new rate overflows. -/
def updatePricing (t : List PriceRow) (a : PricingArgs) (pid : String) (now : Int) :
    Option (List PriceRow) :=
  if t = [] then some (addPricing t a pid now)
  else if a.effectiveFrom = dateMin then none
  else some (addPricing (closeRates t a) a pid now)

/-! ## The intervals of a provider and model -/

def PriceRow.span (r : PriceRow) : Span := ⟨r.effectiveFrom, r.effectiveTo⟩

/-- The intervals that the table has for a provider and model. -/
def intervals (p : String × String) (t : List PriceRow) : List Span :=
  (t.filter (·.pair = p)).map PriceRow.span

section Intervals

variable {t : List PriceRow} {a : PricingArgs} {p : String × String} {pid : String} {now : Int}

@[simp]
theorem intervals_nil : intervals p [] = [] := rfl

theorem intervals_addPricing :
    intervals a.pair (addPricing t a pid now) = intervals a.pair t ++ [Span.from_ a.effectiveFrom] := by
  have hRow : [a.row pid now].filter (·.pair = a.pair) = [a.row pid now] :=
    List.filter_cons_of_pos (decide_eq_true rfl)
  rw [intervals, addPricing, List.filter_append, hRow, List.map_append]
  rfl

theorem intervals_addPricing_of_ne (h : a.pair ≠ p) :
    intervals p (addPricing t a pid now) = intervals p t := by
  have hRow : [a.row pid now].filter (·.pair = p) = [] :=
    List.filter_cons_of_neg fun hPair => h (of_decide_eq_true hPair)
  rw [intervals, addPricing, List.filter_append, hRow, List.append_nil]
  rfl

@[simp]
theorem pair_closeRate (r : PriceRow) : (a.closeRate r).pair = r.pair := by
  rw [PricingArgs.closeRate]
  split <;> rfl

theorem span_closeRate {r : PriceRow} (h : r.pair = a.pair) :
    (a.closeRate r).span = r.span.close a.effectiveFrom := by
  have hProvider : r.provider = a.provider := congrArg Prod.fst h
  have hModel : r.model = a.model := congrArg Prod.snd h
  rw [PricingArgs.closeRate, Span.close]
  by_cases hOpen : r.effectiveTo = none
  · have hEndless : r.span.Endless := hOpen
    rw [if_pos ⟨hProvider, hModel, hOpen⟩, if_pos hEndless]
    rfl
  · have hEnds : ¬r.span.Endless := hOpen
    rw [if_neg fun hMask => hOpen hMask.2.2, if_neg hEnds]

theorem closeRate_of_ne {r : PriceRow} (h : r.pair ≠ a.pair) : a.closeRate r = r := by
  rw [PricingArgs.closeRate, if_neg]
  rintro ⟨hProvider, hModel, -⟩
  exact h (Prod.ext hProvider hModel)

theorem filter_closeRates : (closeRates t a).filter (·.pair = p) = (t.filter (·.pair = p)).map a.closeRate := by
  rw [closeRates, List.filter_map]
  congr 1
  apply List.filter_congr
  intro r _
  rw [Function.comp_apply, pair_closeRate]

theorem intervals_closeRates :
    intervals a.pair (closeRates t a) = (intervals a.pair t).map (Span.close a.effectiveFrom) := by
  rw [intervals, filter_closeRates, intervals, List.map_map, List.map_map]
  apply List.map_congr_left
  intro r hr
  exact span_closeRate (of_decide_eq_true (List.mem_filter.mp hr).2)

theorem intervals_closeRates_of_ne (h : a.pair ≠ p) : intervals p (closeRates t a) = intervals p t := by
  rw [intervals, filter_closeRates, intervals, List.map_map]
  apply List.map_congr_left
  intro r hr
  have hPair : r.pair = p := of_decide_eq_true (List.mem_filter.mp hr).2
  rw [Function.comp_apply, closeRate_of_ne (hPair ▸ Ne.symm h)]

/-- An update of a pair that has rates keeps them a function of time just when the open one does not
start after the new one, or none starts before the open one. -/
theorem updatePricing_partition_iff (h : Spans.Partition (intervals a.pair t))
    (hMin : a.effectiveFrom ≠ dateMin) :
    (∃ t', updatePricing t a pid now = some t' ∧ Spans.Partition (intervals a.pair t')) ↔
      Spans.InOrder a.effectiveFrom (intervals a.pair t) := by
  have hTable : t ≠ [] := by
    rintro rfl
    exact h.ne_nil rfl
  rw [updatePricing, if_neg hTable, if_neg hMin, ← h.replace_iff, ← intervals_closeRates,
    ← @intervals_addPricing (closeRates t a) a pid now]
  simp

end Intervals

/-! ## Callers -/

inductive PricingPhase where
  | idle
  | reading (a : PricingArgs)
  /-- About to overwrite the table with the frame it has read, its rate closed. -/
  | overwriting (a : PricingArgs) (df : List PriceRow)
  | appending (a : PricingArgs)
  deriving DecidableEq

/-- The table, where each caller is, and the calls that have returned with their ids. -/
structure PricingWorld (κ : Type u) where
  table : List PriceRow
  phase : κ → PricingPhase
  returned : List (PricingArgs × String)

inductive PricingEvent (κ : Type u) where
  | add (k : κ) (a : PricingArgs)
  | update (k : κ) (a : PricingArgs)
  | read (k : κ) (ok : Bool)
  | overwrite (k : κ) (commit : Commit)
  | append (k : κ) (pid : String) (now : Int) (commit : Commit)

namespace PricingWorld

variable {κ : Type u} [DecidableEq κ]

def start : PricingWorld κ := ⟨[], fun _ => .idle, []⟩

def goTo (w : PricingWorld κ) (k : κ) (ph : PricingPhase) : PricingWorld κ :=
  { w with phase := Function.update w.phase k ph }

theorem goTo_self (w : PricingWorld κ) (k : κ) (ph : PricingPhase) : (w.goTo k ph).phase k = ph := by
  simp only [goTo, Function.update_self]

theorem goTo_of_ne (w : PricingWorld κ) {k j : κ} (ph : PricingPhase) (h : j ≠ k) :
    (w.goTo k ph).phase j = w.phase j := by
  simp only [goTo, Function.update_of_ne h, ne_eq, not_false_eq_true]

def step (w : PricingWorld κ) : PricingEvent κ → PricingWorld κ
  | .add k a => if w.phase k = .idle then w.goTo k (.appending a) else w
  | .update k a => if w.phase k = .idle then w.goTo k (.reading a) else w
  | .read k ok =>
      match w.phase k with
      | .reading a =>
          -- a failed read is an empty frame
          let df := if ok then w.table else []
          if df = [] then w.goTo k (.appending a)
          else if a.effectiveFrom = dateMin then w.goTo k .idle
          else w.goTo k (.overwriting a df)
      | _ => w
  | .overwrite k commit =>
      match w.phase k with
      | .overwriting a df =>
          { w.goTo k (if commit = .done then .appending a else .idle) with
            table := if commit = .refused then w.table else closeRates df a }
      | _ => w
  | .append k pid now commit =>
      match w.phase k with
      | .appending a =>
          { w.goTo k .idle with
            table := if commit = .refused then w.table else addPricing w.table a pid now
            returned := if commit = .done then w.returned ++ [(a, pid)] else w.returned }
      | _ => w

/-- Uninterrupted, the steps of an update are the update. -/
theorem runFrom_updatePricing (w : PricingWorld κ) (k : κ) (a : PricingArgs) (pid : String) (now : Int)
    (hIdle : w.phase k = .idle) :
    (runFrom step w [.update k a, .read k true, .overwrite k .done, .append k pid now .done]).table =
      (updatePricing w.table a pid now).getD w.table := by
  simp only [runFrom_cons, runFrom_nil, step, hIdle, if_true, goTo, Function.update_self, updatePricing]
  by_cases hTable : w.table = []
  · simp [hTable]
  · by_cases hMin : a.effectiveFrom = dateMin
    · simp [hTable, hMin]
    · simp [hTable, hMin]

end PricingWorld

end AsetPlatform.StockData
