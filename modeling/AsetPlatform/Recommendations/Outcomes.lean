import AsetPlatform.Library.Floats
import AsetPlatform.Recommendations.RunTables
import Mathlib.Data.List.Infix

/-!
# Outcomes of recommendations

`backend/jobs/executor.py`, `execute_run_recommendation_outcomes`: a daily job that computes what
became of each recommendation 7, 30, 60 and 90 days after it was made, from the first close stored
at or after the target day, and expires the active ones that are older than that.

Days are numbers. A float is a rational or NaN (`none`); NaN compares false with everything and is
not falsy. The OHLCV table has at most one row for a ticker and a day. The job commits three times
at most; each query and commit may fail, and the job may be cancelled.
-/

set_option autoImplicit false

namespace AsetPlatform.Recommendations.Outcomes

open AsetPlatform.Library

/-- The columns of `Recommendation` that the job reads. -/
structure Recommendation where
  id : String
  ticker : Option String
  action : String
  priceAtRec : Option (Option ℚ)
  createdDate : Int
  status : Status

inductive Label where
  | correct
  | incorrect
  | neutral
  deriving DecidableEq

/-- `RecommendationOutcome`. -/
structure Outcome where
  recommendationId : String
  checkDate : Int
  daysElapsed : Int
  actualPrice : Option ℚ
  returnPct : Option ℚ
  benchmarkReturnPct : ℚ
  excessReturnPct : Option ℚ
  outcomeLabel : Label

/-- The columns of `uq_rec_outcome_rec_days`. -/
def Outcome.key (o : Outcome) : String × Int := (o.recommendationId, o.daysElapsed)

/-- The closes by ticker and day: no row, a row without a close (NaN), or a close. -/
abbrev Closes := String → Int → Option (Option ℚ)

/-- The tables with their key constraints. -/
structure World where
  recs : List Recommendation
  outcomes : List Outcome
  closes : Closes
  ids_nodup : (recs.map Recommendation.id).Nodup
  keys_nodup : (outcomes.map Outcome.key).Nodup

/-- What goes wrong during a run. `cancelAt` is the number of recommendations after which the
cancel event is seen. -/
structure Faults where
  dueQuery : Bool := false
  closeFetch : Bool := false
  cancelAt : Option Nat := none
  insert : Bool := false
  expire : Bool := false

/-! ## The label -/

/-- `compute_outcome_label`. -/
def computeOutcomeLabel (action : String) (returnPct : Option ℚ) : Label :=
  if action.toLower ∈ ["buy", "accumulate"] then
    if above returnPct 2 then .correct
    else if below returnPct (-2) then .incorrect
    else .neutral
  else if action.toLower ∈ ["sell", "reduce"] then
    if below returnPct (-2) then .correct
    else if above returnPct 2 then .incorrect
    else .neutral
  else if action.toLower = "hold" then
    if below (returnPct.map abs) 10 then .correct else .incorrect
  else .neutral

/-! ## What is due -/

/-- `_HORIZONS`. -/
def horizons : List Int := [7, 30, 60, 90]

/-- An element of `due_recs`. -/
structure Due where
  recommendation : Recommendation
  days : Int

def Due.key (d : Due) : String × Int := (d.recommendation.id, d.days)

/-- A truthy ticker. -/
def Recommendation.symbol (r : Recommendation) : Option String := r.ticker.filter (· ≠ "")

/-- A truthy price. -/
def Recommendation.price (r : Recommendation) : Option (Option ℚ) :=
  r.priceAtRec.filter (· ≠ some 0)

namespace World

def keys (w : World) : List (String × Int) := w.outcomes.map Outcome.key

/-- The `where` of the query for one horizon. -/
def isDue (w : World) (today days : Int) (r : Recommendation) : Prop :=
  (r.status = .active ∨ r.status = .actedOn) ∧ r.ticker.isSome ∧ r.createdDate ≤ today - days ∧
    (r.id, days) ∉ w.keys

instance (w : World) (today days : Int) (r : Recommendation) : Decidable (w.isDue today days r) :=
  inferInstanceAs (Decidable (_ ∧ _))

/-- `_get_due`. -/
def getDue (w : World) (today : Int) : List Due :=
  horizons.flatMap fun days => (w.recs.filter fun r => w.isDue today days r).map fun r => ⟨r, days⟩

end World

/-! ## Closes -/

def target (today : Int) (d : Due) : Int := min (d.recommendation.createdDate + d.days) today

/-- `close_map`: the rows of the tickers of `due_recs` between the first target and six days after
the last one. -/
def closeMap (today : Int) (due : List Due) (closes : Closes) : Closes :=
  let tickers := due.filterMap fun d => d.recommendation.symbol
  let targets := (due.filter fun d => d.recommendation.symbol.isSome).map (target today)
  fun ticker day =>
    match targets.min?, targets.max? with
    | some dMin, some last =>
        if ticker ∈ tickers ∧ dMin ≤ day ∧ day ≤ min (last + 6) today then closes ticker day else none
    | _, _ => none

/-- `_resolve_close`: the first stored row on `target` or one of the six days after it, up to
today. -/
def resolveClose (today : Int) (closes : Closes) (ticker : String) (target : Int) :
    Option (Option ℚ × Int) :=
  (List.range 7).findSome? fun offset : Nat =>
    let day := target + (offset : Int)
    if today < day then none else (closes ticker day).map fun close => (close, day)

/-- The body of the loop over `due_recs`: the outcome of one recommendation, if there is one. -/
def evaluate (today : Int) (closes : Closes) (d : Due) : Option Outcome :=
  d.recommendation.price.bind fun price =>
    d.recommendation.symbol.bind fun ticker =>
      (resolveClose today closes ticker (target today d)).map fun resolved =>
        let returnPct := resolved.1.bind fun v => price.map fun p => (v - p) / p * 100
        { recommendationId := d.recommendation.id
          checkDate := resolved.2
          daysElapsed := d.days
          actualPrice := resolved.1
          returnPct := returnPct.map round2
          benchmarkReturnPct := round2 0
          excessReturnPct := returnPct.map fun x => round2 (x - 0)
          outcomeLabel := computeOutcomeLabel d.recommendation.action returnPct }

/-! ## The job -/

/-- The recommendations that the loop gets to. -/
def reached (f : Faults) (due : List Due) : List Due := due.take (f.cancelAt.getD due.length)

/-- What `query_iceberg_df` leaves in `close_map`. -/
def fetchedCloses (f : Faults) (today : Int) (due : List Due) (closes : Closes) : Closes :=
  if f.closeFetch then fun _ _ => none else closeMap today due closes

/-- `outcomes_to_insert`. -/
def outcomesToInsert (f : Faults) (today : Int) (due : List Due) (closes : Closes) : List Outcome :=
  (reached f due).filterMap (evaluate today (fetchedCloses f today due closes))

/-- The `values(status="expired")` of a stale recommendation. -/
def Recommendation.expireStale (today : Int) (r : Recommendation) : Recommendation :=
  if r.status = .active ∧ r.createdDate < today - 90 then { r with status := .expired } else r

@[simp]
theorem Recommendation.expireStale_id (today : Int) (r : Recommendation) :
    (r.expireStale today).id = r.id := by
  rw [Recommendation.expireStale]
  split
  · rfl
  · rfl

namespace World

theorem ids_map (w : World) (f : Recommendation → Recommendation) (hf : ∀ r, (f r).id = r.id) :
    ((w.recs.map f).map Recommendation.id).Nodup := by
  rw [List.map_map, show Recommendation.id ∘ f = Recommendation.id from funext hf]
  exact w.ids_nodup

/-- The update that expires stale recommendations, unless it fails. -/
def expireStale (w : World) (f : Faults) (today : Int) : World :=
  if f.expire then w
  else
    { w with
      recs := w.recs.map (Recommendation.expireStale today)
      ids_nodup := w.ids_map _ (Recommendation.expireStale_id today) }

/-- The commit of all new outcomes. It raises if one of them breaks the constraint. -/
def insertOutcomes (w : World) (f : Faults) (outs : List Outcome) : Option World :=
  if h : ¬f.insert ∧ ((w.outcomes ++ outs).map Outcome.key).Nodup then
    some { w with outcomes := w.outcomes ++ outs, keys_nodup := h.2 }
  else none

/-- `execute_run_recommendation_outcomes`. -/
def runRecommendationOutcomes (w : World) (today : Int) (f : Faults) : World :=
  if f.dueQuery then w
  else
    match w.getDue today with
    | [] => w.expireStale f today
    | d :: ds =>
        match outcomesToInsert f today (d :: ds) w.closes with
        | [] => w
        | o :: os =>
            match w.insertOutcomes f (o :: os) with
            | none => w
            | some w' => w'.expireStale f today

end World

/-! ## What the queries return -/

variable {w : World} {f : Faults} {today : Int} {closes : Closes} {d : Due}

theorem symbol_eq_some {r : Recommendation} {t : String} :
    r.symbol = some t ↔ r.ticker = some t ∧ t ≠ "" := by
  simp [Recommendation.symbol, Option.filter_eq_some_iff]

theorem mem_getDue_iff :
    d ∈ w.getDue today ↔
      d.days ∈ horizons ∧ d.recommendation ∈ w.recs ∧ w.isDue today d.days d.recommendation := by
  simp only [World.getDue, List.mem_flatMap, List.mem_map, List.mem_filter, decide_eq_true_eq]
  constructor
  · rintro ⟨days, hdays, r, ⟨hr, hdue⟩, rfl⟩
    exact ⟨hdays, hr, hdue⟩
  · rintro ⟨hdays, hr, hdue⟩
    exact ⟨d.days, hdays, d.recommendation, ⟨hr, hdue⟩, rfl⟩

theorem getDue_keys_nodup (w : World) (today : Int) : ((w.getDue today).map Due.key).Nodup := by
  rw [World.getDue, List.map_flatMap, List.nodup_flatMap]
  constructor
  · intro days _
    rw [List.map_map]
    have hids : ((w.recs.filter fun r => w.isDue today days r).map Recommendation.id).Nodup :=
      w.ids_nodup.sublist (List.filter_sublist.map _)
    have hpair := hids.map (f := fun id => (id, days)) fun a b h => (Prod.mk.inj h).1
    rwa [List.map_map] at hpair
  · have hne : horizons.Pairwise (· ≠ ·) := by decide
    refine hne.imp ?_
    intro a b hab x hx hy
    simp only [List.map_map, List.mem_map, Function.comp, Due.key] at hx hy
    obtain ⟨r, -, rfl⟩ := hx
    obtain ⟨r', -, h⟩ := hy
    exact hab (Prod.mk.inj h).2.symm

theorem reached_sublist (f : Faults) (due : List Due) : (reached f due).Sublist due :=
  List.take_sublist _ _

theorem reached_of_not_cancelled (hf : f.cancelAt = none) (due : List Due) :
    reached f due = due := by
  rw [reached, hf, Option.getD_none, List.take_length]

theorem mem_of_reached {due : List Due} (h : d ∈ reached f due) : d ∈ due :=
  (reached_sublist f due).subset h

/-! ## What the close map returns -/

def InWindow (today start day : Int) : Prop := start ≤ day ∧ day ≤ start + 6 ∧ day ≤ today

instance (today start day : Int) : Decidable (InWindow today start day) :=
  inferInstanceAs (Decidable (_ ∧ _))

theorem target_of_due (hd : d ∈ w.getDue today) :
    target today d = d.recommendation.createdDate + d.days := by
  have hle : d.recommendation.createdDate ≤ today - d.days := (mem_getDue_iff.mp hd).2.2.2.2.1
  rw [target]
  omega

theorem closeMap_eq {due : List Due} {ticker : String} {day : Int} (hd : d ∈ due)
    (ht : d.recommendation.symbol = some ticker) (hday : InWindow today (target today d) day) :
    closeMap today due closes ticker day = closes ticker day := by
  have htarget : target today d ∈
      (due.filter fun d => d.recommendation.symbol.isSome).map (target today) :=
    List.mem_map_of_mem (List.mem_filter.mpr ⟨hd, by rw [ht]; rfl⟩)
  have hticker : ticker ∈ due.filterMap fun d => d.recommendation.symbol :=
    List.mem_filterMap.mpr ⟨d, hd, ht⟩
  obtain ⟨hlow, hhigh, htoday⟩ := hday
  simp only [closeMap]
  generalize (due.filter fun d => d.recommendation.symbol.isSome).map (target today) = targets
    at htarget ⊢
  obtain ⟨dMin, hmin⟩ : ∃ dMin, targets.min? = some dMin :=
    Option.ne_none_iff_exists'.mp fun h => by simp [List.min?_eq_none_iff.mp h] at htarget
  obtain ⟨last, hmax⟩ : ∃ last, targets.max? = some last :=
    Option.ne_none_iff_exists'.mp fun h => by simp [List.max?_eq_none_iff.mp h] at htarget
  have hdMin : dMin ≤ target today d := (List.min?_eq_some_iff.mp hmin).2 _ htarget
  have hlast : target today d ≤ last := (List.max?_eq_some_iff.mp hmax).2 _ htarget
  rw [hmin, hmax]
  exact if_pos ⟨hticker, by omega, by omega⟩

theorem findSome?_congr {α β : Type} {g h : α → Option β} {l : List α}
    (hgh : ∀ x ∈ l, g x = h x) : l.findSome? g = l.findSome? h := by
  induction l with
  | nil => rfl
  | cons x l ih =>
      rw [List.findSome?_cons, List.findSome?_cons, hgh x List.mem_cons_self,
        ih fun y hy => hgh y (List.mem_cons_of_mem x hy)]

theorem resolveClose_congr {closes' : Closes} {ticker : String} {start : Int}
    (h : ∀ day, InWindow today start day → closes ticker day = closes' ticker day) :
    resolveClose today closes ticker start = resolveClose today closes' ticker start := by
  refine findSome?_congr fun offset hoffset => ?_
  have hlt : offset < 7 := List.mem_range.mp hoffset
  by_cases htoday : today < start + (offset : Int)
  · simp only [if_pos htoday]
  · simp only [if_neg htoday, h (start + offset) ⟨by omega, by omega, by omega⟩]

theorem resolveClose_isSome_iff {ticker : String} {start : Int} :
    (resolveClose today closes ticker start).isSome ↔
      ∃ day, InWindow today start day ∧ (closes ticker day).isSome := by
  rw [resolveClose, List.findSome?_isSome_iff]
  constructor
  · rintro ⟨offset, hoffset, hsome⟩
    have hlt : offset < 7 := List.mem_range.mp hoffset
    by_cases htoday : today < start + (offset : Int)
    · simp [if_pos htoday] at hsome
    · simp only [if_neg htoday, Option.isSome_map] at hsome
      exact ⟨start + offset, ⟨by omega, by omega, by omega⟩, hsome⟩
  · rintro ⟨day, ⟨hlow, hhigh, htoday⟩, hsome⟩
    have hday : start + ((day - start).toNat : Int) = day := by omega
    refine ⟨(day - start).toNat, List.mem_range.mpr (by omega), ?_⟩
    simp only [hday, if_neg (not_lt.mpr htoday), Option.isSome_map]
    exact hsome

/-! ## What the loop computes -/

theorem evaluate_key {o : Outcome} (h : evaluate today closes d = some o) : o.key = d.key := by
  simp only [evaluate, Option.bind_eq_some_iff, Option.map_eq_some_iff] at h
  obtain ⟨price, -, ticker, -, resolved, -, rfl⟩ := h
  rfl

/-- A row is stored in the window of a horizon of the recommendation. -/
def HasRow (closes : Closes) (today : Int) (r : Recommendation) (days : Int) : Prop :=
  ∃ ticker ∈ r.symbol, ∃ day, InWindow today (r.createdDate + days) day ∧ (closes ticker day).isSome

theorem evaluate_isSome_iff (hd : target today d = d.recommendation.createdDate + d.days) :
    (evaluate today closes d).isSome ↔
      d.recommendation.price.isSome ∧ HasRow closes today d.recommendation d.days := by
  rw [evaluate, HasRow, hd]
  cases d.recommendation.price with
  | none => simp
  | some price =>
      cases d.recommendation.symbol with
      | none => simp
      | some ticker =>
          simp only [Option.bind_some, Option.isSome_map, Option.isSome_some, true_and,
            Option.mem_def, Option.some.injEq, exists_eq_left', resolveClose_isSome_iff]

theorem evaluate_closeMap {due : List Due} (hd : d ∈ due) :
    evaluate today (closeMap today due closes) d = evaluate today closes d := by
  rw [evaluate, evaluate]
  cases hticker : d.recommendation.symbol with
  | none => rfl
  | some ticker =>
      simp only [Option.bind_some]
      rw [resolveClose_congr fun day hday => closeMap_eq hd hticker hday]

theorem evaluate_noCloses : evaluate today (fun _ _ => none) d = none := by
  have hnone : ∀ ticker start, resolveClose today (fun _ _ => none) ticker start = none := by
    intro ticker start
    rw [← Option.not_isSome_iff_eq_none, resolveClose_isSome_iff]
    rintro ⟨day, -, hsome⟩
    exact absurd hsome (by simp)
  simp only [evaluate, hnone, Option.map_none, Option.bind_fun_none]

theorem mem_outcomesToInsert_iff {due : List Due} {o : Outcome} :
    o ∈ outcomesToInsert f today due closes ↔
      ¬f.closeFetch ∧ ∃ d ∈ reached f due, evaluate today closes d = some o := by
  rw [outcomesToInsert, List.mem_filterMap, fetchedCloses]
  by_cases hfetch : f.closeFetch
  · simp [hfetch, evaluate_noCloses]
  · simp only [hfetch, if_false, Bool.false_eq_true, not_false_eq_true, true_and]
    refine exists_congr fun d => and_congr_right fun hd => ?_
    rw [evaluate_closeMap (mem_of_reached hd)]

theorem filterMap_map_sublist {α β γ : Type} {g : α → Option β} {keyB : β → γ} {keyA : α → γ}
    (hg : ∀ a b, g a = some b → keyB b = keyA a) (l : List α) :
    ((l.filterMap g).map keyB).Sublist (l.map keyA) := by
  induction l with
  | nil => exact List.Sublist.refl _
  | cons a l ih =>
      cases hga : g a with
      | none =>
          rw [List.filterMap_cons_none hga]
          exact ih.cons _
      | some b =>
          rw [List.filterMap_cons_some hga, List.map_cons, List.map_cons, hg a b hga]
          exact ih.cons_cons _

theorem outcomesToInsert_keys_nodup :
    ((outcomesToInsert f today (w.getDue today) closes).map Outcome.key).Nodup := by
  refine (getDue_keys_nodup w today).sublist ?_
  refine List.Sublist.trans ?_ ((reached_sublist f _).map Due.key)
  exact filterMap_map_sublist (fun d o h => evaluate_key h) _

end AsetPlatform.Recommendations.Outcomes
