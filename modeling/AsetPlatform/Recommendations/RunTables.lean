import AsetPlatform.Library.Months
import Mathlib.Data.List.Nodup

/-!
# Tables of recommendation runs

`backend/db/pg_stocks.py`: the statements on `recommendation_runs` and `recommendations` that
generating a run uses, each of which commits by itself, and the quota check of
`backend/jobs/recommendation_engine.py`. Columns that no statement here reads are left out.

Times are seconds, in UTC; a month is one of the clock of India.
-/

set_option autoImplicit false

namespace AsetPlatform.Recommendations

open AsetPlatform.Library

inductive Scope where
  | india
  | us
  deriving DecidableEq

/-- `run_type`. -/
inductive RunType where
  | manual
  | chat
  | scheduled
  /-- `_ADMIN_TEST_RUN_TYPE`. -/
  | adminTest
  deriving DecidableEq

/-- `run_data`. -/
structure RunData where
  runId : String
  userId : String
  runDate : Int
  runType : RunType
  scope : Scope
  deriving DecidableEq

/-- `RecommendationRun`. -/
structure RecommendationRun extends RunData where
  createdAt : Nat
  deriving DecidableEq

/-- `Recommendation.status`. -/
inductive Status where
  | active
  | actedOn
  | expired
  | other (name : String)
  deriving DecidableEq

/-- `Recommendation`. -/
structure Recommendation where
  id : String
  runId : String
  ticker : Option String
  status : Status
  deriving DecidableEq

/-- The tables, with their primary keys and the foreign key of the recommendations. -/
structure Tables where
  runs : List RecommendationRun
  recs : List Recommendation
  runs_nodup : (runs.map fun r => r.runId).Nodup
  recs_nodup : (recs.map Recommendation.id).Nodup
  recs_run : ∀ x ∈ recs, x.runId ∈ runs.map fun r => r.runId

/-! ## Months -/

/-- `_IST_TZ_NAME`: five and a half hours. -/
def istOffset : Nat := 19800

/-- `current_month_start_ist`, on the clock of India. -/
def currentMonthStartIst (now : Nat) : Nat := monthStart (monthAt istOffset now) * 86400

/-- `next_month_start_ist`. -/
def nextMonthStartIst (now : Nat) : Nat := monthStart (monthAt istOffset now + 1) * 86400

def istMonth (t : Nat) : Nat := monthAt istOffset t

theorem istMonth_mono {s t : Nat} (h : s ≤ t) : istMonth s ≤ istMonth t := monthAt_mono istOffset h

theorem lt_currentMonthStartIst_iff {created now : Nat} :
    created + istOffset < currentMonthStartIst now ↔ istMonth created < istMonth now := by
  have hdays : created + istOffset < currentMonthStartIst now ↔
      (created + istOffset) / 86400 < monthStart (monthAt istOffset now) := by
    rw [currentMonthStartIst, Nat.div_lt_iff_lt_mul (by decide)]
  rw [hdays, lt_monthStart_iff]
  exact Iff.rfl

/-! ## Statements -/

/-- `rec_rows`. -/
def recRows (runId : String) (rawRecs : List (String × Option String)) : List Recommendation :=
  rawRecs.map fun r => ⟨r.1, runId, r.2, .active⟩

namespace RecommendationRun

/-- The conditions on user, scope and run type that the queries share. -/
def isRunOf (userId : String) (scope : Scope) (r : RecommendationRun) : Prop :=
  r.userId = userId ∧ r.scope = scope ∧ r.runType ≠ .adminTest

instance (userId : String) (scope : Scope) (r : RecommendationRun) :
    Decidable (r.isRunOf userId scope) :=
  inferInstanceAs (Decidable (_ ∧ _))

end RecommendationRun

namespace Tables

/-- `insert_recommendation_run`, with `created_at` set by the server. A used key raises. -/
def insertRecommendationRun (t : Tables) (data : RunData) (now : Nat) : Option Tables :=
  if h : data.runId ∉ t.runs.map fun r => r.runId then
    some
      { t with
        runs := t.runs ++ [⟨data, now⟩]
        runs_nodup := by
          rw [List.map_append]
          exact t.runs_nodup.append (List.nodup_singleton _) (by simpa using h)
        recs_run := fun x hx => by
          rw [List.map_append]
          exact List.mem_append_left _ (t.recs_run x hx) }
  else none

/-- `insert_recommendations`: all rows in one commit, or an error. -/
def insertRecommendations (t : Tables) (rows : List Recommendation) : Option Tables :=
  if h : ((t.recs ++ rows).map Recommendation.id).Nodup ∧
      ∀ x ∈ rows, x.runId ∈ t.runs.map fun r => r.runId then
    some
      { t with
        recs := t.recs ++ rows
        recs_nodup := h.1
        recs_run := fun x hx => (List.mem_append.mp hx).elim (t.recs_run x) (h.2 x) }
  else none

/-- The runs whose recommendations `expire_old_recommendations` looks at. -/
def olderRunIds (t : Tables) (userId currentRunId : String) : List String :=
  let curScope := (t.runs.find? fun r => r.runId = currentRunId).map fun r => r.scope
  (t.runs.filter fun r =>
    r.userId = userId ∧ r.runId ≠ currentRunId ∧ ∀ s ∈ curScope, r.scope = s).map fun r => r.runId

def expireIn (runIds : List String) (x : Recommendation) : Recommendation :=
  if x.runId ∈ runIds ∧ x.status = .active then { x with status := .expired } else x

@[simp]
theorem expireIn_id (runIds : List String) (x : Recommendation) : (expireIn runIds x).id = x.id := by
  rw [expireIn]
  split
  · rfl
  · rfl

@[simp]
theorem expireIn_runId (runIds : List String) (x : Recommendation) :
    (expireIn runIds x).runId = x.runId := by
  rw [expireIn]
  split
  · rfl
  · rfl

/-- `expire_old_recommendations`. -/
def expireOldRecommendations (t : Tables) (userId currentRunId : String) : Tables :=
  { t with
    recs := t.recs.map (expireIn (t.olderRunIds userId currentRunId))
    recs_nodup := by
      rw [List.map_map, show Recommendation.id ∘ expireIn _ = Recommendation.id from
        funext (expireIn_id _)]
      exact t.recs_nodup
    recs_run := fun x hx => by
      obtain ⟨y, hy, rfl⟩ := List.mem_map.mp hx
      rw [expireIn_runId]
      exact t.recs_run y hy }

/-- The insert of the recommendations in `_persist`, if there are any. -/
def storeRecs (t : Tables) (runId : String) (rawRecs : List (String × Option String)) :
    Option Tables :=
  if rawRecs = [] then some t else t.insertRecommendations (recRows runId rawRecs)

/-- Only runs that are no tests expire the recommendations of others. -/
def supersede (t : Tables) (data : RunData) : Tables :=
  if data.runType = .adminTest then t else t.expireOldRecommendations data.userId data.runId

/-- The first row by descending time, then date. -/
def newest : List RecommendationRun → Option RecommendationRun
  | [] => none
  | r :: rs =>
      match newest rs with
      | none => some r
      | some s =>
          if r.createdAt < s.createdAt ∨ r.createdAt = s.createdAt ∧ r.runDate < s.runDate then some s
          else some r

/-- `get_latest_recommendation_run` with `exclude_test`. -/
def getLatestRecommendationRun (t : Tables) (userId : String) (scope : Scope) :
    Option RecommendationRun :=
  newest (t.runs.filter fun r => r.isRunOf userId scope)

/-- `get_recommendations_for_run`, without the order. -/
def getRecommendationsForRun (t : Tables) (runId : String) : List Recommendation :=
  t.recs.filter fun x => x.runId = runId

/-- `_fetch_cached`: the run of this month and its recommendations. -/
def fetchCached (t : Tables) (userId : String) (scope : Scope) (now : Nat) :
    Option (RecommendationRun × List Recommendation) :=
  (t.getLatestRecommendationRun userId scope).bind fun latest =>
    if latest.createdAt + istOffset < currentMonthStartIst now then none
    else some (latest, t.getRecommendationsForRun latest.runId)

/-- The count of `check_recommendation_quota`. -/
def runsUsed (t : Tables) (userId : String) (scope : Scope) (now : Nat) : Nat :=
  (t.runs.filter fun r =>
    r.isRunOf userId scope ∧ currentMonthStartIst now ≤ r.createdAt + istOffset).length

/-! ## What the statements do -/

variable {t t₁ : Tables} {data : RunData} {now : Nat}

theorem insertRecommendationRun_eq_some (h : t.insertRecommendationRun data now = some t₁) :
    data.runId ∉ t.runs.map (fun r => r.runId) ∧ t₁.runs = t.runs ++ [⟨data, now⟩] ∧
      t₁.recs = t.recs := by
  rw [insertRecommendationRun] at h
  split at h
  · rename_i hfresh
    cases h
    exact ⟨hfresh, rfl, rfl⟩
  · cases h

theorem insertRecommendationRun_eq_none :
    t.insertRecommendationRun data now = none ↔ data.runId ∈ t.runs.map fun r => r.runId := by
  rw [insertRecommendationRun]
  split
  · rename_i hfresh
    exact iff_of_false (by simp) hfresh
  · rename_i hused
    exact iff_of_true rfl (not_not.mp hused)

theorem insertRecommendations_eq_some {rows : List Recommendation}
    (h : t.insertRecommendations rows = some t₁) :
    t₁.runs = t.runs ∧ t₁.recs = t.recs ++ rows := by
  rw [insertRecommendations] at h
  split at h
  · cases h
    exact ⟨rfl, rfl⟩
  · cases h

theorem storeRecs_eq_some {runId : String} {rawRecs : List (String × Option String)}
    (h : t.storeRecs runId rawRecs = some t₁) :
    t₁.runs = t.runs ∧ t₁.recs = t.recs ++ recRows runId rawRecs := by
  rw [storeRecs] at h
  split at h
  · rename_i hnil
    cases h
    rw [hnil]
    exact ⟨rfl, (List.append_nil _).symm⟩
  · exact insertRecommendations_eq_some h

/-! ## What the lookup finds -/

variable {userId : String} {scope : Scope} {run : RecommendationRun} {recs : List Recommendation}

theorem newest_mem {runs : List RecommendationRun} (h : newest runs = some run) : run ∈ runs := by
  induction runs generalizing run with
  | nil => cases h
  | cons r rs ih =>
      rw [newest] at h
      split at h
      · cases h
        exact List.mem_cons_self
      · rename_i s hs
        split at h
        · cases h
          exact List.mem_cons_of_mem r (ih hs)
        · cases h
          exact List.mem_cons_self

theorem newest_eq_none_iff {runs : List RecommendationRun} : newest runs = none ↔ runs = [] := by
  cases runs with
  | nil => exact iff_of_true rfl rfl
  | cons r rs =>
      refine iff_of_false ?_ (List.cons_ne_nil r rs)
      rw [newest]
      split
      · exact Option.some_ne_none r
      · split
        · exact Option.some_ne_none _
        · exact Option.some_ne_none r

theorem createdAt_le_newest {runs : List RecommendationRun} (h : newest runs = some run) :
    ∀ r ∈ runs, r.createdAt ≤ run.createdAt := by
  induction runs generalizing run with
  | nil => cases h
  | cons r rs ih =>
      rw [newest] at h
      rw [List.forall_mem_cons]
      split at h
      · rename_i hnone
        cases h
        rw [newest_eq_none_iff.mp hnone]
        exact ⟨le_refl _, fun _ hx => absurd hx List.not_mem_nil⟩
      · rename_i s hs
        split at h
        · rename_i holder
          cases h
          exact ⟨by omega, ih hs⟩
        · rename_i hnewer
          cases h
          exact ⟨le_refl _, fun x hx => (ih hs x hx).trans (by omega)⟩

theorem fetchCached_eq_some (h : t.fetchCached userId scope now = some (run, recs)) :
    run ∈ t.runs ∧ run.isRunOf userId scope ∧ istMonth now ≤ istMonth run.createdAt := by
  obtain ⟨latest, hlatest, h⟩ := Option.bind_eq_some_iff.mp h
  have hmem := List.mem_filter.mp (newest_mem hlatest)
  split at h
  · cases h
  · rename_i hmonth
    cases h
    exact ⟨hmem.1, by simpa using hmem.2, not_lt.mp fun hlt =>
      hmonth (lt_currentMonthStartIst_iff.mpr hlt)⟩

theorem fetchCached_eq_none_iff :
    t.fetchCached userId scope now = none ↔
      ∀ r ∈ t.runs, r.isRunOf userId scope → istMonth r.createdAt < istMonth now := by
  rw [fetchCached]
  cases hlatest : t.getLatestRecommendationRun userId scope with
  | none =>
      have hnil := newest_eq_none_iff.mp hlatest
      refine iff_of_true (Option.bind_none _) fun r hr hof => ?_
      have hin : r ∈ t.runs.filter fun r => r.isRunOf userId scope :=
        List.mem_filter.mpr ⟨hr, by simpa using hof⟩
      rw [hnil] at hin
      cases hin
  | some latest =>
      have hmem := List.mem_filter.mp (newest_mem hlatest)
      have hnewest : ∀ r ∈ t.runs, r.isRunOf userId scope → r.createdAt ≤ latest.createdAt :=
        fun r hr hof =>
          createdAt_le_newest hlatest r (List.mem_filter.mpr ⟨hr, by simpa using hof⟩)
      rw [Option.bind_some]
      by_cases hmonth : istMonth latest.createdAt < istMonth now
      · rw [if_pos (lt_currentMonthStartIst_iff.mpr hmonth)]
        refine iff_of_true rfl fun r hr hof => ?_
        exact lt_of_le_of_lt (istMonth_mono (hnewest r hr hof)) hmonth
      · rw [if_neg (mt lt_currentMonthStartIst_iff.mp hmonth)]
        exact iff_of_false (by simp) fun h => hmonth (h latest hmem.1 (by simpa using hmem.2))

theorem runsUsed_eq_zero_iff :
    t.runsUsed userId scope now = 0 ↔ t.fetchCached userId scope now = none := by
  rw [runsUsed, List.length_eq_zero_iff, List.filter_eq_nil_iff, fetchCached_eq_none_iff]
  refine forall₂_congr fun r hr => ?_
  rw [decide_eq_true_eq, not_and, not_le, lt_currentMonthStartIst_iff]

end Tables

end AsetPlatform.Recommendations
