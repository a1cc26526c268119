import AsetPlatform.Recommendations.Outcomes

/-!
# Recommendations due for an outcome check

`get_recommendations_due_for_outcome` of `backend/db/pg_stocks.py`, beside the query of the outcome job.
The job leaves out the recommendations that are among the checked ones of a horizon. Here the subquery
asks whether there is a checked one at all, so that one outcome hides every recommendation of its
horizon (`due_exact_iff`).
-/

set_option autoImplicit false

namespace AsetPlatform.Recommendations.Outcomes

/-- The horizons of the loop. -/
def checkHorizons : List Int := [30, 60, 90]

namespace World

variable (w : World) (today : Int)

/-- `checked`: the subquery names no column of the recommendation, and nothing ties it to one. -/
def checked (days : Int) : Prop := ∃ o ∈ w.outcomes, o.daysElapsed = days

instance checkedDecidable (days : Int) : Decidable (w.checked days) :=
  inferInstanceAs (Decidable (∃ o ∈ w.outcomes, o.daysElapsed = days))

/-- Active, and at least so many days old. -/
def Ripe (days : Int) (r : Recommendation) : Prop := r.status = .active ∧ r.createdDate ≤ today - days

instance ripeDecidable (days : Int) (r : Recommendation) : Decidable (Ripe today days r) :=
  inferInstanceAs (Decidable (_ ∧ _))

def getRecommendationsDueForOutcome : List Due :=
  checkHorizons.flatMap fun days =>
    (w.recs.filter fun r => Ripe today days r ∧ ¬w.checked days).map fun r => ⟨r, days⟩

/-- The part of a list of due recommendations for one horizon. -/
def dueAt (days : Int) (due : List Due) : List Due := due.filter (·.days = days)

/-- The recommendations returned for a horizon are the ripe ones without an outcome at it. -/
def Exact (days : Int) : Prop :=
  (dueAt days (w.getRecommendationsDueForOutcome today)).Perm
    ((w.recs.filter fun r => Ripe today days r ∧ (r.id, days) ∉ w.keys).map fun r => ⟨r, days⟩)

/-- They are the active ones among those that the job selects. -/
def AgreesWithJob (days : Int) : Prop :=
  (dueAt days (w.getRecommendationsDueForOutcome today)).Perm
    ((dueAt days (w.getDue today)).filter fun d => d.recommendation.status = .active)

/-- Each ripe recommendation has an outcome at the horizon; or none has, and each ripe one has a
ticker. -/
def AllOrNone (days : Int) : Prop :=
  (∀ r ∈ w.recs, Ripe today days r → (r.id, days) ∈ w.keys) ∨
    (¬w.checked days ∧ ∀ r ∈ w.recs, Ripe today days r → r.ticker.isSome)

end World

/-! ## The two selections for one horizon -/

section Due

variable {w : World} {today days : Int}

theorem checked_of_mem_keys {id : String} (h : (id, days) ∈ w.keys) : w.checked days := by
  obtain ⟨o, ho, hKey⟩ := List.mem_map.mp h
  exact ⟨o, ho, congrArg Prod.snd hKey⟩

theorem dueAt_map (n : Int) (recs : List Recommendation) :
    World.dueAt days (recs.map fun r => ⟨r, n⟩) = if n = days then recs.map (fun r => ⟨r, n⟩) else [] := by
  split
  · rename_i hSame
    rw [World.dueAt, List.filter_eq_self]
    intro d hd
    obtain ⟨r, -, rfl⟩ := List.mem_map.mp hd
    exact decide_eq_true hSame
  · rename_i hOther
    rw [World.dueAt, List.filter_eq_nil_iff]
    intro d hd hDays
    obtain ⟨r, -, rfl⟩ := List.mem_map.mp hd
    exact hOther (of_decide_eq_true hDays)

/-- Of a loop over horizons, the part of one of them. -/
theorem dueAt_flatMap {hs : List Int} (hNodup : hs.Nodup) (hDays : days ∈ hs)
    (g : Int → List Recommendation) :
    World.dueAt days (hs.flatMap fun n => (g n).map fun r => ⟨r, n⟩) =
      (g days).map fun r => ⟨r, days⟩ := by
  have hNone : ∀ hs : List Int, days ∉ hs →
      World.dueAt days (hs.flatMap fun n => (g n).map fun r => ⟨r, n⟩) = [] := by
    intro hs hNot
    rw [World.dueAt, List.filter_eq_nil_iff]
    intro d hd hSame
    obtain ⟨n, hn, hd⟩ := List.mem_flatMap.mp hd
    obtain ⟨r, -, rfl⟩ := List.mem_map.mp hd
    exact hNot (of_decide_eq_true hSame ▸ hn)
  induction hs with
  | nil => exact absurd hDays List.not_mem_nil
  | cons n hs ih =>
      obtain ⟨hNew, hRest⟩ := List.nodup_cons.mp hNodup
      have hSplit : World.dueAt days ((n :: hs).flatMap fun n => (g n).map fun r => ⟨r, n⟩) =
          World.dueAt days ((g n).map fun r => ⟨r, n⟩) ++
            World.dueAt days (hs.flatMap fun n => (g n).map fun r => ⟨r, n⟩) := by
        rw [List.flatMap_cons]
        exact List.filter_append _ _
      rw [hSplit, dueAt_map]
      rcases List.mem_cons.mp hDays with rfl | hLater
      · rw [if_pos rfl, hNone hs hNew, List.append_nil]
      · have hOther : n ≠ days := by
          rintro rfl
          exact hNew hLater
        rw [if_neg hOther, List.nil_append]
        exact ih hRest hLater

theorem dueAt_getRecommendations (hDays : days ∈ checkHorizons) :
    World.dueAt days (w.getRecommendationsDueForOutcome today) =
      (w.recs.filter fun r => World.Ripe today days r ∧ ¬w.checked days).map fun r => ⟨r, days⟩ :=
  dueAt_flatMap (by decide) hDays fun days =>
    w.recs.filter fun r => World.Ripe today days r ∧ ¬w.checked days

theorem dueAt_getDue (hDays : days ∈ checkHorizons) :
    (World.dueAt days (w.getDue today)).filter (fun d => d.recommendation.status = .active) =
      (w.recs.filter fun r => World.Ripe today days r ∧ r.ticker.isSome ∧ (r.id, days) ∉ w.keys).map
        fun r => ⟨r, days⟩ := by
  have hJob : days ∈ horizons := List.mem_cons_of_mem 7 hDays
  rw [World.getDue, dueAt_flatMap (by decide) hJob fun days => w.recs.filter fun r => w.isDue today days r,
    List.filter_map, List.filter_filter]
  congr 1
  apply List.filter_congr
  intro r _
  rw [Function.comp_apply, ← Bool.decide_and, decide_eq_decide, World.isDue, World.Ripe]
  constructor
  · rintro ⟨hActive, -, hTicker, hOld, hNew⟩
    exact ⟨⟨hActive, hOld⟩, hTicker, hNew⟩
  · rintro ⟨⟨hActive, hOld⟩, hTicker, hNew⟩
    exact ⟨hActive, Or.inl hActive, hTicker, hOld, hNew⟩

/-- Two selections from the recommendations are the same when their conditions are. -/
theorem perm_selected_iff {p q : Recommendation → Prop} [DecidablePred p] [DecidablePred q]
    (recs : List Recommendation) :
    ((recs.filter p).map fun r => Due.mk r days).Perm ((recs.filter q).map fun r => Due.mk r days) ↔
      ∀ r ∈ recs, p r ↔ q r := by
  have hMem : ∀ {p : Recommendation → Prop} [DecidablePred p] {r}, r ∈ recs →
      (Due.mk r days ∈ (recs.filter p).map (fun r => Due.mk r days) ↔ p r) := by
    intro p _ r hr
    constructor
    · intro hIn
      obtain ⟨r', hr', hSame⟩ := List.mem_map.mp hIn
      obtain ⟨rfl, -⟩ := Due.mk.inj hSame
      exact of_decide_eq_true (List.mem_filter.mp hr').2
    · intro hp
      exact List.mem_map_of_mem (List.mem_filter.mpr ⟨hr, decide_eq_true hp⟩)
  constructor
  · intro hPerm r hr
    exact (hMem hr).symm.trans (hPerm.mem_iff.trans (hMem hr))
  · intro hSame
    rw [List.filter_congr fun r hr => decide_eq_decide.mpr (hSame r hr)]

theorem exact_iff (hDays : days ∈ checkHorizons) :
    w.Exact today days ↔ ∀ r ∈ w.recs, World.Ripe today days r →
      (¬w.checked days ↔ (r.id, days) ∉ w.keys) := by
  rw [World.Exact, dueAt_getRecommendations hDays, perm_selected_iff]
  exact forall₂_congr fun r _ => and_congr_right_iff

theorem agreesWithJob_iff (hDays : days ∈ checkHorizons) :
    w.AgreesWithJob today days ↔ ∀ r ∈ w.recs, World.Ripe today days r →
      (¬w.checked days ↔ r.ticker.isSome ∧ (r.id, days) ∉ w.keys) := by
  rw [World.AgreesWithJob, dueAt_getRecommendations hDays, dueAt_getDue hDays, perm_selected_iff]
  exact forall₂_congr fun r _ => and_congr_right_iff

/-- The selection for a horizon is exact, and that of the job, if and only if all ripe recommendations
have an outcome at it, or there is none at all and all ripe ones have a ticker. -/
theorem due_exact_iff (w : World) (today days : Int) (hDays : days ∈ checkHorizons) :
    w.Exact today days ∧ w.AgreesWithJob today days ↔ w.AllOrNone today days := by
  rw [exact_iff hDays, agreesWithJob_iff hDays, World.AllOrNone]
  constructor
  · rintro ⟨hExact, hAgrees⟩
    by_cases hChecked : w.checked days
    · -- an outcome of any recommendation hides them all
      refine Or.inl fun r hr hRipe => ?_
      by_contra hNew
      exact (hExact r hr hRipe).mpr hNew hChecked
    · exact Or.inr ⟨hChecked, fun r hr hRipe => ((hAgrees r hr hRipe).mp hChecked).1⟩
  · rintro (hAll | ⟨hNone, hTicker⟩)
    · have hHas : ∀ r ∈ w.recs, World.Ripe today days r → w.checked days :=
        fun r hr hRipe => checked_of_mem_keys (hAll r hr hRipe)
      constructor
      · intro r hr hRipe
        exact iff_of_false (not_not_intro (hHas r hr hRipe)) (not_not_intro (hAll r hr hRipe))
      · intro r hr hRipe
        exact iff_of_false (not_not_intro (hHas r hr hRipe)) fun hJob => hJob.2 (hAll r hr hRipe)
    · have hNew : ∀ r : Recommendation, (r.id, days) ∉ w.keys :=
        fun r hKey => hNone (checked_of_mem_keys hKey)
      constructor
      · intro r _ _
        exact iff_of_true hNone (hNew r)
      · intro r hr hRipe
        exact iff_of_true hNone ⟨hTicker r hr hRipe, hNew r⟩

end Due

/-! ## Two recommendations -/

def recOf (id : String) (createdDate : Int) : Recommendation where
  id := id
  ticker := some "AAPL"
  action := "buy"
  priceAtRec := some (some 200)
  createdDate := createdDate
  status := .active

def outcomeAt (id : String) (days : Int) : Outcome where
  recommendationId := id
  checkDate := 130
  daysElapsed := days
  actualPrice := some 210
  returnPct := some 5
  benchmarkReturnPct := 0
  excessReturnPct := some 5
  outcomeLabel := .correct

theorem twoRecs_ids_nodup : ([recOf "r1" 100, recOf "r2" 101].map Recommendation.id).Nodup := by
  decide

theorem twoRecs_keys_nodup : ([outcomeAt "r1" 30].map Outcome.key).Nodup := by decide

/-- The first was checked on the day before. -/
def oneChecked : World where
  recs := [recOf "r1" 100, recOf "r2" 101]
  outcomes := [outcomeAt "r1" 30]
  closes := fun _ _ => none
  ids_nodup := twoRecs_ids_nodup
  keys_nodup := twoRecs_keys_nodup

/-- No recommendation is old enough for 60 days. -/
theorem oneChecked_exact_at_60 :
    oneChecked.Exact 131 60 ∧ oneChecked.AgreesWithJob 131 60 :=
  (due_exact_iff oneChecked 131 60 (by decide)).mpr (Or.inl (by decide))

/-- The second is due, and is not returned. -/
theorem second_not_due :
    ¬∀ (w : World) (today days : Int), days ∈ checkHorizons →
      w.Exact today days ∧ w.AgreesWithJob today days := by
  intro hClaim
  exact absurd (hClaim oneChecked 131 30 (by decide)).1.length_eq (by decide)

end AsetPlatform.Recommendations.Outcomes
