import AsetPlatform.Library.Run
import AsetPlatform.Recommendations.Outcomes

/-!
# Runs of the outcome job

The tables change between the runs of the job: closes are stored or corrected, recommendations are
added, deleted, acted on, or expired by a later recommendation run. Nothing is assumed about the
days on which the job runs.

A step is tracked if it leaves at most one outcome per horizon, if a completed run records every
outcome that is ripe, if nothing is recorded that is not, and if no recommendation is expired whose
outcome at 90 days may still come. `outcomes_tracked_iff` says which runs are tracked.
-/

set_option autoImplicit false

namespace AsetPlatform.Recommendations.Outcomes

open AsetPlatform.Library

variable {w : World} {f : Faults} {today : Int} {d : Due}

/-! ## One run of the job -/

theorem insert_keys_nodup (w : World) (f : Faults) (today : Int) :
    ((w.outcomes ++ outcomesToInsert f today (w.getDue today) w.closes).map Outcome.key).Nodup := by
  rw [List.map_append, List.nodup_append]
  refine ⟨w.keys_nodup, outcomesToInsert_keys_nodup, ?_⟩
  intro key hkey key' hkey' heq
  subst heq
  obtain ⟨o, ho, rfl⟩ := List.mem_map.mp hkey'
  obtain ⟨-, d, hd, hsome⟩ := mem_outcomesToInsert_iff.mp ho
  rw [evaluate_key hsome] at hkey
  exact (mem_getDue_iff.mp (mem_of_reached hd)).2.2.2.2.2 hkey

/-- The run commits the outcomes it has computed. -/
def Commits (f : Faults) : Prop := ¬f.dueQuery ∧ ¬f.closeFetch ∧ ¬f.insert

instance (f : Faults) : Decidable (Commits f) := inferInstanceAs (Decidable (_ ∧ _))

/-- The run records an outcome. -/
def Records (w : World) (today : Int) (f : Faults) : Prop :=
  Commits f ∧ ∃ d ∈ reached f (w.getDue today),
    d.recommendation.price.isSome ∧ HasRow w.closes today d.recommendation d.days

/-- The run gets to its update of stale recommendations. -/
def Expires (w : World) (today : Int) (f : Faults) : Prop :=
  ¬f.dueQuery ∧ ¬f.expire ∧ (w.getDue today = [] ∨ Records w today f)

@[simp]
theorem expireStale_outcomes : (w.expireStale f today).outcomes = w.outcomes := by
  rw [World.expireStale]
  split
  · rfl
  · rfl

theorem expireStale_recs (hf : ¬f.expire) :
    (w.expireStale f today).recs = w.recs.map (Recommendation.expireStale today) := by
  rw [World.expireStale, if_neg hf]

theorem evaluate_isSome_iff_of_due (hd : d ∈ w.getDue today) :
    (evaluate today w.closes d).isSome ↔
      d.recommendation.price.isSome ∧ HasRow w.closes today d.recommendation d.days :=
  evaluate_isSome_iff (target_of_due hd)

theorem outcomesToInsert_ne_nil_iff (hc : Commits f) :
    outcomesToInsert f today (w.getDue today) w.closes ≠ [] ↔ Records w today f := by
  constructor
  · intro hne
    obtain ⟨o, ho⟩ := List.exists_mem_of_ne_nil _ hne
    obtain ⟨-, d, hd, hsome⟩ := mem_outcomesToInsert_iff.mp ho
    refine ⟨hc, d, hd, (evaluate_isSome_iff_of_due (mem_of_reached hd)).mp ?_⟩
    rw [hsome]
    rfl
  · rintro ⟨-, d, hd, hrow⟩
    obtain ⟨o, ho⟩ := Option.isSome_iff_exists.mp
      ((evaluate_isSome_iff_of_due (mem_of_reached hd)).mpr hrow)
    exact List.ne_nil_of_mem (mem_outcomesToInsert_iff.mpr ⟨hc.2.1, d, hd, ho⟩)

theorem run_of_noDue (hq : ¬f.dueQuery) (hdue : w.getDue today = []) :
    w.runRecommendationOutcomes today f = w.expireStale f today := by
  rw [World.runRecommendationOutcomes, if_neg hq, hdue]

theorem insertOutcomes_of_nodup {outs : List Outcome} (hf : ¬f.insert)
    (hkeys : ((w.outcomes ++ outs).map Outcome.key).Nodup) :
    ∃ w₁ : World, w.insertOutcomes f outs = some w₁ ∧ w₁.recs = w.recs ∧
      w₁.outcomes = w.outcomes ++ outs := by
  rw [World.insertOutcomes, dif_pos ⟨hf, hkeys⟩]
  exact ⟨_, rfl, rfl, rfl⟩

theorem run_of_records (hr : Records w today f) :
    ∃ w₁ : World, w₁.recs = w.recs ∧
      w₁.outcomes = w.outcomes ++ outcomesToInsert f today (w.getDue today) w.closes ∧
      w.runRecommendationOutcomes today f = w₁.expireStale f today := by
  have hne := (outcomesToInsert_ne_nil_iff hr.1).mpr hr
  obtain ⟨w₁, hins, hrecs, houtcomes⟩ :=
    insertOutcomes_of_nodup hr.1.2.2 (insert_keys_nodup w f today)
  refine ⟨w₁, hrecs, houtcomes, ?_⟩
  rw [World.runRecommendationOutcomes, if_neg hr.1.1]
  generalize w.getDue today = due at hne hins
  cases due with
  | nil => simp [outcomesToInsert, reached] at hne
  | cons d ds =>
      cases houts : outcomesToInsert f today (d :: ds) w.closes with
      | nil => exact absurd houts hne
      | cons o os =>
          rw [houts] at hins
          simp only [houts, hins]

theorem run_of_idle (hr : ¬Records w today f) (hq : f.dueQuery ∨ w.getDue today ≠ []) :
    w.runRecommendationOutcomes today f = w := by
  rw [World.runRecommendationOutcomes]
  by_cases hdq : f.dueQuery
  · rw [if_pos hdq]
  rw [if_neg hdq]
  obtain ⟨d, ds, hdue⟩ := List.exists_cons_of_ne_nil (hq.resolve_left hdq)
  rw [hdue]
  cases houts : outcomesToInsert f today (d :: ds) w.closes with
  | nil => simp only [houts]
  | cons o os =>
      have hins : f.insert := by
        by_contra hins
        have ho : o ∈ outcomesToInsert f today (w.getDue today) w.closes := by
          rw [hdue, houts]
          exact List.mem_cons_self
        have hc : Commits f := ⟨hdq, (mem_outcomesToInsert_iff.mp ho).1, hins⟩
        exact hr ((outcomesToInsert_ne_nil_iff hc).mp (List.ne_nil_of_mem ho))
      simp only [houts]
      rw [World.insertOutcomes, dif_neg fun h => h.1 hins]

theorem mem_outcomes_run_iff {o : Outcome} :
    o ∈ (w.runRecommendationOutcomes today f).outcomes ↔
      o ∈ w.outcomes ∨
        Commits f ∧ ∃ d ∈ reached f (w.getDue today), evaluate today w.closes d = some o := by
  by_cases hr : Records w today f
  · obtain ⟨w₁, -, houts, hrun⟩ := run_of_records hr
    rw [hrun, expireStale_outcomes, houts, List.mem_append, mem_outcomesToInsert_iff]
    exact or_congr_right ⟨fun h => ⟨hr.1, h.2⟩, fun h => ⟨h.1.2.1, h.2⟩⟩
  · have hnone : ¬(Commits f ∧ ∃ d ∈ reached f (w.getDue today),
        evaluate today w.closes d = some o) := by
      rintro ⟨hc, d, hd, hsome⟩
      have ho := mem_outcomesToInsert_iff.mpr ⟨hc.2.1, d, hd, hsome⟩
      exact hr ((outcomesToInsert_ne_nil_iff hc).mp (List.ne_nil_of_mem ho))
    rw [or_iff_left hnone]
    by_cases hq : f.dueQuery ∨ w.getDue today ≠ []
    · rw [run_of_idle hr hq]
    · rw [not_or, not_not] at hq
      rw [run_of_noDue hq.1 hq.2, expireStale_outcomes]

theorem recs_run_of_expires (he : Expires w today f) :
    (w.runRecommendationOutcomes today f).recs =
      w.recs.map (Recommendation.expireStale today) := by
  obtain ⟨hq, hf, hdue | hr⟩ := he
  · rw [run_of_noDue hq hdue, expireStale_recs hf]
  · obtain ⟨w₁, hrecs, -, hrun⟩ := run_of_records hr
    rw [hrun, expireStale_recs hf, hrecs]

theorem recs_run_of_not_expires (he : ¬Expires w today f) :
    (w.runRecommendationOutcomes today f).recs = w.recs := by
  by_cases hr : Records w today f
  · obtain ⟨w₁, hrecs, -, hrun⟩ := run_of_records hr
    have hf : f.expire := by_contra fun hf => he ⟨hr.1.1, hf, Or.inr hr⟩
    rw [hrun, World.expireStale, if_pos hf, hrecs]
  · by_cases hq : f.dueQuery ∨ w.getDue today ≠ []
    · rw [run_of_idle hr hq]
    · rw [not_or, not_not] at hq
      have hf : f.expire := by_contra fun hf => he ⟨hq.1, hf, Or.inl hq.2⟩
      rw [run_of_noDue hq.1 hq.2, World.expireStale, if_pos hf]

theorem mem_keys_run_iff {key : String × Int} :
    key ∈ (w.runRecommendationOutcomes today f).keys ↔
      key ∈ w.keys ∨
        Commits f ∧ ∃ d ∈ reached f (w.getDue today), d.key = key ∧
          d.recommendation.price.isSome ∧ HasRow w.closes today d.recommendation d.days := by
  simp only [World.keys, List.mem_map, mem_outcomes_run_iff]
  constructor
  · rintro ⟨o, ho | ⟨hc, d, hd, hsome⟩, rfl⟩
    · exact Or.inl ⟨o, ho, rfl⟩
    · refine Or.inr ⟨hc, d, hd, (evaluate_key hsome).symm, ?_⟩
      refine (evaluate_isSome_iff_of_due (mem_of_reached hd)).mp ?_
      rw [hsome]
      rfl
  · rintro (⟨o, ho, rfl⟩ | ⟨hc, d, hd, rfl, hrow⟩)
    · exact ⟨o, Or.inl ho, rfl⟩
    · obtain ⟨o, ho⟩ := Option.isSome_iff_exists.mp
        ((evaluate_isSome_iff_of_due (mem_of_reached hd)).mpr hrow)
      exact ⟨o, Or.inr ⟨hc, d, hd, ho⟩, evaluate_key ho⟩

theorem eq_of_id {r r' : Recommendation} (hr : r ∈ w.recs) (hr' : r' ∈ w.recs)
    (hid : r.id = r'.id) : r = r' :=
  List.inj_on_of_nodup_map w.ids_nodup hr hr' hid

/-! ## The tables over time -/

/-- What happens to the tables. -/
inductive Event where
  /-- A row of the OHLCV table is written or deleted. -/
  | store (ticker : String) (day : Int) (row : Option (Option ℚ))
  | recommend (r : Recommendation)
  /-- A recommendation is deleted, and its outcomes with it. -/
  | delete (id : String)
  | setStatus (id : String) (status : Status)
  | run (today : Int) (f : Faults)

namespace World

def store (w : World) (ticker : String) (day : Int) (row : Option (Option ℚ)) : World :=
  { w with closes := fun t x => if t = ticker ∧ x = day then row else w.closes t x }

/-- The insert of a recommendation, which raises if the id is in use. -/
def recommend (w : World) (r : Recommendation) : World :=
  if h : r.id ∈ w.recs.map Recommendation.id then w
  else { w with recs := r :: w.recs, ids_nodup := List.nodup_cons.mpr ⟨h, w.ids_nodup⟩ }

def delete (w : World) (id : String) : World :=
  { w with
    recs := w.recs.filter fun r => r.id ≠ id
    outcomes := w.outcomes.filter fun o => o.recommendationId ≠ id
    ids_nodup := w.ids_nodup.sublist (List.filter_sublist.map _)
    keys_nodup := w.keys_nodup.sublist (List.filter_sublist.map _) }

def setStatus (w : World) (id : String) (status : Status) : World :=
  { w with
    recs := w.recs.map fun r => if r.id = id then { r with status := status } else r
    ids_nodup := w.ids_map _ fun r => by split <;> rfl }

def step (w : World) : Event → World
  | .store ticker day row => w.store ticker day row
  | .recommend r => w.recommend r
  | .delete id => w.delete id
  | .setStatus id status => w.setStatus id status
  | .run today f => w.runRecommendationOutcomes today f

end World

/-! ## What the job is for -/

/-- The price at the time of the recommendation is known. -/
def Recommendation.Priced (r : Recommendation) : Prop :=
  ∃ p ∈ r.priceAtRec, p ≠ none ∧ p ≠ some 0

/-- A close is stored, and not missing, in the window of a horizon of the recommendation. -/
def HasClose (closes : Closes) (today : Int) (r : Recommendation) (days : Int) : Prop :=
  ∃ ticker ∈ r.symbol, ∃ day, InWindow today (r.createdDate + days) day ∧
    ∃ v, closes ticker day = some (some v)

/-- The horizon has passed, and there is a close to measure it by. -/
def Ripe (closes : Closes) (today : Int) (r : Recommendation) (days : Int) : Prop :=
  r.createdDate + days ≤ today ∧ HasClose closes today r days

/-- A close for the last horizon exists or can still appear. -/
def MayClose (closes : Closes) (today : Int) (r : Recommendation) : Prop :=
  HasClose closes today r 90 ∨ r.symbol.isSome ∧ today ≤ r.createdDate + 96

/-- The run gets to its end without a failed query or commit and without being cancelled. -/
def Completes (w : World) (today : Int) (f : Faults) : Prop :=
  ¬f.dueQuery ∧
    (w.getDue today = [] ∨ Commits f ∧ reached f (w.getDue today) = w.getDue today)

/-- What a run of the job that leads from `w` to `w'` must have done. -/
structure TrackedRun (w w' : World) (today : Int) (f : Faults) : Prop where
  atMostOne : ∀ key, (w'.outcomes.filter fun o => o.key = key).length ≤ 1
  recorded : Completes w today f → ∀ r ∈ w.recs, r.Priced → ∀ days ∈ horizons,
    Ripe w.closes today r days → (r.id, days) ∈ w'.keys
  founded : ∀ o ∈ w'.outcomes, o ∉ w.outcomes → ∀ r ∈ w.recs, r.id = o.recommendationId →
    r.Priced → o.daysElapsed ∈ horizons ∧ Ripe w.closes today r o.daysElapsed
  kept : ∀ r ∈ w.recs, r.status = .active → r.Priced → MayClose w.closes today r →
    (∃ r' ∈ w'.recs, r'.id = r.id ∧ r'.status = .expired) → (r.id, 90) ∈ w'.keys

def Tracked (w : World) : Event → Prop
  | .run today f => TrackedRun w (w.step (.run today f)) today f
  | _ => True

/-- What a run of the job relies on. -/
structure TrackableRun (w : World) (today : Int) (f : Faults) : Prop where
  /-- No window that it reads has rows and no close. -/
  closes : Commits f → ∀ d ∈ reached f (w.getDue today), d.recommendation.Priced →
    HasRow w.closes today d.recommendation d.days → HasClose w.closes today d.recommendation d.days
  /-- What is ripe has not been expired before. -/
  eligible : Completes w today f → ∀ r ∈ w.recs, r.Priced → ∀ days ∈ horizons,
    Ripe w.closes today r days → (r.id, days) ∉ w.keys → r.status = .active ∨ r.status = .actedOn
  /-- What is stale has a row already, and is not cut off by a cancellation. -/
  settled : Records w today f → ¬f.expire → ∀ r ∈ w.recs, r.status = .active → r.Priced →
    r.createdDate < today - 90 → (r.id, 90) ∉ w.keys → MayClose w.closes today r →
    ⟨r, 90⟩ ∈ reached f (w.getDue today) ∧ HasRow w.closes today r 90

def Trackable (w : World) : Event → Prop
  | .run today f => TrackableRun w today f
  | _ => True

/-! ## One run -/

theorem Recommendation.Priced.price_isSome {r : Recommendation} (h : r.Priced) :
    r.price.isSome := by
  obtain ⟨p, hp, -, hne⟩ := h
  rw [Option.mem_def] at hp
  simp [Recommendation.price, hp, hne]

theorem HasClose.hasRow {closes : Closes} {r : Recommendation} {days : Int}
    (h : HasClose closes today r days) : HasRow closes today r days := by
  obtain ⟨ticker, hticker, day, hday, v, hv⟩ := h
  exact ⟨ticker, hticker, day, hday, by rw [hv]; rfl⟩

theorem MayClose.symbol_isSome {closes : Closes} {r : Recommendation}
    (h : MayClose closes today r) : r.symbol.isSome := by
  obtain ⟨ticker, hticker, -⟩ | ⟨hsome, -⟩ := h
  · rw [Option.mem_def.mp hticker]
    rfl
  · exact hsome

theorem ticker_isSome_of_symbol {r : Recommendation} (h : r.symbol.isSome) : r.ticker.isSome := by
  obtain ⟨ticker, hticker⟩ := Option.isSome_iff_exists.mp h
  rw [(symbol_eq_some.mp hticker).1]
  rfl

theorem keyed_at_most_once (w : World) (key : String × Int) :
    (w.outcomes.filter fun o => o.key = key).length ≤ 1 := by
  have hcount : (w.outcomes.map Outcome.key).count key ≤ 1 :=
    List.nodup_iff_count_le_one.mp w.keys_nodup key
  rw [List.count, List.countP_map] at hcount
  rw [← List.countP_eq_length_filter]
  refine le_trans (le_of_eq (List.countP_congr fun o _ => ?_)) hcount
  simp

theorem expired_of_mem_run {r : Recommendation} (hr : r ∈ w.recs) (hactive : r.status = .active)
    (h : ∃ r' ∈ (w.runRecommendationOutcomes today f).recs, r'.id = r.id ∧ r'.status = .expired) :
    Expires w today f ∧ r.createdDate < today - 90 := by
  obtain ⟨r', hr', hid, hexpired⟩ := h
  by_cases he : Expires w today f
  · rw [recs_run_of_expires he] at hr'
    obtain ⟨r₀, hr₀, rfl⟩ := List.mem_map.mp hr'
    rw [Recommendation.expireStale_id] at hid
    obtain rfl := eq_of_id hr₀ hr hid
    refine ⟨he, by_contra fun hold => ?_⟩
    rw [Recommendation.expireStale, if_neg fun h => hold h.2, hactive] at hexpired
    cases hexpired
  · rw [recs_run_of_not_expires he] at hr'
    obtain rfl := eq_of_id hr' hr hid
    rw [hactive] at hexpired
    cases hexpired

theorem due_of_ripe {r : Recommendation} {days : Int} (hr : r ∈ w.recs) (hdays : days ∈ horizons)
    (hstatus : r.status = .active ∨ r.status = .actedOn) (hsymbol : r.symbol.isSome)
    (hpassed : r.createdDate + days ≤ today) (hkey : (r.id, days) ∉ w.keys) :
    (⟨r, days⟩ : Due) ∈ w.getDue today :=
  mem_getDue_iff.mpr
    ⟨hdays, hr, hstatus, ticker_isSome_of_symbol hsymbol, by simp only; omega, hkey⟩

theorem TrackableRun.tracked (h : TrackableRun w today f) :
    TrackedRun w (w.runRecommendationOutcomes today f) today f where
  atMostOne key := keyed_at_most_once _ key
  recorded := by
    intro hcomplete r hr hpriced days hdays hripe
    rw [mem_keys_run_iff]
    by_cases hkey : (r.id, days) ∈ w.keys
    · exact Or.inl hkey
    have hstatus := h.eligible hcomplete r hr hpriced days hdays hripe hkey
    have hsymbol : r.symbol.isSome := by
      obtain ⟨ticker, hticker, -⟩ := hripe.2
      rw [Option.mem_def.mp hticker]
      rfl
    have hdue := due_of_ripe hr hdays hstatus hsymbol hripe.1 hkey
    obtain ⟨-, hnil | ⟨hc, hall⟩⟩ := hcomplete
    · rw [hnil] at hdue
      cases hdue
    · rw [← hall] at hdue
      exact Or.inr ⟨hc, ⟨r, days⟩, hdue, rfl, hpriced.price_isSome, hripe.2.hasRow⟩
  founded := by
    intro o ho hnew r hr hid hpriced
    obtain hold | ⟨hc, d, hd, hsome⟩ := mem_outcomes_run_iff.mp ho
    · exact absurd hold hnew
    have hkey : (o.recommendationId, o.daysElapsed) = (d.recommendation.id, d.days) :=
      evaluate_key hsome
    obtain ⟨hid', hdays⟩ := Prod.mk.inj hkey
    have hdue := mem_getDue_iff.mp (mem_of_reached hd)
    obtain rfl := eq_of_id hr hdue.2.1 (hid.trans hid')
    have hrow := ((evaluate_isSome_iff_of_due (mem_of_reached hd)).mp
      (by rw [hsome]; rfl : (evaluate today w.closes d).isSome)).2
    rw [hdays]
    refine ⟨hdue.1, ?_, h.closes hc d hd hpriced hrow⟩
    have hpassed := hdue.2.2.2.2.1
    omega
  kept := by
    intro r hr hactive hpriced hmay hexpired
    obtain ⟨⟨-, hf, hwhy⟩, hold⟩ := expired_of_mem_run hr hactive hexpired
    rw [mem_keys_run_iff]
    by_cases hkey : (r.id, 90) ∈ w.keys
    · exact Or.inl hkey
    obtain hnil | hrec := hwhy
    · -- with nothing due, what is stale has its outcome
      have hdue := due_of_ripe hr (by decide) (Or.inl hactive) hmay.symbol_isSome
        (by omega : r.createdDate + 90 ≤ today) hkey
      rw [hnil] at hdue
      cases hdue
    · obtain ⟨hd, hrow⟩ := h.settled hrec hf r hr hactive hpriced hold hkey hmay
      exact Or.inr ⟨hrec.1, ⟨r, 90⟩, hd, rfl, hpriced.price_isSome, hrow⟩

theorem TrackedRun.trackable (h : TrackedRun w (w.runRecommendationOutcomes today f) today f) :
    TrackableRun w today f where
  closes := by
    intro hc d hd hpriced hrow
    obtain ⟨hdays, hr, -, -, -, hkey⟩ := mem_getDue_iff.mp (mem_of_reached hd)
    obtain ⟨o, ho⟩ := Option.isSome_iff_exists.mp
      ((evaluate_isSome_iff_of_due (mem_of_reached hd)).mpr
        ⟨hpriced.price_isSome, hrow⟩)
    have hokey : (o.recommendationId, o.daysElapsed) = (d.recommendation.id, d.days) :=
      evaluate_key ho
    obtain ⟨hid, hodays⟩ := Prod.mk.inj hokey
    have hnew : o ∉ w.outcomes := by
      intro hold
      refine hkey ?_
      rw [← hokey]
      exact List.mem_map_of_mem hold
    have hripe := (h.founded o (mem_outcomes_run_iff.mpr (Or.inr ⟨hc, d, hd, ho⟩)) hnew
      d.recommendation hr hid.symm hpriced).2
    rw [hodays] at hripe
    exact hripe.2
  eligible := by
    intro hcomplete r hr hpriced days hdays hripe hkey
    have hmem := h.recorded hcomplete r hr hpriced days hdays hripe
    obtain hold | ⟨-, d, hd, hdkey, -⟩ := mem_keys_run_iff.mp hmem
    · exact absurd hold hkey
    · obtain ⟨-, hdr, hstatus, -⟩ := mem_getDue_iff.mp (mem_of_reached hd)
      obtain rfl := eq_of_id hdr hr (Prod.mk.inj hdkey).1
      exact hstatus
  settled := by
    intro hrec hf r hr hactive hpriced hold hkey hmay
    have hexpired : ∃ r' ∈ (w.runRecommendationOutcomes today f).recs,
        r'.id = r.id ∧ r'.status = .expired := by
      rw [recs_run_of_expires ⟨hrec.1.1, hf, Or.inr hrec⟩]
      refine ⟨_, List.mem_map_of_mem hr, r.expireStale_id today, ?_⟩
      rw [Recommendation.expireStale, if_pos ⟨hactive, hold⟩]
    have hmem := h.kept r hr hactive hpriced hmay hexpired
    obtain hin | ⟨-, d, hd, hdkey, -, hrow⟩ := mem_keys_run_iff.mp hmem
    · exact absurd hin hkey
    · obtain ⟨-, hdr, -⟩ := mem_getDue_iff.mp (mem_of_reached hd)
      obtain ⟨hid, hdays⟩ := Prod.mk.inj hdkey
      obtain rfl := eq_of_id hdr hr hid
      rw [hdays] at hrow
      rw [← hdays]
      exact ⟨hd, hdays ▸ hrow⟩

theorem trackedRun_iff :
    TrackedRun w (w.runRecommendationOutcomes today f) today f ↔ TrackableRun w today f :=
  ⟨TrackedRun.trackable, TrackableRun.tracked⟩

/-! ## All runs -/

/-- The steps of the job do what it is for just if they can rely on what `TrackableRun` says. -/
theorem outcomes_tracked_iff (w : World) (es : List Event) :
    EveryStep World.step Tracked w es ↔ EveryStep World.step Trackable w es := by
  have hsame : ∀ w e, True → (Tracked w e ↔ Trackable w e) := by
    intro w e _
    cases e with
    | run today f => exact trackedRun_iff
    | store ticker day row => exact Iff.rfl
    | recommend r => exact Iff.rfl
    | delete id => exact Iff.rfl
    | setStatus id status => exact Iff.rfl
  exact everyStep_congr (fun _ _ _ => trivial) hsame trivial

/-- Day 90 of this recommendation is a Saturday. -/
def weekendRec : Recommendation :=
  ⟨"4f1c", some "TCS.NS", "buy", some (some 100), 0, .active⟩

/-- A later recommendation, due at 7 days on the Friday before. -/
def fridayRec : Recommendation :=
  ⟨"9b2e", some "INFY.NS", "hold", some (some 50), 82, .active⟩

def earlierOutcome (checkDate daysElapsed : Int) : Outcome :=
  ⟨weekendRec.id, checkDate, daysElapsed, some 110, some 10, 0, some 10, .correct⟩

theorem weekend_ids : ([weekendRec, fridayRec].map Recommendation.id).Nodup := by decide

theorem weekend_keys :
    ([earlierOutcome 7 7, earlierOutcome 30 30, earlierOutcome 60 60].map Outcome.key).Nodup := by
  decide

/-- The tables on a Sunday, with the close of Friday stored. -/
def weekend : World where
  recs := [weekendRec, fridayRec]
  outcomes := [earlierOutcome 7 7, earlierOutcome 30 30, earlierOutcome 60 60]
  closes ticker day := if ticker = "INFY.NS" ∧ day = 89 then some (some 51) else none
  ids_nodup := weekend_ids
  keys_nodup := weekend_keys

/-- The run of Sunday records the outcome of the one and expires the other, whose first close after
day 90 comes on Monday. -/
theorem expired_on_sunday : ¬EveryStep World.step Tracked weekend [.run 91 {}] := by
  rintro ⟨h, -⟩
  have hrun : TrackedRun weekend (weekend.runRecommendationOutcomes 91 {}) 91 {} := h
  have hfriday : (⟨fridayRec, 7⟩ : Due) ∈ reached {} (weekend.getDue 91) := by
    rw [reached_of_not_cancelled rfl]
    exact mem_getDue_iff.mpr ⟨by decide, by simp [weekend], by decide⟩
  have hrecords : Records weekend 91 {} :=
    ⟨by decide, ⟨fridayRec, 7⟩, hfriday, by decide, "INFY.NS", by decide, 89, by decide, by decide⟩
  have hpriced : weekendRec.Priced := ⟨some 100, rfl, by decide, by decide⟩
  obtain ⟨-, ticker, hticker, day, hday, hsome⟩ :=
    hrun.trackable.settled hrecords (by decide) weekendRec (by simp [weekend]) rfl hpriced
      (by decide) (by decide) (Or.inr ⟨by decide, by decide⟩)
  have htcs : ticker = "TCS.NS" := (Option.some.inj (symbol_eq_some.mp hticker).1).symm
  subst htcs
  simp [weekend] at hsome

end AsetPlatform.Recommendations.Outcomes
