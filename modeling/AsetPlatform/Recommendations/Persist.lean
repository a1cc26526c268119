import AsetPlatform.Library.Run
import AsetPlatform.Recommendations.RunTables

/-!
# Storing a recommendation run

`_persist` in `backend/jobs/recommendation_engine.py`: the run, its recommendations and the expiry
of older recommendations are committed one after the other, then the recommendations are read back.
Each of the four may fail.
-/

set_option autoImplicit false

namespace AsetPlatform.Recommendations

open AsetPlatform.Library

/-- The statement of `_persist` that fails. -/
inductive Cut where
  | insertRun
  | insertRecs
  | expire
  | read
  deriving DecidableEq

/-- A call of `_persist`: the run, the ids and tickers of its recommendations, the time, and the
statement that fails, if one does. -/
structure Attempt where
  data : RunData
  rawRecs : List (String × Option String)
  now : Nat
  cut : Option Cut := none

namespace Tables

/-- The last statement of `_persist`. -/
def readBack (t : Tables) (a : Attempt) : Tables × Option (List Recommendation) :=
  if a.cut = some .read then (t, none) else (t, some (t.getRecommendationsForRun a.data.runId))

/-- The second statement. -/
def storeRecsOf (t : Tables) (a : Attempt) : Option Tables :=
  if a.cut = some .insertRecs ∧ a.rawRecs ≠ [] then none else t.storeRecs a.data.runId a.rawRecs

/-- The third statement. -/
def supersedeOf (t : Tables) (a : Attempt) : Option Tables :=
  if a.cut = some .expire ∧ a.data.runType ≠ .adminTest then none else some (t.supersede a.data)

/-- `_persist`. Without a result it has raised. -/
def persist (t : Tables) (a : Attempt) : Tables × Option (List Recommendation) :=
  if a.cut = some .insertRun then (t, none)
  else
    match t.insertRecommendationRun a.data a.now with
    | none => (t, none)
    | some t₁ =>
        match t₁.storeRecsOf a with
        | none => (t₁, none)
        | some t₂ =>
            match t₂.supersedeOf a with
            | none => (t₂, none)
            | some t₃ => t₃.readBack a

/-- The run is stored with all its recommendations. -/
def Stored (t : Tables) (a : Attempt) : Prop :=
  (∃ r ∈ t.runs, r.toRunData = a.data) ∧ ∀ row ∈ recRows a.data.runId a.rawRecs, row ∈ t.recs

/-- The recommendations of user and scope that are active belong to the run. -/
def OnlyActive (t : Tables) (data : RunData) : Prop :=
  ∀ x ∈ t.recs, x.status = .active → ∀ r ∈ t.runs, r.runId = x.runId → r.userId = data.userId →
    r.scope = data.scope → x.runId = data.runId

/-! ## The statements -/

variable {t t₁ : Tables} {a : Attempt} {data : RunData}

theorem storeRecsOf_eq_some (h : t.storeRecsOf a = some t₁) :
    t₁.runs = t.runs ∧ t₁.recs = t.recs ++ recRows a.data.runId a.rawRecs := by
  rw [storeRecsOf] at h
  split at h
  · cases h
  · exact storeRecs_eq_some h

/-- When the insert of the recommendations goes through, after that of the run. -/
theorem storeRecsOf_isSome_iff (hrun : ∃ r ∈ t.runs, r.runId = a.data.runId) :
    (t.storeRecsOf a).isSome ↔
      a.rawRecs = [] ∨ a.cut ≠ some .insertRecs ∧
        ((t.recs ++ recRows a.data.runId a.rawRecs).map Recommendation.id).Nodup := by
  have hforeign : ∀ x ∈ recRows a.data.runId a.rawRecs, x.runId ∈ t.runs.map fun r => r.runId := by
    intro x hx
    obtain ⟨raw, -, rfl⟩ := List.mem_map.mp hx
    obtain ⟨r, hr, hid⟩ := hrun
    exact List.mem_map.mpr ⟨r, hr, hid⟩
  rw [storeRecsOf, storeRecs]
  by_cases hraw : a.rawRecs = []
  · rw [if_neg fun h => h.2 hraw, if_pos hraw]
    exact iff_of_true rfl (Or.inl hraw)
  by_cases hcut : a.cut = some .insertRecs
  · rw [if_pos ⟨hcut, hraw⟩]
    exact iff_of_false (by simp) fun h => h.elim hraw fun h => h.1 hcut
  · rw [if_neg fun h => hcut h.1, if_neg hraw, insertRecommendations, or_iff_right hraw]
    split
    · rename_i hkeys
      exact iff_of_true rfl ⟨hcut, hkeys.1⟩
    · rename_i hkeys
      exact iff_of_false (by simp) fun h => hkeys ⟨h.2, hforeign⟩

theorem mem_olderRunIds (hrun : ∃ r ∈ t.runs, r.toRunData = data) {r : RecommendationRun}
    (hr : r ∈ t.runs) :
    r.runId ∈ t.olderRunIds data.userId data.runId ↔
      r.userId = data.userId ∧ r.runId ≠ data.runId ∧ r.scope = data.scope := by
  obtain ⟨cur, hcur, rfl⟩ := hrun
  have hunique : ∀ s ∈ t.runs, s.runId = cur.runId → s = cur := fun s hs hid =>
    List.inj_on_of_nodup_map t.runs_nodup hs hcur hid
  have hfind : t.runs.find? (fun r => r.runId = cur.runId) = some cur := by
    obtain ⟨s, hs⟩ : ∃ s, t.runs.find? (fun r => r.runId = cur.runId) = some s :=
      Option.isSome_iff_exists.mp (List.find?_isSome.mpr ⟨cur, hcur, by simp⟩)
    have hid : s.runId = cur.runId := by simpa using List.find?_some hs
    rw [hs, hunique s (List.mem_of_find?_eq_some hs) hid]
  simp only [olderRunIds, hfind, Option.map_some, Option.mem_def, Option.some.injEq, forall_eq',
    List.mem_map, List.mem_filter, decide_eq_true_eq]
  constructor
  · rintro ⟨s, ⟨hs, huser, hid, hscope⟩, hsid⟩
    obtain rfl := List.inj_on_of_nodup_map t.runs_nodup hs hr hsid
    exact ⟨huser, hid, hscope⟩
  · rintro ⟨huser, hid, hscope⟩
    exact ⟨r, ⟨hr, huser, hid, hscope⟩, rfl⟩

theorem onlyActive_expireOld (hrun : ∃ r ∈ t.runs, r.toRunData = data) :
    (t.expireOldRecommendations data.userId data.runId).OnlyActive data := by
  intro x hx hactive r hr hrx huser hscope
  obtain ⟨y, hy, rfl⟩ := List.mem_map.mp hx
  rw [expireIn_runId] at hrx ⊢
  by_contra hne
  have holder : y.runId ∈ t.olderRunIds data.userId data.runId := by
    rw [← hrx]
    exact (mem_olderRunIds hrun hr).mpr ⟨huser, by rwa [hrx], hscope⟩
  rw [expireIn] at hactive
  split at hactive
  · cases hactive
  · rename_i hkept
    exact hkept ⟨holder, hactive⟩

theorem stored_expireOld (h : t.Stored a) :
    (t.expireOldRecommendations a.data.userId a.data.runId).Stored a := by
  refine ⟨h.1, ?_⟩
  intro row hrow
  obtain ⟨cur, hcur, hdata⟩ := h.1
  have hid : row.runId = a.data.runId := by
    obtain ⟨raw, -, rfl⟩ := List.mem_map.mp hrow
    rfl
  have hkept : expireIn (t.olderRunIds a.data.userId a.data.runId) row = row := by
    rw [expireIn, if_neg]
    rintro ⟨holder, -⟩
    have hcurid : cur.runId = a.data.runId := by rw [← hdata]
    have hcurold : cur.runId ∈ t.olderRunIds a.data.userId a.data.runId := by
      rw [hcurid]
      rw [hid] at holder
      exact holder
    exact ((mem_olderRunIds h.1 hcur).mp hcurold).2.1 hcurid
  exact List.mem_map.mpr ⟨row, h.2 row hrow, hkept⟩

/-! ## One call -/

/-- What a call of `_persist` that leads from `t` to `t'` must have done. -/
structure Persisted (t : Tables) (a : Attempt) (t' : Tables)
    (result : Option (List Recommendation)) : Prop where
  whole : t' = t ∨ t'.Stored a
  complete : result.isSome → t'.Stored a
  supersedes : result.isSome → a.data.runType ≠ .adminTest → t'.OnlyActive a.data

/-- The second insert goes through if it is reached and there is something to insert. -/
def Uncut (t : Tables) (a : Attempt) : Prop :=
  a.rawRecs = [] ∨ (a.cut = some .insertRun ∨ a.data.runId ∈ t.runs.map fun r => r.runId) ∨
    a.cut ≠ some .insertRecs ∧
      ((t.recs ++ recRows a.data.runId a.rawRecs).map Recommendation.id).Nodup

instance (t : Tables) (a : Attempt) : Decidable (t.Uncut a) := inferInstanceAs (Decidable (_ ∨ _))

theorem readBack_fst : (t.readBack a).1 = t := by
  rw [readBack]
  split
  · rfl
  · rfl

theorem persist_of_no_run
    (h : a.cut = some .insertRun ∨ a.data.runId ∈ t.runs.map fun r => r.runId) :
    t.persist a = (t, none) := by
  rw [persist]
  by_cases hcut : a.cut = some .insertRun
  · rw [if_pos hcut]
  · rw [if_neg hcut, insertRecommendationRun_eq_none.mpr (h.resolve_left hcut)]

/-- The run has been committed, and the call goes on. -/
theorem persist_of_run
    (h : ¬(a.cut = some .insertRun ∨ a.data.runId ∈ t.runs.map fun r => r.runId)) :
    ∃ t₁ : Tables, t₁.runs = t.runs ++ [⟨a.data, a.now⟩] ∧ t₁.recs = t.recs ∧
      t.persist a =
        match t₁.storeRecsOf a with
        | none => (t₁, none)
        | some t₂ =>
            match t₂.supersedeOf a with
            | none => (t₂, none)
            | some t₃ => t₃.readBack a := by
  rw [not_or] at h
  cases hins : t.insertRecommendationRun a.data a.now with
  | none => exact absurd (insertRecommendationRun_eq_none.mp hins) h.2
  | some t₁ =>
      obtain ⟨-, hruns, hrecs⟩ := insertRecommendationRun_eq_some hins
      refine ⟨t₁, hruns, hrecs, ?_⟩
      rw [persist, if_neg h.1, hins]

theorem stored_supersede (h : t.Stored a) : (t.supersede a.data).Stored a := by
  rw [supersede]
  split
  · exact h
  · exact stored_expireOld h

theorem persisted_supersede {t₂ : Tables} (hstored : t₂.Stored a) :
    ∀ p, p = (match t₂.supersedeOf a with
        | none => (t₂, none)
        | some t₃ => t₃.readBack a) → Persisted t a p.1 p.2 := by
  rintro p rfl
  rw [supersedeOf]
  by_cases hcut : a.cut = some .expire ∧ a.data.runType ≠ .adminTest
  · simp only [if_pos hcut]
    exact ⟨Or.inr hstored, fun h => absurd h (by simp), fun h => absurd h (by simp)⟩
  · simp only [if_neg hcut]
    have hread := readBack_fst (t := t₂.supersede a.data) (a := a)
    have hstored' := stored_supersede hstored
    rw [← hread] at hstored'
    refine ⟨Or.inr hstored', fun _ => hstored', fun _ htest => ?_⟩
    rw [hread, supersede, if_neg htest]
    exact onlyActive_expireOld hstored.1

theorem persisted_iff (t : Tables) (a : Attempt) :
    Persisted t a (t.persist a).1 (t.persist a).2 ↔ Uncut t a := by
  by_cases hrun : a.cut = some .insertRun ∨ a.data.runId ∈ t.runs.map fun r => r.runId
  · rw [persist_of_no_run hrun]
    refine iff_of_true ?_ (Or.inr (Or.inl hrun))
    exact ⟨Or.inl rfl, fun h => absurd h (by simp), fun h => absurd h (by simp)⟩
  obtain ⟨t₁, hruns, hrecs, hpersist⟩ := persist_of_run hrun
  have hmem : ∃ r ∈ t₁.runs, r.toRunData = a.data :=
    ⟨⟨a.data, a.now⟩, by rw [hruns]; exact List.mem_append_right _ (List.mem_singleton_self _), rfl⟩
  have hkeyed : ∃ r ∈ t₁.runs, r.runId = a.data.runId := by
    obtain ⟨r, hr, hdata⟩ := hmem
    exact ⟨r, hr, by rw [← hdata]⟩
  have hsecond : (t₁.storeRecsOf a).isSome ↔ Uncut t a := by
    rw [storeRecsOf_isSome_iff hkeyed, hrecs, Uncut, or_iff_right hrun]
  rw [hpersist, ← hsecond]
  cases hstore : t₁.storeRecsOf a with
  | none =>
      refine iff_of_false ?_ (by simp)
      rintro ⟨hwhole | hstored, -, -⟩
      · -- the run is visible
        have hlength : t₁.runs.length = t.runs.length := congrArg (fun u => u.runs.length) hwhole
        rw [hruns, List.length_append, List.length_singleton] at hlength
        omega
      · -- its recommendations are not
        have hraw : a.rawRecs ≠ [] := fun h =>
          Option.isSome_iff_ne_none.mp ((storeRecsOf_isSome_iff hkeyed).mpr (Or.inl h)) hstore
        obtain ⟨raw, hraw⟩ := List.exists_mem_of_ne_nil _ hraw
        have hrow := hstored.2 _ (List.mem_map_of_mem hraw)
        have hforeign := t.recs_run _ (hrecs ▸ hrow)
        exact hrun (Or.inr hforeign)
  | some t₂ =>
      refine iff_of_true ?_ rfl
      obtain ⟨hruns₂, hrecs₂⟩ := storeRecsOf_eq_some hstore
      refine persisted_supersede ⟨by rw [hruns₂]; exact hmem, fun row hrow => ?_⟩ _ rfl
      rw [hrecs₂]
      exact List.mem_append_right _ hrow

end Tables

/-! ## Histories -/

/-- What happens to the tables: calls of `_persist` for any user and scope, a recommendation
changing its status, a run deleted with its recommendations. -/
inductive PersistEvent where
  | persist (a : Attempt)
  | setStatus (id : String) (status : Status)
  | deleteRun (runId : String)

namespace Tables

def setStatus (t : Tables) (id : String) (status : Status) : Tables :=
  { t with
    recs := t.recs.map fun x => if x.id = id then { x with status := status } else x
    recs_nodup := by
      rw [List.map_map]
      have hid : (Recommendation.id ∘ fun x => if x.id = id then { x with status := status } else x) =
          Recommendation.id := by
        funext x
        simp only [Function.comp]
        split <;> rfl
      rw [hid]
      exact t.recs_nodup
    recs_run := fun x hx => by
      obtain ⟨y, hy, rfl⟩ := List.mem_map.mp hx
      have hrun := t.recs_run y hy
      split <;> exact hrun }

def deleteRun (t : Tables) (runId : String) : Tables where
  runs := t.runs.filter fun r => r.runId ≠ runId
  recs := t.recs.filter fun x => x.runId ≠ runId
  runs_nodup := t.runs_nodup.sublist (List.filter_sublist.map _)
  recs_nodup := t.recs_nodup.sublist (List.filter_sublist.map _)
  recs_run := by
    intro x hx
    obtain ⟨hx, hne⟩ := List.mem_filter.mp hx
    obtain ⟨r, hr, hid⟩ := List.mem_map.mp (t.recs_run x hx)
    refine List.mem_map.mpr ⟨r, List.mem_filter.mpr ⟨hr, ?_⟩, hid⟩
    rw [hid]
    exact hne

def persistStep (t : Tables) : PersistEvent → Tables
  | .persist a => (t.persist a).1
  | .setStatus id status => t.setStatus id status
  | .deleteRun runId => t.deleteRun runId

def PersistedStep (t : Tables) : PersistEvent → Prop
  | .persist a => Persisted t a (t.persist a).1 (t.persist a).2
  | _ => True

def UncutStep (t : Tables) : PersistEvent → Prop
  | .persist a => Uncut t a
  | _ => True

end Tables

/-- Every call in a history is all or nothing, and supersedes what was there, just if no call is cut
off between its first two commits. -/
theorem persisted_history_iff (t : Tables) (es : List PersistEvent) :
    EveryStep Tables.persistStep Tables.PersistedStep t es ↔
      EveryStep Tables.persistStep Tables.UncutStep t es := by
  have hsame : ∀ t e, True → (Tables.PersistedStep t e ↔ Tables.UncutStep t e) := by
    intro t e _
    cases e with
    | persist a => exact Tables.persisted_iff t a
    | setStatus id status => exact Iff.rfl
    | deleteRun runId => exact Iff.rfl
  exact everyStep_congr (fun _ _ _ => trivial) hsame trivial

/-- The tables before the first run. -/
def Tables.empty : Tables where
  runs := []
  recs := []
  runs_nodup := List.nodup_nil
  recs_nodup := List.nodup_nil
  recs_run := fun _ hx => absurd hx List.not_mem_nil

/-- The second commit fails, and the run stays without its recommendations. -/
theorem run_without_recommendations :
    ¬EveryStep Tables.persistStep Tables.PersistedStep .empty
      [.persist
        { data := ⟨"7d1e", "u1", 20000, .manual, .india⟩
          rawRecs := [("a1", some "TCS.NS")]
          now := 1728000000
          cut := some .insertRecs }] := by
  rintro ⟨h, -⟩
  have hcut := (Tables.persisted_iff _ _).mp h
  exact absurd hcut (by decide)

end AsetPlatform.Recommendations
