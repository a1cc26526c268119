import AsetPlatform.Library.Threads
import AsetPlatform.Recommendations.Persist

/-!
# One recommendation run a month

`get_or_create_monthly_run` in `backend/jobs/recommendation_engine.py`: look the run of the month up,
and generate and store one if there is none. The web, the chat tool and the scheduler call it, at any
time and for any user; the steps of their calls interleave. A failed lookup counts as a miss.
Generating a run takes long and touches no table. The forced refresh of an admin skips the lookup,
and what it stores is a test run.

`one_monthly_run` says under which condition there is one run for a user, scope and month, and every
call that returns returns it.
-/

set_option autoImplicit false

namespace AsetPlatform.Recommendations.MonthlyRuns

open AsetPlatform.Library

/-- Who calls without bypass, by the run type passed. -/
inductive Source where
  | web
  | chatTool
  | scheduler
  deriving DecidableEq

def Source.runType : Source → RunType
  | web => .manual
  | chatTool => .chat
  | scheduler => .scheduled

/-- `status_note`. -/
inductive Note where
  | noCandidates
  | emptyPortfolio

/-- What a call returns. -/
inductive Result where
  | cached (run : RecommendationRun) (recs : List Recommendation)
  | nothing (note : Note)
  | generated (data : RunData) (recs : List Recommendation)

/-- Where a call is, with its variables. `seen` is kept for the statements: the number of runs that
were stored at the lookup. -/
inductive Phase where
  | looking
  | generating (seen : Nat)
  | storing (seen : Nat) (data : RunData) (rawRecs : List (String × Option String))
  | filling (data : RunData) (rawRecs : List (String × Option String))
  | superseding (data : RunData)
  | reading (data : RunData)
  | returned (result : Result)
  | raised

/-- A call, with its arguments. `startedAt` is kept for the statements. -/
structure Call where
  userId : String
  scope : Scope
  runType : RunType
  bypassQuota : Bool
  resetAt : Nat
  startedAt : Nat
  phase : Phase

structure World where
  tables : Tables
  now : Nat
  calls : List Call

/-- A step of one call. -/
inductive Move where
  | lookUp
  | lookUpFails
  | nothing (note : Note)
  | generated (runId : String) (runDate : Int) (rawRecs : List (String × Option String))
  | store
  | fill
  | supersede
  | read
  /-- The call raises. -/
  | fail

inductive Event where
  | pass (seconds : Nat)
  | call (userId : String) (scope : Scope) (source : Source)
  | refresh (userId : String) (scope : Scope)
  | move (k : Nat) (m : Move)

/-- The tables and the phase after a move of a call. A move that is not its next does nothing. -/
def advance (t : Tables) (now : Nat) (c : Call) : Move → Tables × Phase
  | .lookUp =>
      match c.phase with
      | .looking =>
          match t.fetchCached c.userId c.scope now with
          | some (run, recs) => (t, .returned (.cached run recs))
          | none => (t, .generating t.runs.length)
      | p => (t, p)
  | .lookUpFails =>
      match c.phase with
      | .looking => (t, .generating t.runs.length)
      | p => (t, p)
  | .nothing note =>
      match c.phase with
      | .generating _ => (t, .returned (.nothing note))
      | p => (t, p)
  | .generated runId runDate rawRecs =>
      match c.phase with
      | .generating seen => (t, .storing seen ⟨runId, c.userId, runDate, c.runType, c.scope⟩ rawRecs)
      | p => (t, p)
  | .store =>
      match c.phase with
      | .storing _ data rawRecs =>
          match t.insertRecommendationRun data now with
          | some t' => (t', .filling data rawRecs)
          | none => (t, .raised)
      | p => (t, p)
  | .fill =>
      match c.phase with
      | .filling data rawRecs =>
          match t.storeRecs data.runId rawRecs with
          | some t' => (t', .superseding data)
          | none => (t, .raised)
      | p => (t, p)
  | .supersede =>
      match c.phase with
      | .superseding data => (t.supersede data, .reading data)
      | p => (t, p)
  | .read =>
      match c.phase with
      | .reading data => (t, .returned (.generated data (t.getRecommendationsForRun data.runId)))
      | p => (t, p)
  | .fail =>
      match c.phase with
      | .returned result => (t, .returned result)
      | _ => (t, .raised)

namespace World

def newCall (w : World) (userId : String) (scope : Scope) (runType : RunType) (bypassQuota : Bool)
    (phase : Phase) : World :=
  { w with
    calls := w.calls ++
      [⟨userId, scope, runType, bypassQuota, nextMonthStartIst w.now, w.now, phase⟩] }

def step (w : World) : Event → World
  | .pass seconds => { w with now := w.now + seconds }
  | .call userId scope source => w.newCall userId scope source.runType false .looking
  | .refresh userId scope =>
      w.newCall userId scope .adminTest true (.generating w.tables.runs.length)
  | .move k m =>
      match w.calls[k]? with
      | none => w
      | some c =>
          { w with
            tables := (advance w.tables w.now c m).1
            calls := w.calls.set k { c with phase := (advance w.tables w.now c m).2 } }

/-- Nothing stored, no call under way. -/
def start (now : Nat) : World := ⟨.empty, now, []⟩

end World

/-! ## What is promised, and when -/

/-- The run belongs to the user, scope and month, and is no test. -/
def IsRunOfMonth (userId : String) (scope : Scope) (month : Nat) (r : RecommendationRun) : Prop :=
  r.isRunOf userId scope ∧ istMonth r.createdAt = month

instance (userId : String) (scope : Scope) (month : Nat) (r : RecommendationRun) :
    Decidable (IsRunOfMonth userId scope month r) :=
  inferInstanceAs (Decidable (_ ∧ _))

def AtMostOne (runs : List RecommendationRun) : Prop :=
  ∀ userId scope month, (runs.filter fun r => IsRunOfMonth userId scope month r).length ≤ 1

/-- The run is stored for the user and scope of the call, and made in a month in which the call was
under way. -/
def IsRunOfCall (runs : List RecommendationRun) (now : Nat) (c : Call) (run : RecommendationRun) :
    Prop :=
  run ∈ runs ∧ run.isRunOf c.userId c.scope ∧ istMonth c.startedAt ≤ istMonth run.createdAt ∧
    run.createdAt ≤ now

/-- The result is the run of the call, or there is none. -/
def Answered (w : World) (c : Call) : Result → Prop
  | .cached run _ => IsRunOfCall w.tables.runs w.now c run
  | .generated data _ => ∃ run, run.toRunData = data ∧ IsRunOfCall w.tables.runs w.now c run
  | .nothing _ => ∀ r ∈ w.tables.runs, ¬IsRunOfMonth c.userId c.scope (istMonth w.now) r

def Phase.ended : Phase → Bool
  | returned _ => true
  | raised => true
  | _ => false

/-- After the step there is at most one run for each user, scope and month, and if the step makes a
call without bypass return, it returns that run. -/
def OneRun (w : World) (e : Event) : Prop :=
  AtMostOne (w.step e).tables.runs ∧
    ∀ (k : Nat) (c c' : Call) (result : Result), w.calls[k]? = some c →
      (w.step e).calls[k]? = some c' → c.bypassQuota = false → c.phase.ended = false →
        c'.phase = .returned result → Answered (w.step e) c' result

/-- The number of stored runs that the call knows of when it makes a move that relies on there being
no others. -/
def Phase.knows : Phase → Move → Option Nat
  | looking, .lookUpFails => some 0
  | generating seen, .nothing _ => some seen
  | storing seen _ _, .store => some seen
  | _, _ => none

/-- A lookup fails only while there is nothing to find, and between the lookup of a call and its
insert, or its end without one, no other call stores a run for the user, scope and month. -/
def Undisturbed (w : World) : Event → Prop
  | .move k m =>
      ∀ c ∈ w.calls[k]?, c.bypassQuota = false → ∀ seen ∈ c.phase.knows m,
        ∀ r ∈ w.tables.runs.drop seen, ¬IsRunOfMonth c.userId c.scope (istMonth w.now) r
  | _ => True

instance : ∀ (w : World) (e : Event), Decidable (Undisturbed w e)
  | w, .move k m =>
      inferInstanceAs (Decidable (∀ c ∈ w.calls[k]?, c.bypassQuota = false →
        ∀ seen ∈ c.phase.knows m, ∀ r ∈ w.tables.runs.drop seen,
          ¬IsRunOfMonth c.userId c.scope (istMonth w.now) r))
  | _, .pass _ => isTrue trivial
  | _, .call _ _ _ => isTrue trivial
  | _, .refresh _ _ => isTrue trivial

/-! ## The invariant -/

/-- None of the first `seen` runs is of the user and scope and this month or a later one. -/
def NoneBefore (runs : List RecommendationRun) (now : Nat) (c : Call) (seen : Nat) : Prop :=
  seen ≤ runs.length ∧
    (c.bypassQuota = false → ∀ r ∈ runs.take seen, r.isRunOf c.userId c.scope →
      istMonth r.createdAt < istMonth now)

def OfCall (data : RunData) (c : Call) : Prop :=
  data.userId = c.userId ∧ data.scope = c.scope ∧ data.runType = c.runType

def PhaseOk (runs : List RecommendationRun) (now : Nat) (c : Call) : Phase → Prop
  | .looking => True
  | .generating seen => NoneBefore runs now c seen
  | .storing seen data _ => NoneBefore runs now c seen ∧ OfCall data c
  | .filling data _ | .superseding data | .reading data =>
      c.bypassQuota = false → ∃ run, run.toRunData = data ∧ IsRunOfCall runs now c run
  | .returned _ => True
  | .raised => True

structure CallOk (runs : List RecommendationRun) (now : Nat) (c : Call) : Prop where
  started : c.startedAt ≤ now
  test : c.runType = .adminTest ↔ c.bypassQuota = true
  phase : PhaseOk runs now c c.phase

structure Inv (w : World) : Prop where
  created : ∀ r ∈ w.tables.runs, r.createdAt ≤ w.now
  one : AtMostOne w.tables.runs
  calls : ∀ c ∈ w.calls, CallOk w.tables.runs w.now c

section Growth

/-! ### More runs and a later time -/

variable {runs new : List RecommendationRun} {now now' : Nat} {c : Call}

theorem IsRunOfCall.mono {run : RecommendationRun} (h : IsRunOfCall runs now c run)
    (hle : now ≤ now') : IsRunOfCall (runs ++ new) now' c run :=
  ⟨List.mem_append_left _ h.1, h.2.1, h.2.2.1, h.2.2.2.trans hle⟩

theorem NoneBefore.mono {seen : Nat} (h : NoneBefore runs now c seen) (hle : now ≤ now') :
    NoneBefore (runs ++ new) now' c seen := by
  refine ⟨h.1.trans (by simp), fun hbypass r hr hof => ?_⟩
  rw [List.take_append_of_le_length h.1] at hr
  exact lt_of_lt_of_le (h.2 hbypass r hr hof) (istMonth_mono hle)

theorem PhaseOk.mono {p : Phase} (h : PhaseOk runs now c p) (hle : now ≤ now') :
    PhaseOk (runs ++ new) now' c p := by
  have hrun : ∀ data : RunData,
      (c.bypassQuota = false → ∃ run, run.toRunData = data ∧ IsRunOfCall runs now c run) →
        c.bypassQuota = false →
          ∃ run, run.toRunData = data ∧ IsRunOfCall (runs ++ new) now' c run := by
    intro data hdata hbypass
    obtain ⟨run, heq, hof⟩ := hdata hbypass
    exact ⟨run, heq, hof.mono hle⟩
  cases p with
  | looking => trivial
  | generating seen => exact NoneBefore.mono h hle
  | storing seen data rawRecs => exact ⟨h.1.mono hle, h.2⟩
  | filling data rawRecs => exact hrun data h
  | superseding data => exact hrun data h
  | reading data => exact hrun data h
  | returned result => trivial
  | raised => trivial

theorem CallOk.mono (h : CallOk runs now c) (hle : now ≤ now') : CallOk (runs ++ new) now' c :=
  ⟨h.started.trans hle, h.test, h.phase.mono hle⟩

theorem CallOk.later (h : CallOk runs now c) (hle : now ≤ now') : CallOk runs now' c := by
  have hmono : CallOk (runs ++ []) now' c := h.mono hle
  rwa [List.append_nil] at hmono

end Growth

/-! ## One move -/

section Moves

variable {w : World} {t : Tables} {now : Nat} {c : Call} {m : Move}

theorem isRunOf_of_data {data : RunData} (hof : OfCall data c) (htest : c.runType ≠ .adminTest) :
    (⟨data, now⟩ : RecommendationRun).isRunOf c.userId c.scope :=
  ⟨hof.1, hof.2.1, by rw [hof.2.2]; exact htest⟩

inductive Advances (t : Tables) (now : Nat) (c : Call) : Move → Tables → Phase → Prop where
  | stays (m : Move) : Advances t now c m t c.phase
  | raises (m : Move) : Advances t now c m t .raised
  | hit {run : RecommendationRun} {recs : List Recommendation}
      (hfetch : t.fetchCached c.userId c.scope now = some (run, recs)) :
      Advances t now c .lookUp t (.returned (.cached run recs))
  | miss (hfetch : t.fetchCached c.userId c.scope now = none) :
      Advances t now c .lookUp t (.generating t.runs.length)
  | lookUpFails (hphase : c.phase = .looking) :
      Advances t now c .lookUpFails t (.generating t.runs.length)
  | nothing {seen : Nat} (note : Note) (hphase : c.phase = .generating seen) :
      Advances t now c (.nothing note) t (.returned (.nothing note))
  | generates {seen : Nat} (runId : String) (runDate : Int)
      (rawRecs : List (String × Option String)) (hphase : c.phase = .generating seen) :
      Advances t now c (.generated runId runDate rawRecs) t
        (.storing seen ⟨runId, c.userId, runDate, c.runType, c.scope⟩ rawRecs)
  | stores {seen : Nat} {data : RunData} {rawRecs : List (String × Option String)} {t' : Tables}
      (hphase : c.phase = .storing seen data rawRecs) (hruns : t'.runs = t.runs ++ [⟨data, now⟩]) :
      Advances t now c .store t' (.filling data rawRecs)
  | fills {data : RunData} {rawRecs : List (String × Option String)} {t' : Tables}
      (hphase : c.phase = .filling data rawRecs) (hruns : t'.runs = t.runs) :
      Advances t now c .fill t' (.superseding data)
  | supersedes {data : RunData} {t' : Tables} (hphase : c.phase = .superseding data)
      (hruns : t'.runs = t.runs) : Advances t now c .supersede t' (.reading data)
  | reads {data : RunData} (hphase : c.phase = .reading data) :
      Advances t now c .read t
        (.returned (.generated data (t.getRecommendationsForRun data.runId)))

theorem advances (t : Tables) (now : Nat) (c : Call) (m : Move) :
    Advances t now c m (advance t now c m).1 (advance t now c m).2 := by
  cases m with
  | lookUp =>
      simp only [advance]
      split
      · split
        · rename_i hfetch
          exact .hit hfetch
        · rename_i hfetch
          exact .miss hfetch
      · exact .stays _
  | lookUpFails =>
      simp only [advance]
      split
      · rename_i hphase
        exact .lookUpFails hphase
      · exact .stays _
  | nothing note =>
      simp only [advance]
      split
      · rename_i hphase
        exact .nothing note hphase
      · exact .stays _
  | generated runId runDate rawRecs =>
      simp only [advance]
      split
      · rename_i hphase
        exact .generates runId runDate rawRecs hphase
      · exact .stays _
  | store =>
      simp only [advance]
      split
      · rename_i hphase
        split
        · rename_i hins
          exact .stores hphase (Tables.insertRecommendationRun_eq_some hins).2.1
        · exact .raises _
      · exact .stays _
  | fill =>
      simp only [advance]
      split
      · rename_i hphase
        split
        · rename_i hstore
          exact .fills hphase (Tables.storeRecs_eq_some hstore).1
        · exact .raises _
      · exact .stays _
  | supersede =>
      simp only [advance]
      split
      · rename_i hphase
        refine .supersedes hphase ?_
        rw [Tables.supersede]
        split
        · rfl
        · rfl
      · exact .stays _
  | read =>
      simp only [advance]
      split
      · rename_i hphase
        exact .reads hphase
      · exact .stays _
  | fail =>
      simp only [advance]
      split
      · rename_i hphase
        rw [← hphase]
        exact .stays _
      · exact .raises _

/-- Only a store adds a run. -/
theorem Advances.runs_cases {t' : Tables} {p : Phase} (h : Advances t now c m t' p) :
    t'.runs = t.runs ∨
      ∃ seen data rawRecs, c.phase = .storing seen data rawRecs ∧ m = .store ∧
        t'.runs = t.runs ++ [⟨data, now⟩] := by
  cases h with
  | stores hphase hruns => exact Or.inr ⟨_, _, _, hphase, rfl, hruns⟩
  | fills _ hruns => exact Or.inl hruns
  | supersedes _ hruns => exact Or.inl hruns
  | stays => exact Or.inl rfl
  | raises => exact Or.inl rfl
  | hit => exact Or.inl rfl
  | miss => exact Or.inl rfl
  | lookUpFails => exact Or.inl rfl
  | nothing => exact Or.inl rfl
  | generates => exact Or.inl rfl
  | reads => exact Or.inl rfl

def Guarded (runs : List RecommendationRun) (now : Nat) (c : Call) (m : Move) : Prop :=
  c.bypassQuota = false → ∀ seen ∈ c.phase.knows m, ∀ r ∈ runs.drop seen,
    ¬IsRunOfMonth c.userId c.scope (istMonth now) r

/-- A call that knows of no run of this month before its lookup, and none after, knows of none. -/
theorem none_of_month {runs : List RecommendationRun} {seen : Nat} (h : NoneBefore runs now c seen)
    (hbypass : c.bypassQuota = false)
    (hdrop : ∀ r ∈ runs.drop seen, ¬IsRunOfMonth c.userId c.scope (istMonth now) r) :
    ∀ r ∈ runs, ¬IsRunOfMonth c.userId c.scope (istMonth now) r := by
  intro r hr
  rw [← List.take_append_drop seen runs, List.mem_append] at hr
  rcases hr with hr | hr
  · rintro ⟨hof, hmonth⟩
    exact absurd hmonth (h.2 hbypass r hr hof).ne
  · exact hdrop r hr

/-- A store adds the first run of the month, or a test run. -/
theorem atMostOne_store {runs : List RecommendationRun} {seen : Nat} {data : RunData}
    (hone : AtMostOne runs) (hok : CallOk runs now c) (hbefore : NoneBefore runs now c seen)
    (hof : OfCall data c)
    (hdrop : c.bypassQuota = false →
      ∀ r ∈ runs.drop seen, ¬IsRunOfMonth c.userId c.scope (istMonth now) r) :
    AtMostOne (runs ++ [⟨data, now⟩]) := by
  intro userId scope month
  have hold := hone userId scope month
  rw [List.filter_append, List.length_append]
  by_cases hnew : IsRunOfMonth userId scope month ⟨data, now⟩
  · have hbypass : c.bypassQuota = false := by
      rw [← Bool.not_eq_true, ← hok.test, ← hof.2.2]
      exact hnew.1.2.2
    have hnone := none_of_month hbefore hbypass (hdrop hbypass)
    obtain ⟨⟨huser, hscope, -⟩, hmonth⟩ := hnew
    rw [← hof.1, ← hof.2.1] at hnone
    have hnil : (runs.filter fun r => IsRunOfMonth userId scope month r) = [] := by
      rw [List.filter_eq_nil_iff]
      intro r hr
      simp only [decide_eq_true_eq, ← huser, ← hscope, ← hmonth]
      exact hnone r hr
    rw [hnil, List.length_nil, Nat.zero_add]
    exact List.length_filter_le _ [_]
  · have hnil : ([(⟨data, now⟩ : RecommendationRun)].filter fun r =>
        IsRunOfMonth userId scope month r) = [] := by
      rw [List.filter_eq_nil_iff]
      intro r hr
      rw [List.mem_singleton.mp hr]
      simpa using hnew
    rw [hnil]
    exact hold

theorem noneBefore_of_miss (h : t.fetchCached c.userId c.scope now = none) :
    NoneBefore t.runs now c t.runs.length := by
  refine ⟨le_refl _, fun _ r hr hof => ?_⟩
  rw [List.take_length] at hr
  exact Tables.fetchCached_eq_none_iff.mp h r hr hof

/-- A failed lookup counts as a miss, and is one if there is nothing to find. -/
theorem noneBefore_of_fail (hcreated : ∀ r ∈ t.runs, r.createdAt ≤ now)
    (hnone : c.bypassQuota = false →
      ∀ r ∈ t.runs, ¬IsRunOfMonth c.userId c.scope (istMonth now) r) :
    NoneBefore t.runs now c t.runs.length := by
  refine ⟨le_refl _, fun hbypass r hr hof => ?_⟩
  rw [List.take_length] at hr
  exact lt_of_le_of_ne (istMonth_mono (hcreated r hr)) fun hmonth =>
    hnone hbypass r hr ⟨hof, hmonth⟩

theorem runType_ne_test (hok : CallOk t.runs now c) (hbypass : c.bypassQuota = false) :
    c.runType ≠ .adminTest := by
  intro htest
  rw [hok.test.mp htest] at hbypass
  cases hbypass

theorem Advances.phaseOk {t' : Tables} {p : Phase} (h : Advances t now c m t' p)
    (hok : CallOk t.runs now c) (hcreated : ∀ r ∈ t.runs, r.createdAt ≤ now)
    (hguard : Guarded t.runs now c m) : PhaseOk t'.runs now c p := by
  have hbefore := hok.phase
  cases h with
  | stays => exact hbefore
  | raises => trivial
  | hit hfetch => trivial
  | miss hfetch => exact noneBefore_of_miss hfetch
  | lookUpFails hphase =>
      refine noneBefore_of_fail hcreated fun hbypass r hr => ?_
      exact hguard hbypass 0 (by rw [hphase]; rfl) r (by rwa [List.drop_zero])
  | nothing note hphase => trivial
  | generates runId runDate rawRecs hphase =>
      rw [hphase] at hbefore
      exact ⟨hbefore, rfl, rfl, rfl⟩
  | stores hphase hruns =>
      rw [hphase] at hbefore
      intro hbypass
      refine ⟨⟨_, now⟩, rfl, ?_, isRunOf_of_data hbefore.2 (runType_ne_test hok hbypass),
        istMonth_mono hok.started, le_refl _⟩
      rw [hruns]
      exact List.mem_append_right _ (List.mem_singleton_self _)
  | fills hphase hruns =>
      rw [hphase] at hbefore
      rw [hruns]
      exact hbefore
  | supersedes hphase hruns =>
      rw [hphase] at hbefore
      rw [hruns]
      exact hbefore
  | reads hphase => trivial

/-- A move that makes the call return returns the run of the call. -/
theorem Advances.answered {t' : Tables} {p : Phase} {w' : World} {result : Result}
    (h : Advances t now c m t' p) (hok : CallOk t.runs now c)
    (hcreated : ∀ r ∈ t.runs, r.createdAt ≤ now) (hguard : Guarded t.runs now c m)
    (hbypass : c.bypassQuota = false) (hgoing : c.phase.ended = false)
    (hreturned : p = .returned result) (htables : w'.tables = t') (hnow : w'.now = now) :
    Answered w' c result := by
  have hbefore := hok.phase
  cases h with
  | stays =>
      rw [hreturned] at hgoing
      cases hgoing
  | hit hfetch =>
      cases hreturned
      obtain ⟨hmem, hof, hmonth⟩ := Tables.fetchCached_eq_some hfetch
      rw [Answered, htables, hnow]
      exact ⟨hmem, hof, (istMonth_mono hok.started).trans hmonth, hcreated _ hmem⟩
  | nothing note hphase =>
      cases hreturned
      rw [Answered, htables, hnow]
      rw [hphase] at hbefore
      exact none_of_month hbefore hbypass (hguard hbypass _ (by rw [hphase]; rfl))
  | reads hphase =>
      cases hreturned
      rw [Answered, htables, hnow]
      rw [hphase] at hbefore
      exact hbefore hbypass
  | raises => cases hreturned
  | miss => cases hreturned
  | lookUpFails => cases hreturned
  | generates => cases hreturned
  | stores => cases hreturned
  | fills => cases hreturned
  | supersedes => cases hreturned

end Moves

/-! ## Steps -/

section Steps

variable {w : World} {t : Tables} {now k : Nat} {c : Call} {m : Move}

theorem advance_runs_append (t : Tables) (now : Nat) (c : Call) (m : Move) :
    ∃ new, (advance t now c m).1.runs = t.runs ++ new := by
  rcases (advances t now c m).runs_cases with hsame | ⟨_, _, _, -, -, hnew⟩
  · exact ⟨[], by rw [hsame, List.append_nil]⟩
  · exact ⟨_, hnew⟩

theorem created_advance (h : ∀ r ∈ t.runs, r.createdAt ≤ now) :
    ∀ r ∈ (advance t now c m).1.runs, r.createdAt ≤ now := by
  intro r hr
  rcases (advances t now c m).runs_cases with hsame | ⟨_, _, _, -, -, hnew⟩
  · rw [hsame] at hr
    exact h r hr
  · rw [hnew, List.mem_append, List.mem_singleton] at hr
    rcases hr with hr | rfl
    · exact h r hr
    · exact le_refl _

theorem atMostOne_advance (hone : AtMostOne t.runs) (hok : CallOk t.runs now c)
    (hguard : Guarded t.runs now c m) : AtMostOne (advance t now c m).1.runs := by
  rcases (advances t now c m).runs_cases with hsame | ⟨seen, data, raw, hphase, hm, hnew⟩
  · rwa [hsame]
  · have hstoring := hok.phase
    rw [hphase] at hstoring
    rw [hnew]
    exact atMostOne_store hone hok hstoring.1 hstoring.2 fun hbypass =>
      hguard hbypass seen (by rw [hphase, hm]; rfl)

theorem guarded_of_undisturbed (h : Undisturbed w (.move k m)) (hk : w.calls[k]? = some c) :
    Guarded w.tables.runs w.now c m :=
  h c hk

theorem inv_start (now : Nat) : Inv (World.start now) where
  created r hr := absurd hr List.not_mem_nil
  one _ _ _ := by simp [World.start, Tables.empty]
  calls c hc := absurd hc List.not_mem_nil

theorem inv_newCall {runType : RunType} {userId : String} {scope : Scope} {bypassQuota : Bool}
    {phase : Phase} (h : Inv w) (htest : runType = .adminTest ↔ bypassQuota = true)
    (hphase : ∀ c : Call, c.bypassQuota = bypassQuota → PhaseOk w.tables.runs w.now c phase) :
    Inv (w.newCall userId scope runType bypassQuota phase) where
  created := h.created
  one := h.one
  calls := forall_mem_append_singleton h.calls ⟨le_refl _, htest, hphase _ rfl⟩

theorem inv_step (w : World) (e : Event) (h : Inv w) (hguard : Undisturbed w e) :
    Inv (w.step e) := by
  cases e with
  | pass seconds =>
      have hle : w.now ≤ w.now + seconds := Nat.le_add_right _ _
      exact ⟨fun r hr => (h.created r hr).trans hle, h.one, fun c hc => (h.calls c hc).later hle⟩
  | call userId scope source =>
      exact inv_newCall h (by cases source <;> decide) fun _ _ => trivial
  | refresh userId scope =>
      refine inv_newCall h (by decide) fun c hbypass => ⟨le_refl _, fun hno => ?_⟩
      rw [hbypass] at hno
      cases hno
  | move k m =>
      rw [World.step]
      cases hk : w.calls[k]? with
      | none => exact h
      | some c =>
          have hok := h.calls c (List.mem_of_getElem? hk)
          have hg := guarded_of_undisturbed hguard hk
          obtain ⟨new, hnew⟩ := advance_runs_append w.tables w.now c m
          refine ⟨created_advance h.created, atMostOne_advance h.one hok hg, ?_⟩
          refine forall_mem_set (fun c' hc' => ?_) ⟨hok.started, hok.test,
            (advances w.tables w.now c m).phaseOk hok h.created hg⟩
          show CallOk (advance w.tables w.now c m).1.runs w.now c'
          rw [hnew]
          exact (h.calls c' hc').mono (le_refl _)

theorem call_of_step {c' : Call} (w : World) (e : Event) (hk : w.calls[k]? = some c)
    (hk' : (w.step e).calls[k]? = some c') :
    c' = c ∨ ∃ m, e = .move k m ∧ c' = { c with phase := (advance w.tables w.now c m).2 } ∧
      (w.step e).tables = (advance w.tables w.now c m).1 ∧ (w.step e).now = w.now := by
  have hlt : k < w.calls.length := (List.getElem?_eq_some_iff.mp hk).1
  have hnew : ∀ x : Call, (w.calls ++ [x])[k]? = some c' → c' = c := by
    intro x h
    rw [List.getElem?_append_left hlt, hk] at h
    exact (Option.some.inj h).symm
  cases e with
  | pass seconds =>
      left
      exact (Option.some.inj (hk.symm.trans hk')).symm
  | call userId scope source =>
      left
      exact hnew _ hk'
  | refresh userId scope =>
      left
      exact hnew _ hk'
  | move i m =>
      rw [World.step] at hk'
      cases hi : w.calls[i]? with
      | none =>
          left
          rw [hi] at hk'
          exact (Option.some.inj (hk.symm.trans hk')).symm
      | some c₀ =>
          simp only [hi] at hk'
          by_cases hik : i = k
          · subst hik
            obtain rfl : c₀ = c := Option.some.inj (hi.symm.trans hk)
            rw [List.getElem?_set_self hlt] at hk'
            refine Or.inr ⟨m, rfl, (Option.some.inj hk').symm, ?_, ?_⟩
            · rw [World.step, hi]
            · rw [World.step, hi]
          · left
            rw [List.getElem?_set_ne hik, hk] at hk'
            exact (Option.some.inj hk').symm

theorem oneRun_step (w : World) (e : Event) (h : Inv w) (hguard : Undisturbed w e) :
    OneRun w e := by
  refine ⟨(inv_step w e h hguard).one, ?_⟩
  intro k c c' result hk hk' hbypass hgoing hreturned
  rcases call_of_step w e hk hk' with rfl | ⟨m, rfl, rfl, htables, hnow⟩
  · rw [hreturned] at hgoing
    cases hgoing
  · have hok := h.calls c (List.mem_of_getElem? hk)
    have hanswered := (advances w.tables w.now c m).answered hok h.created
      (guarded_of_undisturbed hguard hk) hbypass hgoing hreturned htables hnow
    cases result <;> exact hanswered

end Steps

/-! ## The statements of one call together -/

section Persist

variable {w : World} {k : Nat} {c : Call}

theorem step_move (hk : w.calls[k]? = some c) (m : Move) :
    w.step (.move k m) =
      { w with
        tables := (advance w.tables w.now c m).1
        calls := w.calls.set k { c with phase := (advance w.tables w.now c m).2 } } := by
  rw [World.step, hk]

/-- The tables after moves of one call alone. -/
def advanceAll (t : Tables) (now : Nat) (c : Call) : List Move → Tables
  | [] => t
  | m :: ms =>
      advanceAll (advance t now c m).1 now { c with phase := (advance t now c m).2 } ms

theorem tables_of_moves (hk : w.calls[k]? = some c) (ms : List Move) :
    (runFrom World.step w (ms.map (Event.move k))).tables = advanceAll w.tables w.now c ms := by
  induction ms generalizing w c with
  | nil => rfl
  | cons m ms ih =>
      have hlt : k < w.calls.length := (List.getElem?_eq_some_iff.mp hk).1
      rw [List.map_cons, runFrom_cons, step_move hk, advanceAll]
      exact ih (List.getElem?_set_self hlt)

/-- A call whose statements no other step comes between does what `_persist` does. -/
theorem persist_uninterrupted {seen : Nat} {data : RunData}
    {rawRecs : List (String × Option String)} (hk : w.calls[k]? = some c)
    (hphase : c.phase = .storing seen data rawRecs) :
    (runFrom World.step w ([.store, .fill, .supersede, .read].map (Event.move k))).tables =
      (w.tables.persist { data := data, rawRecs := rawRecs, now := w.now }).1 := by
  rw [tables_of_moves hk, Tables.persist, if_neg (by simp)]
  cases hins : w.tables.insertRecommendationRun data w.now with
  | none => simp [advanceAll, advance, hphase, hins]
  | some t₁ =>
      cases hstore : t₁.storeRecs data.runId rawRecs with
      | none => simp [advanceAll, advance, hphase, hins, hstore, Tables.storeRecsOf]
      | some t₂ =>
          simp [advanceAll, advance, hphase, hins, hstore, Tables.storeRecsOf, Tables.supersedeOf,
            Tables.readBack]

end Persist

/-! ## Runs -/

/-- While no lookup fails in vain and no other call stores a run in between, there is one run a
month, and every call returns it. -/
theorem one_monthly_run (now : Nat) (es : List Event)
    (h : EveryStep World.step Undisturbed (World.start now) es) :
    EveryStep World.step OneRun (World.start now) es :=
  everyStep_of_invariant inv_step oneRun_step (inv_start now) h

/-- The web asks for a run, and the scheduler after it. -/
def webThenScheduler : List Event :=
  [.call "u1" .india .web, .move 0 .lookUp, .move 0 (.generated "7d1e" 0 [("a1", some "TCS.NS")]),
    .refresh "u1" .india, .move 0 .store, .move 0 .fill, .move 0 .supersede, .move 0 .read,
    .pass 3600, .call "u1" .india .scheduler, .move 2 .lookUp]

theorem one_monthly_run_webThenScheduler :
    EveryStep World.step OneRun (World.start 0) webThenScheduler :=
  one_monthly_run 0 webThenScheduler (by decide)

/-- The chat tool asks while the run for the web is being generated, and stores a second one. -/
theorem two_monthly_runs :
    ¬EveryStep World.step OneRun (World.start 0)
      [.call "u1" .india .web, .move 0 .lookUp, .call "u1" .india .chatTool, .move 1 .lookUp,
        .move 0 (.generated "7d1e" 0 []), .move 0 .store, .move 1 (.generated "9b2f" 0 []),
        .move 1 .store] := by
  rintro ⟨-, -, -, -, -, -, -, ⟨hone, -⟩, -⟩
  exact absurd (hone "u1" .india 0) (by decide)

end AsetPlatform.Recommendations.MonthlyRuns
