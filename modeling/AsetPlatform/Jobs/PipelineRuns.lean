import AsetPlatform.Jobs.PipelineExecutor

/-!
# What a pipeline run leaves

`chainStep_after` says what a round of the loop does to the rows of the pipeline run and to the calls,
`executeSteps_invariant` what all rounds do. A run is accounted for (`Accounted`) if and only if every
step that is reached has an executor, and no failed mark is older than a day when it is looked for.
-/

set_option autoImplicit false

namespace AsetPlatform.Jobs

/-! ## What becomes of a step -/

/-- How a round of the loop ends. -/
inductive Fate where
  | skipped
  | unknown
  | raised
  | finished (status : Status)
  deriving DecidableEq

namespace Fate

/-- The status in the row of the step; an unknown job type has none. -/
def recorded : Fate → Option Status
  | skipped => some .skipped
  | unknown => none
  | raised => some .failed
  | finished status => some status

/-- The executor was called. -/
def executed : Fate → Bool
  | raised => true
  | finished _ => true
  | _ => false

/-- The next step may run. -/
def goesOn : Fate → Bool
  | finished .success => true
  | _ => false

theorem recorded_eq_none_iff {f : Fate} : f.recorded = none ↔ f = unknown := by
  cases f <;> simp [recorded]

theorem goesOn_iff {f : Fate} : f.goesOn = true ↔ f = finished .success := by
  cases f with
  | finished status => cases status <;> simp [goesOn]
  | _ => simp [goesOn]

end Fate

section Spec

variable {prid : Nat}

/-- The status that an executor leaves, if it leaves one. -/
def Happening.lastMark (h : Happening prid) : Option Mark := h.marks.getLast?

/-- The status that a step which returns is recorded with. -/
def Happening.recordedStatus (h : Happening prid) : Status :=
  if day < h.duration then .success else (h.lastMark.map Mark.status).getD .success

/-- What becomes of a step. -/
def fate (failed : Bool) (h : Happening prid) (step : Step) : Fate :=
  if h.cancelSet = true ∨ failed = true then .skipped
  else if step.jobType ∉ jobExecutors then .unknown
  else if h.raises.isSome then .raised
  else .finished h.recordedStatus

/-- What a round leaves. -/
structure After (prid k : Nat) (step : Step) (f : Fate) (w w' : World) : Prop where
  rows : match f.recorded with
    | none => own prid w'.rows = own prid w.rows
    | some status => ∃ r, own prid w'.rows = own prid w.rows ++ [r] ∧ r.runId = (prid, k) ∧
        r.jobName = step.jobName ∧ r.jobType = step.jobType ∧ r.status = status ∧
          r.startedAt ≤ w'.now
  calls : w'.calls.map Call.runId =
    w.calls.map Call.runId ++ if f.executed then [(prid, k)] else []
  later : w.now ≤ w'.now

end Spec

/-! ## One round -/

section Round

variable {prid k : Nat} {step : Step} {h : Happening prid} {w : World}

theorem writeMarks_new {olds : List SchedulerRun} {r : SchedulerRun} (marks : List Mark)
    (hnew : ∀ r' ∈ olds, r'.runId ≠ r.runId) :
    writeMarks r.runId marks (olds ++ [r]) =
      olds ++ [{ r with status := (marks.getLast?.map Mark.status).getD r.status }] := by
  induction marks generalizing r with
  | nil => rfl
  | cons mark marks ih =>
      have hfirst : updateSchedulerRun (olds ++ [r]) r.runId
          (fun r => { r with status := mark.status }) = olds ++ [{ r with status := mark.status }] :=
        update_append_new hnew
      have hrest := @ih { r with status := mark.status } hnew
      rw [writeMarks, List.foldl_cons, hfirst]
      rw [writeMarks] at hrest
      rw [hrest]
      cases hlast : marks.getLast? with
      | none => simp [List.getLast?_cons, hlast]
      | some last => simp [List.getLast?_cons, hlast]

theorem own_writeMarks {rows : List SchedulerRun} {runId : RunId} (marks : List Mark) :
    own prid (writeMarks runId marks rows) = writeMarks runId marks (own prid rows) := by
  induction marks generalizing rows with
  | nil => rfl
  | cons mark marks ih =>
      have hfirst : own prid (updateSchedulerRun rows runId
          fun r => { r with status := mark.status }) =
          updateSchedulerRun (own prid rows) runId fun r => { r with status := mark.status } :=
        own_update fun _ => rfl
      have hrest := @ih (updateSchedulerRun rows runId fun r => { r with status := mark.status })
      rw [writeMarks, List.foldl_cons]
      rw [writeMarks] at hrest
      rw [hrest, hfirst]
      rfl

@[simp]
theorem own_turn : own prid (turn prid h w).rows = own prid w.rows := h.before.keeps w.rows

variable (p : Pipeline) (triggerType : String) (force : Bool)

/-- The row of a step while the status is looked up. -/
def executedRun (k : Nat) (step : Step) (h : Happening prid) (now : Nat) : SchedulerRun :=
  { startedRun p prid triggerType k step now with
    status := (h.lastMark.map Mark.status).getD .running }

theorem own_execute (hids : ∀ r ∈ own prid w.rows, r.runId ≠ (prid, k)) :
    own prid (execute p prid triggerType force k step h w).rows =
      own prid w.rows ++ [executedRun p triggerType k step h w.now] := by
  have hstarted : own prid (w.rows ++ [startedRun p prid triggerType k step w.now]) =
      own prid w.rows ++ [startedRun p prid triggerType k step w.now] := by
    rw [own_append]
    congr 1
    simp [own, startedRun]
  rw [execute]
  simp only
  rw [h.during.keeps, own_writeMarks, hstarted]
  exact writeMarks_new (r := startedRun p prid triggerType k step w.now) h.marks hids

/-- An update of the row of the step, after its executor. -/
theorem own_update_execute {updates : SchedulerRun → SchedulerRun}
    (hids : ∀ r ∈ own prid w.rows, r.runId ≠ (prid, k))
    (hkeeps : ∀ r, (updates r).pipelineRunId = r.pipelineRunId) :
    own prid (updateSchedulerRun (execute p prid triggerType force k step h w).rows (prid, k)
        updates) =
      own prid w.rows ++ [updates (executedRun p triggerType k step h w.now)] := by
  rw [own_update hkeeps, own_execute p triggerType force hids]
  exact update_append_new (r := executedRun p triggerType k step h w.now) hids

/-- What the lookup tells about the step. -/
theorem inferStatus_lookup (hids : ∀ r ∈ own prid w.rows, r.runId ≠ (prid, k))
    (hstarted : ∀ r ∈ own prid w.rows, r.startedAt < w.now) :
    inferStatus ((getSchedulerRuns (execute p prid triggerType force k step h w).rows
      (execute p prid triggerType force k step h w).now 1 none none (some prid) 0 1).find?
        fun r => r.runId = (prid, k)) = h.recordedStatus := by
  have hnow : (execute p prid triggerType force k step h w).now ≤
      (executedRun p triggerType k step h w.now).startedAt + day ↔ h.duration ≤ day :=
    Nat.add_le_add_iff_left
  rw [getSchedulerRuns_newest (own_execute p triggerType force hids) hstarted,
    Happening.recordedStatus]
  by_cases hlate : day < h.duration
  · rw [if_neg (mt hnow.mp (Nat.not_le.mpr hlate)), if_pos hlate]
    rfl
  · have hself : (executedRun p triggerType k step h w.now).runId = (prid, k) := rfl
    rw [if_pos (hnow.mpr (Nat.not_lt.mp hlate)), if_neg hlate, List.find?_cons_of_pos (by simp [hself]),
      inferStatus, executedRun]
    cases h.lastMark with
    | none => rfl
    | some mark => cases mark <;> rfl

theorem runStep_after (hids : ∀ r ∈ own prid w.rows, r.runId ≠ (prid, k))
    (hstarted : ∀ r ∈ own prid w.rows, r.startedAt < w.now) (hcancel : h.cancelSet = false) :
    After prid k step (fate false h step) w
        (runStep p prid triggerType force k step h w).1 ∧
      (runStep p prid triggerType force k step h w).2 = (fate false h step).goesOn := by
  have hcalls : (execute p prid triggerType force k step h w).calls.map Call.runId =
      w.calls.map Call.runId ++ [(prid, k)] := by
    rw [execute, List.map_append]
    rfl
  have hlater : w.now ≤ (execute p prid triggerType force k step h w).now := Nat.le_add_right ..
  have hnotSkipped : ¬ (h.cancelSet = true ∨ false = true) := by simp [hcancel]
  rw [fate, if_neg hnotSkipped, runStep]
  by_cases hunknown : step.jobType ∉ jobExecutors
  · rw [if_pos hunknown, if_pos hunknown]
    exact ⟨⟨rfl, (List.append_nil _).symm, Nat.le_refl _⟩, rfl⟩
  · rw [if_neg hunknown, if_neg hunknown]
    cases hraises : h.raises with
    | some exc =>
        refine ⟨⟨⟨_, own_update_execute p triggerType force hids (fun _ => rfl), rfl, rfl, rfl, rfl,
          hlater⟩, hcalls, hlater⟩, rfl⟩
    | none =>
        simp only
        rw [inferStatus_lookup p triggerType force hids hstarted]
        refine ⟨⟨⟨_, own_update_execute p triggerType force hids (fun _ => rfl), rfl, rfl, rfl, rfl,
          hlater⟩, hcalls, hlater⟩, ?_⟩
        rw [Bool.eq_iff_iff, decide_eq_true_iff]
        exact (Fate.goesOn_iff.trans (by simp)).symm

/-- A round adds the row of its step, and none if the job type is unknown. -/
theorem chainStep_after {failed : Bool} (hids : ∀ r ∈ own prid w.rows, r.runId ≠ (prid, k))
    (hstarted : ∀ r ∈ own prid w.rows, r.startedAt ≤ w.now) :
    After prid k step (fate failed h step) w
        (chainStep p prid triggerType force k step h failed w).1 ∧
      (chainStep p prid triggerType force k step h failed w).2 = !(fate failed h step).goesOn := by
  have hturn : w.now < (turn prid h w).now := by
    rw [turn]
    simp only
    omega
  have hskipped : ∀ reason,
      After prid k step .skipped w (markSkipped p prid k step reason (turn prid h w)) := by
    intro reason
    have hrows : own prid (markSkipped p prid k step reason (turn prid h w)).rows =
        own prid w.rows ++ [skippedRun p prid k step reason (turn prid h w).now] := by
      rw [markSkipped, own_append, own_turn]
      congr 1
      simp [own, skippedRun]
    exact ⟨⟨_, hrows, rfl, rfl, rfl, rfl, Nat.le_refl _⟩, (List.append_nil _).symm, hturn.le⟩
  rw [chainStep]
  simp only
  by_cases hcancel : h.cancelSet = true
  · rw [if_pos hcancel, fate, if_pos (Or.inl hcancel)]
    exact ⟨hskipped _, rfl⟩
  · rw [if_neg hcancel]
    cases failed with
    | true =>
        rw [if_pos rfl, fate, if_pos (Or.inr rfl)]
        exact ⟨hskipped _, rfl⟩
    | false =>
        rw [if_neg Bool.false_ne_true]
        obtain ⟨hafter, hok⟩ := @runStep_after prid k step h (turn prid h w) p triggerType force
          (by rwa [own_turn]) (fun r hr => by
            rw [own_turn] at hr
            exact (hstarted r hr).trans_lt hturn) (by simpa using hcancel)
        refine ⟨⟨?_, hafter.calls, hturn.le.trans hafter.later⟩, by rw [hok]⟩
        have hrows := hafter.rows
        rw [own_turn] at hrows
        exact hrows

end Round

/-! ## All rounds -/

section Rounds

variable {prid : Nat} (env : Environment prid) (steps : List Step)

/-- The flag `failed` after `k` rounds. -/
def failedAt : Nat → Bool
  | 0 => false
  | k + 1 =>
      match steps[k]? with
      | none => failedAt k
      | some step => !(fate (failedAt k) (env.happens k) step).goesOn

/-- What becomes of the step with the number `k`. -/
def fateAt (k : Nat) (step : Step) : Fate := fate (failedAt env steps k) (env.happens k) step

/-- What the row of the step with the number `k` says, if it has one. -/
def digestAt (k : Nat) : Option (RunId × String × String × Status) :=
  steps[k]?.bind fun step =>
    (fateAt env steps k step).recorded.map fun status => ((prid, k), step.jobName, step.jobType, status)

def SchedulerRun.digest (r : SchedulerRun) : RunId × String × String × Status :=
  (r.runId, r.jobName, r.jobType, r.status)

def executedAt (k : Nat) : Bool := steps[k]?.any fun step => (fateAt env steps k step).executed

/-- The state of the loop after `k` rounds. -/
structure Invariant (k : Nat) (failed : Bool) (w : World) : Prop where
  flag : failed = failedAt env steps k
  digests : (own prid w.rows).map SchedulerRun.digest = (List.range k).filterMap (digestAt env steps)
  calls : w.calls.map Call.runId = ((List.range k).filter (executedAt env steps)).map fun j => (prid, j)
  started : ∀ r ∈ own prid w.rows, r.startedAt ≤ w.now

variable {env steps}

theorem digestAt_id {k : Nat} {d : RunId × String × String × Status}
    (h : digestAt env steps k = some d) : d.1 = (prid, k) := by
  obtain ⟨step, -, h⟩ := Option.bind_eq_some_iff.mp h
  obtain ⟨status, -, rfl⟩ := Option.map_eq_some_iff.mp h
  rfl

theorem Invariant.ids {k : Nat} {failed : Bool} {w : World} (hinv : Invariant env steps k failed w) :
    ∀ r ∈ own prid w.rows, r.runId ≠ (prid, k) := by
  intro r hr hsame
  have hdigest : r.digest ∈ (own prid w.rows).map SchedulerRun.digest := List.mem_map_of_mem hr
  rw [hinv.digests, List.mem_filterMap] at hdigest
  obtain ⟨j, hj, hdigest⟩ := hdigest
  have hid : r.runId = (prid, j) := digestAt_id hdigest
  rw [hid, Prod.mk.injEq] at hsame
  exact absurd (List.mem_range.mp hj) (by omega)

theorem Invariant.next {k : Nat} {step : Step} {failed : Bool} {w w' : World}
    (hinv : Invariant env steps k failed w) (hstep : steps[k]? = some step)
    (hafter : After prid k step (fateAt env steps k step) w w') :
    Invariant env steps (k + 1) (!(fateAt env steps k step).goesOn) w' := by
  have hdigest : digestAt env steps k =
      (fateAt env steps k step).recorded.map fun status =>
        ((prid, k), step.jobName, step.jobType, status) := by
    rw [digestAt, hstep]
    rfl
  have hrows := hafter.rows
  refine ⟨?_, ?_, ?_, ?_⟩
  · rw [failedAt, hstep]
    rfl
  · rw [List.range_succ, List.filterMap_append, ← hinv.digests]
    cases hrecorded : (fateAt env steps k step).recorded with
    | none =>
        rw [hrecorded] at hrows hdigest
        simp only at hrows
        rw [hrows]
        simp [hdigest]
    | some status =>
        rw [hrecorded] at hrows hdigest
        obtain ⟨r, hrows, hid, hname, htype, hstatus, -⟩ := hrows
        rw [hrows, List.map_append]
        simp [hdigest, SchedulerRun.digest, hid, hname, htype, hstatus]
  · have hexecuted : executedAt env steps k = (fateAt env steps k step).executed := by
      rw [executedAt, hstep]
      rfl
    rw [hafter.calls, hinv.calls, List.range_succ, List.filter_append, List.map_append]
    congr 1
    by_cases hcalled : (fateAt env steps k step).executed = true
    · simp [hexecuted, hcalled]
    · simp [hexecuted, hcalled]
  · intro r hr
    cases hrecorded : (fateAt env steps k step).recorded with
    | none =>
        rw [hrecorded] at hrows
        simp only at hrows
        rw [hrows] at hr
        exact (hinv.started r hr).trans hafter.later
    | some status =>
        rw [hrecorded] at hrows
        obtain ⟨new, hrows, -, -, -, -, hnew⟩ := hrows
        rw [hrows, List.mem_append, List.mem_singleton] at hr
        rcases hr with hr | rfl
        · exact (hinv.started r hr).trans hafter.later
        · exact hnew

/-- The loop over the steps that are left keeps the invariant. -/
theorem executeSteps_invariant (p : Pipeline) (triggerType : String) (force : Bool)
    {rest : List Step} {k : Nat} {failed : Bool} {w : World} (hinv : Invariant env steps k failed w)
    (hrest : steps.drop k = rest) :
    ∃ failed', Invariant env steps (k + rest.length) failed'
      (executeSteps p prid triggerType force env k rest failed w).1 := by
  induction rest generalizing k failed w with
  | nil => exact ⟨failed, hinv⟩
  | cons step rest ih =>
      have hstep : steps[k]? = some step := by
        rw [← List.head?_drop, hrest]
        rfl
      have hdrop : steps.drop (k + 1) = rest := by
        rw [← List.tail_drop, hrest]
        rfl
      obtain ⟨hafter, hflag⟩ := @chainStep_after prid k step (env.happens k) w p triggerType force
        failed hinv.ids hinv.started
      have hfate : fate failed (env.happens k) step = fateAt env steps k step := by
        rw [fateAt, hinv.flag]
      rw [hfate] at hafter hflag
      have hnext := hinv.next hstep hafter
      rw [← hflag] at hnext
      obtain ⟨failed', hdone⟩ := ih hnext hdrop
      refine ⟨failed', ?_⟩
      rw [List.length_cons, Nat.add_comm rest.length 1, ← Nat.add_assoc]
      exact hdone

end Rounds

/-! ## When a run is accounted for -/

/-- The world before the run of a pipeline: its id is a new uuid. -/
structure Start (prid : Nat) where
  rows : List SchedulerRun
  fresh : own prid rows = []
  now : Nat

def Start.world {prid : Nat} (start : Start prid) : World := ⟨start.rows, [], start.now⟩

section Accounting

variable {prid : Nat}

/-- The step fails or is cancelled. -/
def Wrong (h : Happening prid) (step : Step) : Prop :=
  h.cancelSet = true ∨ step.jobType ∉ jobExecutors ∨ h.raises ≠ none ∨
    h.lastMark = some .failed ∨ h.lastMark = some .cancelled

/-- No step runs after one that failed or was cancelled; each step has one row, which has an end; and a
row says success only if the executor returned and did not mark the run as failed. -/
structure Accounted (env : Environment prid) (steps : List Step) (w : World) : Prop where
  stops : ∀ i j step, i < j → steps[i]? = some step → Wrong (env.happens i) step →
    (prid, j) ∉ w.calls.map Call.runId
  recorded : ∀ i step, steps[i]? = some step →
    ∃ r, ((own prid w.rows).filter fun r => r.runId = (prid, i)) = [r] ∧
      r.jobName = step.jobName ∧ r.jobType = step.jobType ∧ r.status ≠ .running
  honest : ∀ r ∈ own prid w.rows, r.status = .success →
    ∃ i step, r.runId = (prid, i) ∧ steps[i]? = some step ∧ (prid, i) ∈ w.calls.map Call.runId ∧
      (env.happens i).raises = none ∧ (env.happens i).lastMark ≠ some .failed

/-- The executor of the step returns and leaves no bad mark. -/
def Passes (h : Happening prid) : Prop :=
  h.raises = none ∧ (h.lastMark = none ∨ h.lastMark = some .success)

/-- All steps before pass, and nobody cancels. -/
def Reached (env : Environment prid) (k : Nat) : Prop :=
  (env.happens k).cancelSet = false ∧
    ∀ j < k, (env.happens j).cancelSet = false ∧ Passes (env.happens j)

/-- A step that is reached has an executor; if that returns after more than a day, it has not marked the
run as failed. -/
def Followable (env : Environment prid) (steps : List Step) : Prop :=
  ∀ k step, steps[k]? = some step → Reached env k →
    step.jobType ∈ jobExecutors ∧
      ((env.happens k).raises = none → day < (env.happens k).duration →
        (env.happens k).lastMark ≠ some .failed)

variable {env : Environment prid} {steps : List Step}

theorem fate_finished_iff {failed : Bool} {h : Happening prid} {step : Step} {status : Status} :
    fate failed h step = .finished status ↔
      h.cancelSet = false ∧ failed = false ∧ step.jobType ∈ jobExecutors ∧ h.raises = none ∧
        h.recordedStatus = status := by
  rw [fate]
  by_cases hskipped : h.cancelSet = true ∨ failed = true
  · rw [if_pos hskipped]
    refine iff_of_false Fate.noConfusion ?_
    rintro ⟨hcancel, hfailed, -⟩
    rw [hcancel, hfailed] at hskipped
    exact absurd hskipped (by decide)
  · rw [if_neg hskipped]
    have hcancel : h.cancelSet = false := Bool.eq_false_iff.mpr fun hc => hskipped (Or.inl hc)
    have hfailed : failed = false := Bool.eq_false_iff.mpr fun hc => hskipped (Or.inr hc)
    by_cases hknown : step.jobType ∈ jobExecutors
    · rw [if_neg (not_not_intro hknown)]
      cases hraises : h.raises with
      | some exc => simp
      | none => simp [hcancel, hfailed, hknown]
    · rw [if_pos hknown]
      exact iff_of_false Fate.noConfusion fun hall => hknown hall.2.2.1

theorem fate_unknown_iff {failed : Bool} {h : Happening prid} {step : Step} :
    fate failed h step = .unknown ↔
      h.cancelSet = false ∧ failed = false ∧ step.jobType ∉ jobExecutors := by
  rw [fate]
  cases hcancel : h.cancelSet with
  | true => simp
  | false =>
      cases failed with
      | true => simp
      | false =>
          by_cases hknown : step.jobType ∈ jobExecutors
          · cases h.raises <;> simp [hknown]
          · simp [hknown]

theorem fate_executed {failed : Bool} {h : Happening prid} {step : Step}
    (hexecuted : (fate failed h step).executed = true) :
    h.cancelSet = false ∧ failed = false := by
  by_cases hskipped : h.cancelSet = true ∨ failed = true
  · rw [fate, if_pos hskipped] at hexecuted
    exact absurd hexecuted (by decide)
  · rw [not_or, Bool.not_eq_true, Bool.not_eq_true] at hskipped
    exact hskipped

theorem recorded_ne_running {failed : Bool} {h : Happening prid} {step : Step} :
    (fate failed h step).recorded ≠ some .running := by
  have hstatus : h.recordedStatus ≠ .running := by
    rw [Happening.recordedStatus]
    split
    · decide
    · cases h.lastMark with
      | none => decide
      | some mark => cases mark <;> decide
  rw [fate]
  split
  · decide
  · split
    · decide
    · split
      · decide
      · exact fun hsame => hstatus (Option.some.inj hsame)

theorem recordedStatus_of_passes {h : Happening prid} (hpasses : Passes h) :
    h.recordedStatus = .success := by
  rw [Happening.recordedStatus]
  rcases hpasses.2 with hmark | hmark <;> rw [hmark] <;> exact ite_self _

theorem failedAt_mono {i j : Nat} (hle : i ≤ j) (hj : failedAt env steps j = false) :
    failedAt env steps i = false := by
  induction j, hle using Nat.le_induction with
  | base => exact hj
  | succ j _ ih =>
      apply ih
      rw [failedAt] at hj
      cases hstep : steps[j]? with
      | none =>
          rw [hstep] at hj
          exact hj
      | some step =>
          rw [hstep] at hj
          have hgoes : (fate (failedAt env steps j) (env.happens j) step).goesOn = true := by
            simpa using hj
          exact (fate_finished_iff.mp (Fate.goesOn_iff.mp hgoes)).2.1

theorem filter_digests (n i : Nat) :
    ((List.range n).filterMap (digestAt env steps)).filter (fun d => d.1 = (prid, i)) =
      if i < n then (digestAt env steps i).toList else [] := by
  induction n with
  | zero => rfl
  | succ n ih =>
      have hlast : ((digestAt env steps n).toList.filter fun d => d.1 = (prid, i)) =
          if i = n then (digestAt env steps i).toList else [] := by
        cases hdigest : digestAt env steps n with
        | none =>
            by_cases hin : i = n
            · simp [hin, hdigest]
            · simp [hin]
        | some d =>
            have hid := digestAt_id hdigest
            by_cases hin : i = n
            · simp [hin, hid, hdigest]
            · simp [hin, hid, Ne.symm hin]
      rw [List.range_succ, List.filterMap_append, List.filter_append, ih]
      have hsingle : [n].filterMap (digestAt env steps) = (digestAt env steps n).toList := by
        cases hdigest : digestAt env steps n <;> simp [hdigest]
      rw [hsingle, hlast]
      by_cases hlt : i < n
      · simp [hlt, Nat.lt_succ_of_lt hlt, Nat.ne_of_lt hlt]
      · by_cases hin : i = n
        · simp [hin]
        · have hgt : ¬ i < n + 1 := by omega
          simp [hlt, hin, hgt]

section Final

variable {failed : Bool} {w : World} (hinv : Invariant env steps steps.length failed w)

include hinv

theorem digests_of_step {i : Nat} {step : Step} (hstep : steps[i]? = some step) :
    ((own prid w.rows).filter fun r => r.runId = (prid, i)).map SchedulerRun.digest =
      ((fateAt env steps i step).recorded.map fun status =>
        ((prid, i), step.jobName, step.jobType, status)).toList := by
  have hlt : i < steps.length := (List.getElem?_eq_some_iff.mp hstep).1
  have hfilter : ((own prid w.rows).filter fun r => r.runId = (prid, i)).map SchedulerRun.digest =
      ((own prid w.rows).map SchedulerRun.digest).filter fun d => d.1 = (prid, i) := by
    rw [List.filter_map]
    rfl
  rw [hfilter, hinv.digests, filter_digests, if_pos hlt, digestAt, hstep]
  rfl

/-- A step has one row, unless its job type was unknown when it was reached. -/
theorem recorded_iff {i : Nat} {step : Step} (hstep : steps[i]? = some step) :
    (∃ r, ((own prid w.rows).filter fun r => r.runId = (prid, i)) = [r] ∧
      r.jobName = step.jobName ∧ r.jobType = step.jobType ∧ r.status ≠ .running) ↔
      fateAt env steps i step ≠ .unknown := by
  have hdigests := digests_of_step hinv hstep
  constructor
  · rintro ⟨r, hone, -⟩ hunknown
    rw [hone, Fate.recorded_eq_none_iff.mpr hunknown] at hdigests
    cases hdigests
  · intro hknown
    obtain ⟨status, hstatus⟩ := Option.ne_none_iff_exists'.mp
      (mt Fate.recorded_eq_none_iff.mp hknown)
    rw [hstatus] at hdigests
    obtain ⟨r, hone, hdigest⟩ := List.map_eq_singleton_iff.mp hdigests
    refine ⟨r, hone, congrArg (fun d => d.2.1) hdigest, congrArg (fun d => d.2.2.1) hdigest, ?_⟩
    have hsame : r.status = status := congrArg (fun d => d.2.2.2) hdigest
    intro hrunning
    rw [← hsame, hrunning] at hstatus
    exact recorded_ne_running hstatus

theorem row_of_step {r : SchedulerRun} (hr : r ∈ own prid w.rows) :
    ∃ i step, r.runId = (prid, i) ∧ steps[i]? = some step ∧
      (fateAt env steps i step).recorded = some r.status := by
  have hdigest : r.digest ∈ (own prid w.rows).map SchedulerRun.digest := List.mem_map_of_mem hr
  rw [hinv.digests, List.mem_filterMap] at hdigest
  obtain ⟨i, -, hdigest⟩ := hdigest
  have hid : r.runId = (prid, i) := digestAt_id hdigest
  obtain ⟨step, hstep, hdigest⟩ := Option.bind_eq_some_iff.mp hdigest
  obtain ⟨status, hstatus, hdigest⟩ := Option.map_eq_some_iff.mp hdigest
  have hsame : status = r.status := congrArg (fun d => d.2.2.2) hdigest
  exact ⟨i, step, hid, hstep, hsame ▸ hstatus⟩

theorem called_iff {i : Nat} {step : Step} (hstep : steps[i]? = some step) :
    (prid, i) ∈ w.calls.map Call.runId ↔ (fateAt env steps i step).executed = true := by
  have hlt : i < steps.length := (List.getElem?_eq_some_iff.mp hstep).1
  have hexecuted : executedAt env steps i = (fateAt env steps i step).executed := by
    rw [executedAt, hstep]
    rfl
  rw [hinv.calls, ← hexecuted]
  simp [hlt]

/-! ### The two directions -/

theorem failedAt_of_reached {k : Nat} (hk : k ≤ steps.length) (hacc : Accounted env steps w)
    (hbefore : ∀ j < k, (env.happens j).cancelSet = false ∧ Passes (env.happens j)) :
    failedAt env steps k = false := by
  induction k with
  | zero => rfl
  | succ k ih =>
      have hflag := ih (by omega) fun j hj => hbefore j (Nat.lt_succ_of_lt hj)
      obtain ⟨hcancel, hpasses⟩ := hbefore k (Nat.lt_succ_self k)
      have hstep : steps[k]? = some steps[k] := List.getElem?_eq_getElem (by omega)
      have hrecorded := (recorded_iff hinv hstep).mp (hacc.recorded k _ hstep)
      have hknown : steps[k].jobType ∈ jobExecutors := by
        by_contra hunknown
        exact hrecorded (fate_unknown_iff.mpr ⟨hcancel, hflag, hunknown⟩)
      have hfate : fate (failedAt env steps k) (env.happens k) steps[k] = .finished .success :=
        fate_finished_iff.mpr ⟨hcancel, hflag, hknown, hpasses.1, recordedStatus_of_passes hpasses⟩
      rw [failedAt, hstep]
      simp only
      rw [hfate]
      rfl

theorem followable_of_accounted (hacc : Accounted env steps w) : Followable env steps := by
  intro k step hstep hreached
  have hlt : k < steps.length := (List.getElem?_eq_some_iff.mp hstep).1
  have hflag := failedAt_of_reached hinv hlt.le hacc hreached.2
  have hrecorded := (recorded_iff hinv hstep).mp (hacc.recorded k _ hstep)
  have hknown : step.jobType ∈ jobExecutors := by
    by_contra hunknown
    exact hrecorded (fate_unknown_iff.mpr ⟨hreached.1, hflag, hunknown⟩)
  refine ⟨hknown, ?_⟩
  intro hraises hlate hmark
  have hstatus : (env.happens k).recordedStatus = .success := by
    rw [Happening.recordedStatus, if_pos hlate]
  have hfate : fateAt env steps k step = .finished .success :=
    fate_finished_iff.mpr ⟨hreached.1, hflag, hknown, hraises, hstatus⟩
  -- its row says success, so it would be honest
  have hdigests := digests_of_step hinv hstep
  rw [hfate] at hdigests
  obtain ⟨r, hone, hdigest⟩ := List.map_eq_singleton_iff.mp hdigests
  have hr : r ∈ own prid w.rows := by
    have hmem : r ∈ (own prid w.rows).filter fun r => r.runId = (prid, k) := by
      rw [hone]
      exact List.mem_singleton_self r
    exact List.mem_of_mem_filter hmem
  have hid : r.runId = (prid, k) := congrArg Prod.fst hdigest
  have hsuccess : r.status = .success := congrArg (fun d => d.2.2.2) hdigest
  obtain ⟨i, step', hid', -, -, -, hnot⟩ := hacc.honest r hr hsuccess
  rw [hid, Prod.mk.injEq] at hid'
  exact hnot (hid'.2 ▸ hmark)

omit hinv in
theorem reached_of_failedAt (hfollow : Followable env steps) {k : Nat} (hk : k ≤ steps.length)
    (hflag : failedAt env steps k = false) (hcancel : (env.happens k).cancelSet = false) :
    Reached env k := by
  induction k with
  | zero => exact ⟨hcancel, fun j hj => absurd hj (Nat.not_lt_zero j)⟩
  | succ k ih =>
      have hstep : steps[k]? = some steps[k] := List.getElem?_eq_getElem (by omega)
      have hgoes : (fate (failedAt env steps k) (env.happens k) steps[k]).goesOn = true := by
        rw [failedAt, hstep] at hflag
        simpa using hflag
      obtain ⟨hcancel', hflag', -, hraises, hstatus⟩ :=
        fate_finished_iff.mp (Fate.goesOn_iff.mp hgoes)
      have hreached := ih (by omega) hflag' hcancel'
      obtain ⟨-, hseen⟩ := hfollow k _ hstep hreached
      have hmark : (env.happens k).lastMark = none ∨ (env.happens k).lastMark = some .success := by
        cases hlast : (env.happens k).lastMark with
        | none => exact Or.inl rfl
        | some mark =>
            refine Or.inr ?_
            cases mark with
            | success => rfl
            | failed =>
                have hlate : ¬ day < (env.happens k).duration :=
                  fun hlate => hseen hraises hlate hlast
                rw [Happening.recordedStatus, if_neg hlate, hlast] at hstatus
                cases hstatus
            | cancelled =>
                -- the event is set, so the loop would not have come so far
                have hset := env.cancelledWhenSet k (List.mem_of_getLast? hlast)
                rw [hcancel] at hset
                cases hset
      refine ⟨hcancel, ?_⟩
      intro j hj
      rcases Nat.lt_succ_iff_lt_or_eq.mp hj with hj | rfl
      · exact hreached.2 j hj
      · exact ⟨hcancel', hraises, hmark⟩

theorem accounted_of_followable (hfollow : Followable env steps) : Accounted env steps w := by
  have hreach : ∀ {i step}, steps[i]? = some step → (env.happens i).cancelSet = false →
      failedAt env steps i = false → Reached env i := by
    intro i step hstep hcancel hflag
    exact reached_of_failedAt hfollow (List.getElem?_eq_some_iff.mp hstep).1.le hflag hcancel
  refine ⟨?_, ?_, ?_⟩
  · intro i j step hij hstep hwrong hcalled
    have hj : j < steps.length := by
      rw [hinv.calls, List.mem_map] at hcalled
      obtain ⟨j', hj', hsame⟩ := hcalled
      rw [Prod.mk.injEq] at hsame
      rw [← hsame.2]
      exact List.mem_range.mp (List.mem_of_mem_filter hj')
    have hstepJ : steps[j]? = some steps[j] := List.getElem?_eq_getElem hj
    obtain ⟨hcancel, hflag⟩ := fate_executed ((called_iff hinv hstepJ).mp hcalled)
    have hreached := hreach hstepJ hcancel hflag
    obtain ⟨hcancelI, hraises, hmark⟩ := hreached.2 i hij
    have hreachedI := hreach hstep hcancelI (failedAt_mono hij.le hflag)
    have hknown := (hfollow i step hstep hreachedI).1
    rcases hwrong with hcancelled | hunknown | hraised | hfailed | hcancelled
    · rw [hcancelI] at hcancelled
      cases hcancelled
    · exact hunknown hknown
    · exact hraised hraises
    · rw [hfailed] at hmark
      simp at hmark
    · rw [hcancelled] at hmark
      simp at hmark
  · intro i step hstep
    rw [recorded_iff hinv hstep]
    intro hunknown
    obtain ⟨hcancel, hflag, hunknown⟩ := fate_unknown_iff.mp hunknown
    exact hunknown (hfollow i step hstep (hreach hstep hcancel hflag)).1
  · intro r hr hsuccess
    obtain ⟨i, step, hid, hstep, hrecorded⟩ := row_of_step hinv hr
    rw [hsuccess] at hrecorded
    have hfate : fateAt env steps i step = .finished .success := by
      cases hfate : fateAt env steps i step with
      | finished status =>
          rw [hfate] at hrecorded
          rw [Option.some.inj hrecorded]
      | _ =>
          rw [hfate] at hrecorded
          cases hrecorded
    obtain ⟨hcancel, hflag, -, hraises, hstatus⟩ := fate_finished_iff.mp hfate
    have hcalled : (prid, i) ∈ w.calls.map Call.runId := by
      rw [called_iff hinv hstep, hfate]
      rfl
    refine ⟨i, step, hid, hstep, hcalled, hraises, ?_⟩
    intro hmark
    obtain ⟨-, hseen⟩ := hfollow i step hstep (hreach hstep hcancel hflag)
    have hlate : ¬ day < (env.happens i).duration := fun hlate => hseen hraises hlate hmark
    rw [Happening.recordedStatus, if_neg hlate, hmark] at hstatus
    cases hstatus

end Final

end Accounting

/-- A run of a pipeline, from any start step, is accounted for if and only if every step that is reached
has an executor, and no executor that takes more than a day marks its run as failed. -/
theorem executeChain_accounted_iff {prid : Nat} (p : Pipeline) (triggerType : String) (force : Bool)
    (startStep : Int) (env : Environment prid) (start : Start prid) :
    Accounted env (chainSteps p startStep)
        (executeChain p prid triggerType force startStep env start.world) ↔
      Followable env (chainSteps p startStep) := by
  have hstart : Invariant env (chainSteps p startStep) 0 false start.world := by
    have hown : own prid start.world.rows = [] := start.fresh
    refine ⟨rfl, ?_, rfl, ?_⟩
    · rw [hown]
      rfl
    · intro r hr
      rw [hown] at hr
      cases hr
  obtain ⟨failed, hdone⟩ := executeSteps_invariant p triggerType force hstart List.drop_zero
  rw [Nat.zero_add] at hdone
  exact ⟨followable_of_accounted hdone, accounted_of_followable hdone⟩

/-! ## Two runs that are not accounted for -/

/-- A step at which its executor takes `duration` and leaves a mark. -/
def returned (duration : Nat) (mark : Mark) : Happening 0 where
  cancelSet := false
  wait := 0
  duration := duration
  marks := [mark]
  raises := none
  before := Activity.none 0
  during := Activity.none 0

/-- The first step takes a day and a second and marks its run as failed; the others are quick. -/
def slowFailure : Environment 0 where
  happens := fun k => if k = 0 then returned (day + 1000000) .failed else returned 1000000 .success
  cancelledWhenSet := by
    intro k hmark
    split at hmark <;> cases hmark <;> contradiction

def refreshThenAnalytics : Pipeline :=
  ⟨"nightly", "all", [⟨1, "data_refresh", "Refresh"⟩, ⟨2, "compute_analytics", "Analytics"⟩]⟩

def unknownThenAnalytics : Pipeline :=
  ⟨"nightly", "all", [⟨1, "gap_fill", "Gaps"⟩, ⟨2, "compute_analytics", "Analytics"⟩]⟩

def idle : Start 0 := ⟨[], rfl, 0⟩

/-- The failure of a slow step is recorded as a success, and the next step runs; a step with an unknown
job type has no row. -/
theorem pipelines_unaccounted :
    let slow := triggerPipeline refreshThenAnalytics 0 "manual" false slowFailure idle.world
    let unknown := triggerPipeline unknownThenAnalytics 0 "manual" false slowFailure idle.world
    (slowFailure.happens 0).lastMark = some .failed ∧
      slow.rows.map (fun r => (r.jobName, r.status)) =
        [("Refresh", .success), ("Analytics", .success)] ∧
      slow.calls.map Call.runId = [(0, 0), (0, 1)] ∧
      unknown.rows.map (fun r => (r.jobName, r.status)) = [("Analytics", .skipped)] ∧
      ¬ Accounted slowFailure (chainSteps refreshThenAnalytics 1) slow ∧
      ¬ Accounted slowFailure (chainSteps unknownThenAnalytics 1) unknown := by
  refine ⟨rfl, by decide, by decide, by decide, ?_, ?_⟩
  · intro hacc
    have hstop := hacc.stops 0 1 ⟨1, "data_refresh", "Refresh"⟩ Nat.zero_lt_one (by decide)
      (Or.inr (Or.inr (Or.inr (Or.inl rfl))))
    exact hstop (by decide)
  · intro hacc
    obtain ⟨r, hone, -⟩ := hacc.recorded 0 ⟨1, "gap_fill", "Gaps"⟩ (by decide)
    have hnone : ((own 0 (triggerPipeline unknownThenAnalytics 0 "manual" false slowFailure
        idle.world).rows).map SchedulerRun.runId).filter (fun id => id = (0, 0)) = [] := by
      decide
    rw [List.filter_map] at hnone
    have hempty := List.map_eq_nil_iff.mp hnone
    rw [show ((fun id : RunId => decide (id = (0, 0))) ∘ SchedulerRun.runId) =
      fun r : SchedulerRun => decide (r.runId = (0, 0)) from rfl, hone] at hempty
    cases hempty

end AsetPlatform.Jobs
