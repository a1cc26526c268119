import Mathlib.Data.List.Sort

/-!
# The runs of the scheduler

The table `scheduler_runs` of `backend/db/pg_stocks.py`. Times are in microseconds. A run id is a
uuid; it is named after the one who draws it and the number that it has with them.
-/

set_option autoImplicit false

namespace AsetPlatform.Jobs

inductive Status where
  | running
  | success
  | failed
  | cancelled
  | skipped
  deriving DecidableEq

/-- Who draws it, and the number that it has with them. -/
abbrev RunId := Nat × Nat

/-- A row of `scheduler_runs`. -/
structure SchedulerRun where
  runId : RunId
  jobId : String
  jobName : String
  jobType : String
  scope : String
  status : Status
  startedAt : Nat
  completedAt : Option Nat
  duration : Option Nat
  errorMessage : Option String
  triggerType : String
  pipelineRunId : Option Nat

/-- `update_scheduler_run_pg`. -/
def updateSchedulerRun (rows : List SchedulerRun) (runId : RunId)
    (updates : SchedulerRun → SchedulerRun) : List SchedulerRun :=
  rows.map fun r => if r.runId = runId then updates r else r

def day : Nat := 86400000000

/-- `get_scheduler_runs_pg` at the time `now`: the newest first. A limit of 0 is no limit. -/
def getSchedulerRuns (rows : List SchedulerRun) (now days : Nat) (jobType : Option String)
    (status : Option Status) (pipelineRunId : Option Nat) (offset limit : Nat) :
    List SchedulerRun :=
  let found := rows.filter fun r =>
    decide (now ≤ r.startedAt + days * day) && jobType.all (fun t => r.jobType = t) &&
      status.all (fun s => r.status = s) && pipelineRunId.all (fun p => r.pipelineRunId = some p)
  let ordered := (found.insertionSort fun a b => b.startedAt ≤ a.startedAt).drop offset
  if limit = 0 then ordered else ordered.take limit

def own (prid : Nat) (rows : List SchedulerRun) : List SchedulerRun :=
  rows.filter fun r => r.pipelineRunId = some prid

@[simp]
theorem own_append (prid : Nat) (rows rows' : List SchedulerRun) :
    own prid (rows ++ rows') = own prid rows ++ own prid rows' := List.filter_append ..

theorem own_update {prid : Nat} {rows : List SchedulerRun} {runId : RunId}
    {updates : SchedulerRun → SchedulerRun}
    (hkeeps : ∀ r, (updates r).pipelineRunId = r.pipelineRunId) :
    own prid (updateSchedulerRun rows runId updates) =
      updateSchedulerRun (own prid rows) runId updates := by
  rw [own, updateSchedulerRun, List.filter_map]
  congr 1
  apply List.filter_congr
  intro r _
  simp only [Function.comp_apply]
  split
  · rw [hkeeps]
  · rfl

theorem update_append_new {rows : List SchedulerRun} {r : SchedulerRun}
    {updates : SchedulerRun → SchedulerRun} (hnew : ∀ r' ∈ rows, r'.runId ≠ r.runId) :
    updateSchedulerRun (rows ++ [r]) r.runId updates = rows ++ [updates r] := by
  have hold : updateSchedulerRun rows r.runId updates = rows := by
    rw [updateSchedulerRun]
    exact (List.map_congr_left fun r' hr' => if_neg (hnew r' hr')).trans (List.map_id' rows)
  rw [updateSchedulerRun, List.map_append]
  refine congrArg₂ (· ++ ·) hold ?_
  rw [List.map_singleton, if_pos rfl]

theorem insertionSort_newest {olds : List SchedulerRun} {r : SchedulerRun}
    (holds : ∀ r' ∈ olds, r'.startedAt < r.startedAt) :
    ∃ rest, (olds ++ [r]).insertionSort (fun a b => b.startedAt ≤ a.startedAt) = r :: rest := by
  induction olds with
  | nil => exact ⟨[], rfl⟩
  | cons old olds ih =>
      obtain ⟨rest, hrest⟩ := ih fun r' hr' => holds r' (List.mem_cons_of_mem old hr')
      have hold := holds old List.mem_cons_self
      refine ⟨rest.orderedInsert (fun a b => b.startedAt ≤ a.startedAt) old, ?_⟩
      rw [List.cons_append, List.insertionSort_cons, hrest, List.orderedInsert,
        if_neg (Nat.not_le.mpr hold)]

/-- The lookup of the newest run of a pipeline run finds the run in progress, unless that began more
than a day ago; then it finds none. -/
theorem getSchedulerRuns_newest {rows olds : List SchedulerRun} {r : SchedulerRun}
    {prid now : Nat} (hown : own prid rows = olds ++ [r])
    (holds : ∀ r' ∈ olds, r'.startedAt < r.startedAt) :
    getSchedulerRuns rows now 1 none none (some prid) 0 1 =
      if now ≤ r.startedAt + day then [r] else [] := by
  have hfound : rows.filter (fun r => decide (now ≤ r.startedAt + 1 * day) &&
        (none : Option String).all (fun t => r.jobType = t) &&
        (none : Option Status).all (fun s => r.status = s) &&
        (some prid).all (fun p => r.pipelineRunId = some p)) =
      (olds.filter fun r => now ≤ r.startedAt + day) ++
        [r].filter fun r => now ≤ r.startedAt + day := by
    rw [← List.filter_append, ← hown, own, List.filter_filter]
    apply List.filter_congr
    intro r _
    simp
  rw [getSchedulerRuns, hfound]
  by_cases hrecent : now ≤ r.startedAt + day
  · have hnewest : ∀ r' ∈ olds.filter (fun r => decide (now ≤ r.startedAt + day)),
        r'.startedAt < r.startedAt := fun r' hr' => holds r' (List.mem_of_mem_filter hr')
    obtain ⟨rest, hrest⟩ := insertionSort_newest hnewest
    have hone : [r].filter (fun r => decide (now ≤ r.startedAt + day)) = [r] := by simp [hrecent]
    rw [hone, hrest, if_pos hrecent]
    rfl
  · have hnone : olds.filter (fun r => decide (now ≤ r.startedAt + day)) = [] := by
      rw [List.filter_eq_nil_iff]
      intro r' hr'
      have hold := holds r' hr'
      simp only [decide_eq_true_eq]
      omega
    have hone : [r].filter (fun r => decide (now ≤ r.startedAt + day)) = [] := by simp [hrecent]
    rw [hnone, hone, if_neg hrecent]
    rfl

end AsetPlatform.Jobs
