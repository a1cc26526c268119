import AsetPlatform.Jobs.SchedulerRuns

/-!
# Pipelines

`PipelineExecutor` of `backend/jobs/pipeline_executor.py`: the steps of a pipeline in their order,
each with a row in `scheduler_runs`. What the executor of a step does is given from outside: the
statuses that it leaves in its row, how long it takes, and whether it raises. So is everything that
others write meanwhile. Between two readings of the clock for two steps some time passes.
-/

set_option autoImplicit false

namespace AsetPlatform.Jobs

structure Step where
  stepOrder : Int
  jobType : String
  jobName : String
  deriving DecidableEq

structure Pipeline where
  pipelineId : String
  scope : String
  steps : List Step

/-- The keys of `JOB_EXECUTORS`. -/
def jobExecutors : List String :=
  ["data_refresh", "compute_analytics", "run_sentiment", "run_forecasts", "run_piotroski",
    "recommendations", "recommendation_outcomes", "iceberg_maintenance", "recommendation_cleanup"]

/-- What executors write as the status of their run. -/
inductive Mark where
  | success
  | failed
  | cancelled
  deriving DecidableEq

def Mark.status : Mark → Status
  | success => .success
  | failed => .failed
  | cancelled => .cancelled

/-- What others write; the rows of the pipeline run are not theirs. -/
structure Activity (prid : Nat) where
  write : List SchedulerRun → List SchedulerRun
  keeps : ∀ rows, own prid (write rows) = own prid rows

/-- Nobody writes. -/
def Activity.none (prid : Nat) : Activity prid := ⟨fun rows => rows, fun _ => rfl⟩

/-- What happens when it is the turn of a step. -/
structure Happening (prid : Nat) where
  cancelSet : Bool
  wait : Nat
  duration : Nat
  marks : List Mark
  raises : Option String
  before : Activity prid
  during : Activity prid

/-- What happens at each step. An executor marks its run as cancelled when the event is set, and the
event stays set. -/
structure Environment (prid : Nat) where
  happens : Nat → Happening prid
  cancelledWhenSet : ∀ k, Mark.cancelled ∈ (happens k).marks → (happens (k + 1)).cancelSet = true

/-- A call of an executor. -/
structure Call where
  runId : RunId
  jobType : String
  scope : String
  force : Bool

structure World where
  rows : List SchedulerRun
  calls : List Call
  now : Nat

section Chain

variable (p : Pipeline) (prid : Nat) (triggerType : String) (force : Bool)

/-- The row of a step that is skipped; `k` is the number of the step. -/
def skippedRun (k : Nat) (step : Step) (reason : String) (now : Nat) : SchedulerRun where
  runId := (prid, k)
  jobId := p.pipelineId
  jobName := step.jobName
  jobType := step.jobType
  scope := p.scope
  status := .skipped
  startedAt := now
  completedAt := some now
  duration := some 0
  errorMessage := some reason
  triggerType := "pipeline"
  pipelineRunId := some prid

/-- `_mark_skipped`. -/
def markSkipped (k : Nat) (step : Step) (reason : String) (w : World) : World :=
  { w with rows := w.rows ++ [skippedRun p prid k step reason w.now] }

def startedRun (k : Nat) (step : Step) (now : Nat) : SchedulerRun where
  runId := (prid, k)
  jobId := p.pipelineId
  jobName := step.jobName
  jobType := step.jobType
  scope := p.scope
  status := .running
  startedAt := now
  completedAt := none
  duration := none
  errorMessage := none
  triggerType := triggerType
  pipelineRunId := some prid

/-- The writes of an executor to its row. -/
def writeMarks (runId : RunId) (marks : List Mark) (rows : List SchedulerRun) : List SchedulerRun :=
  marks.foldl (fun rows mark => updateSchedulerRun rows runId fun r =>
    { r with status := mark.status }) rows

/-- The step starts and its executor runs. -/
def execute (k : Nat) (step : Step) (h : Happening prid) (w : World) : World where
  rows := h.during.write
    (writeMarks (prid, k) h.marks (w.rows ++ [startedRun p prid triggerType k step w.now]))
  calls := w.calls ++ [⟨(prid, k), step.jobType, p.scope, force⟩]
  now := w.now + h.duration

/-- `status == "running"` is taken for a success, and so is a run that the lookup does not find. -/
def inferStatus (stepRun : Option SchedulerRun) : Status :=
  match stepRun with
  | some r => if r.status = .running then .success else r.status
  | none => .success

/-- `_run_step`. -/
def runStep (k : Nat) (step : Step) (h : Happening prid) (w : World) : World × Bool :=
  if step.jobType ∉ jobExecutors then (w, false)
  else
    let after := execute p prid triggerType force k step h w
    match h.raises with
    | some exc =>
        ({ after with
          rows := updateSchedulerRun after.rows (prid, k) fun r =>
            { r with
              status := .failed
              completedAt := some after.now
              duration := some h.duration
              errorMessage := some (String.ofList (exc.toList.take 500)) } }, false)
    | none =>
        let last := getSchedulerRuns after.rows after.now 1 none none (some prid) 0 1
        let status := inferStatus (last.find? fun r => r.runId = (prid, k))
        ({ after with
          rows := updateSchedulerRun after.rows (prid, k) fun r =>
            { r with
              status := status
              completedAt := some after.now
              duration := some h.duration } }, decide (status = .success))

def turn (h : Happening prid) (w : World) : World :=
  { w with rows := h.before.write w.rows, now := w.now + h.wait + 1 }

/-- One round of the loop of `_execute_chain`, with the flag `failed`. -/
def chainStep (k : Nat) (step : Step) (h : Happening prid) (failed : Bool) (w : World) :
    World × Bool :=
  let w := turn prid h w
  if h.cancelSet then (markSkipped p prid k step "Pipeline cancelled" w, true)
  else if failed then (markSkipped p prid k step "Skipped: prior step failed" w, true)
  else
    let (w, ok) := runStep p prid triggerType force k step h w
    (w, !ok)

/-- The loop over the steps that are left, from the number `k` on. -/
def executeSteps (env : Environment prid) : Nat → List Step → Bool → World → World × Bool
  | _, [], failed, w => (w, failed)
  | k, step :: rest, failed, w =>
      let (w, failed) := chainStep p prid triggerType force k step (env.happens k) failed w
      executeSteps env (k + 1) rest failed w

/-- The steps in their order, without those before the start step. -/
def chainSteps (startStep : Int) : List Step :=
  (p.steps.insertionSort fun a b => a.stepOrder ≤ b.stepOrder).filter fun s =>
    startStep ≤ s.stepOrder

/-- `_execute_chain`. -/
def executeChain (startStep : Int) (env : Environment prid) (w : World) : World :=
  (executeSteps p prid triggerType force env 0 (chainSteps p startStep) false w).1

end Chain

/-- `trigger_pipeline`. -/
def triggerPipeline (p : Pipeline) (prid : Nat) (triggerType : String) (force : Bool)
    (env : Environment prid) (w : World) : World :=
  executeChain p prid triggerType force 1 env w

/-- `resume_pipeline`. -/
def resumePipeline (p : Pipeline) (prid : Nat) (fromStep : Int) (env : Environment prid)
    (w : World) : World :=
  executeChain p prid "manual" false fromStep env w

end AsetPlatform.Jobs
