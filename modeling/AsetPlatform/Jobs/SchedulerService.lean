import AsetPlatform.Jobs.PipelineExecutor
import AsetPlatform.Library.Dict
import AsetPlatform.Library.Run

/-!
# The scheduler service

`SchedulerService` of `backend/jobs/scheduler_service.py`: what it triggers, how the pool executes
it, and how it is cancelled. A trigger is a thread of its own that goes on step by step, and so is
the code of a run; any of them may move next. `_trigger_pipeline` looks whether the pipeline is
running and then calls `trigger_pipeline_now`, which does not look again.

A trigger of a job registers the event of its run before it submits the run, a trigger of a pipeline
afterwards. The events of pipelines are found under the tag of the pipeline, while each step has a run
id of its own.
-/

set_option autoImplicit false

namespace AsetPlatform.Jobs.Scheduler

open AsetPlatform.Library

/-! ## What is scheduled -/

/-- The days of the month are there when `cron_dates` is not blank. -/
structure Timetable where
  enabled : Bool
  cronDates : Option (List Nat)

/-- What a schedule that fires looks at first. -/
def Timetable.due (t : Timetable) (today : Nat) : Bool :=
  t.enabled &&
    match t.cronDates with
    | some allowed => allowed.contains today
    | none => true

structure JobData where
  jobType : String
  timetable : Timetable

/-- `_pipelines`, `_jobs` and the size of the pool. -/
structure Service where
  pipelines : String → Option (Pipeline × Timetable)
  jobs : String → Option JobData
  maxWorkers : Nat

/-! ## Runs -/

/-- The keys of `_futures` and `_cancel_events`. Tags begin with `pipeline:`, and the ids of jobs and
of runs are drawn, so that none of them is another. -/
inductive Key where
  | tag (pipelineId : String)
  | jobId (id : String)
  | runId (n : Nat)
  deriving DecidableEq

inductive Task where
  | pipeline (pipelineId : String)
  | job (jobId : String) (runId : Nat) (jobType : String)
  deriving DecidableEq

/-- A run is triggered until the pool has it, and done when its future is. -/
inductive Phase where
  | triggered
  | queued
  | executing
  | done
  deriving DecidableEq

/-- An executor at work, and how many times it is going to look at its event. -/
structure ExecutorCall where
  runId : Nat
  jobType : String
  looks : Nat
  deriving DecidableEq

/-- `recommendation_cleanup` never looks at the event that it is given, `run_piotroski` once and
before its work; the others look each time around their loops. -/
def looksOf (jobType : String) (looks : Nat) : Nat :=
  if jobType = "recommendation_cleanup" then 0
  else if jobType = "run_piotroski" then min looks 1
  else looks

/-- A run with its trigger: the event it was given, whether this is registered, the steps that the
chain has not come to, whether one has failed, and the executor at work. `asked` says that a cancel
request named the run. -/
structure Run where
  task : Task
  event : Nat
  phase : Phase
  registered : Bool
  steps : List Step
  failed : Bool
  call : Option ExecutorCall
  asked : Bool
  deriving DecidableEq

namespace Run

variable (r : Run)

/-- The key of the run in `_futures`. -/
def futureKey : Key :=
  match r.task with
  | .pipeline pid => .tag pid
  | .job jobId _ _ => .jobId jobId

/-- The key of the run in `_cancel_events`. -/
def cancelKey : Key :=
  match r.task with
  | .pipeline pid => .tag pid
  | .job _ runId _ => .runId runId

def isPipeline : Bool :=
  match r.task with
  | .pipeline _ => true
  | .job _ _ _ => false

/-- The pool has the run, and it is not done. -/
def Unfinished : Prop := r.phase = .queued ∨ r.phase = .executing

instance : Decidable r.Unfinished := inferInstanceAs (Decidable (_ ∨ _))

def Executes (pid : String) : Prop := r.task = .pipeline pid ∧ r.phase = .executing

instance (pid : String) : Decidable (r.Executes pid) := inferInstanceAs (Decidable (_ ∧ _))

/-- A trigger of a job submits its run once it has registered the event, one of a pipeline at once. -/
def Ready : Prop :=
  r.phase = .triggered ∧
    match r.task with
    | .pipeline _ => True
    | .job _ _ _ => r.registered = true

instance : Decidable r.Ready := by
  unfold Ready
  cases r.task <;> infer_instance

/-- A worker takes the run. A job is its executor; a pipeline comes to its steps one by one. -/
def begun (looks : Nat) : Run :=
  { r with
    phase := .executing
    call :=
      match r.task with
      | .pipeline _ => none
      | .job _ runId jobType => some ⟨runId, jobType, looksOf jobType looks⟩ }

/-- One round of the loop of `_execute_chain` up to the call of the executor, which has a new run
id. -/
def atStep (isSet : Bool) (runId looks : Nat) : Run :=
  match r.steps with
  | [] => r
  | step :: rest =>
      if isSet then { r with steps := rest, failed := true }
      else if r.failed then { r with steps := rest }
      else if step.jobType ∉ jobExecutors then { r with steps := rest, failed := true }
      else { r with steps := rest, call := some ⟨runId, step.jobType, looksOf step.jobType looks⟩ }

/-- The executor looks at its event, and leaves its loop when this is set. -/
def looked (isSet : Bool) : Run :=
  { r with call := r.call.map fun c => { c with looks := if isSet then 0 else c.looks - 1 } }

/-- The executor of a step has returned or raised. -/
def stepEnded (ok : Bool) : Run := { r with call := none, failed := r.failed || !ok }

/-- A request names a pipeline by its tag, which the trigger returned, or by the run id of the step
that the list of runs shows, and a job by its run id. -/
def Named (key : Key) : Prop :=
  match r.task with
  | .pipeline pid => key = .tag pid ∨ ∃ c ∈ r.call, key = .runId c.runId
  | .job _ runId _ => key = .runId runId

instance (key : Key) : Decidable (r.Named key) := by
  unfold Named
  cases r.task <;> infer_instance

/-- The code of the run is going to look at its event: the chain does so before each step. -/
def LooksAhead : Prop := r.steps ≠ [] ∨ ∃ c ∈ r.call, 0 < c.looks

instance : Decidable r.LooksAhead := inferInstanceAs (Decidable (_ ∨ _))

end Run

/-! ## The service -/

/-- The runs in the order of their triggers, the queue of the pool, the events with their flags, and
the two tables. -/
structure World where
  runs : List Run
  queue : List Nat
  events : List Bool
  futures : Dict Key Nat
  cancelEvents : Dict Key Nat
  drawn : Nat

/-- Days are given where the code looks at the calendar. -/
inductive Event where
  | schedulePipeline (pipelineId : String) (today : Nat)
  | triggerPipeline (pipelineId : String)
  | resumePipeline (pipelineId : String) (fromStep : Int)
  | scheduleJob (jobId : String) (today : Nat)
  | triggerJob (jobId : String)
  | proceed (k : Nat)
  | begin (looks : Nat)
  | chainStep (k looks : Nat)
  | look (k : Nat)
  | endStep (k : Nat) (ok : Bool)
  | finish (k : Nat)
  | cancel (key : Key)

namespace World

variable (S : Service) (w : World)

def init : World := ⟨[], [], [], .empty, .empty, 0⟩

def Set (event : Nat) : Prop := w.events[event]? = some true

instance (event : Nat) : Decidable (w.Set event) := inferInstanceAs (Decidable (_ = _))

/-- There is a future under the key, and it is not done. -/
def running (key : Key) : Bool :=
  (w.futures.get? key).any fun k => (w.runs[k]?).any fun r => r.phase ≠ .done

/-- A trigger with a new event. -/
def create (task : Task) (steps : List Step) : World :=
  { w with
    runs := w.runs ++ [⟨task, w.events.length, .triggered, false, steps, false, none, false⟩]
    events := w.events ++ [false] }

/-- `trigger_pipeline_now` and `resume_pipeline_now` up to the lock. -/
def triggerPipelineNow (pid : String) (fromStep : Int) : World :=
  match S.pipelines pid with
  | none => w
  | some (p, _) => w.create (.pipeline pid) (chainSteps p fromStep)

/-- `_trigger_pipeline` -/
def schedulePipeline (pid : String) (today : Nat) : World :=
  match S.pipelines pid with
  | none => w
  | some (_, t) =>
      if t.due today && !w.running (.tag pid) then w.triggerPipelineNow S pid 1 else w

/-- `trigger_now` up to the registration: a run id is drawn. -/
def triggerNow (jobId : String) : World :=
  match S.jobs jobId with
  | none => w
  | some job =>
      if job.jobType ∉ jobExecutors then w
      else { w.create (.job jobId w.drawn job.jobType) [] with drawn := w.drawn + 1 }

/-- `_trigger_job` -/
def scheduleJob (jobId : String) (today : Nat) : World :=
  match S.jobs jobId with
  | none => w
  | some job =>
      if job.timetable.due today && !w.running (.jobId jobId) then w.triggerNow S jobId else w

/-- The pool takes the run, and its future stands in the table. -/
def submit (k : Nat) (r : Run) : World :=
  { w with
    runs := w.runs.set k { r with phase := .queued }
    queue := w.queue ++ [k]
    futures := w.futures.set r.futureKey k }

/-- The event of the run stands in the table. -/
def register (k : Nat) (r : Run) : World :=
  { w with
    runs := w.runs.set k { r with registered := true }
    cancelEvents := w.cancelEvents.set r.cancelKey r.event }

/-- The trigger of a run goes on. -/
def proceed (k : Nat) : World :=
  match w.runs[k]? with
  | none => w
  | some r =>
      if r.Ready then w.submit k r
      else if r.registered then w
      else w.register k r

/-- A worker that is free takes the first run of the queue. -/
def begin (looks : Nat) : World :=
  match w.queue with
  | [] => w
  | k :: rest =>
      match w.runs[k]? with
      | none => w
      | some r =>
          if r.phase = .queued ∧ w.runs.countP (·.phase = .executing) < S.maxWorkers then
            { w with runs := w.runs.set k (r.begun looks), queue := rest }
          else w

/-- What an executing run does, if it can. A run id that is not used is skipped. -/
def act (k : Nat) (can : Run → Bool) (f : Run → Run) : World :=
  match w.runs[k]? with
  | none => w
  | some r =>
      if r.phase = .executing ∧ can r then
        { w with runs := w.runs.set k (f r), drawn := w.drawn + 1 }
      else w

/-- The code of the run returns or raises: its key leaves the table, and its future is done. -/
def finish (k : Nat) : World :=
  match w.runs[k]? with
  | none => w
  | some r =>
      if r.phase = .executing then
        { w with
          runs := w.runs.set k { r with phase := .done }
          cancelEvents := w.cancelEvents.erase r.cancelKey }
      else w

/-- `cancel_run` -/
def cancelRun (key : Key) : World :=
  match w.cancelEvents.get? key with
  | none => w
  | some event => { w with events := w.events.set event true }

/-- The unfinished runs that a request names are marked. -/
def mark (key : Key) : World :=
  { w with
    runs := w.runs.map fun r =>
      if r.Unfinished ∧ r.Named key then { r with asked := true } else r }

def step (e : Event) : World :=
  match e with
  | .schedulePipeline pid today => w.schedulePipeline S pid today
  | .triggerPipeline pid => w.triggerPipelineNow S pid 1
  | .resumePipeline pid fromStep => w.triggerPipelineNow S pid fromStep
  | .scheduleJob jobId today => w.scheduleJob S jobId today
  | .triggerJob jobId => w.triggerNow S jobId
  | .proceed k => w.proceed k
  | .begin looks => w.begin S looks
  | .chainStep k looks =>
      w.act k (fun r => r.call = none) fun r => r.atStep (decide (w.Set r.event)) w.drawn looks
  | .look k =>
      w.act k (fun r => r.call.any fun c => 0 < c.looks) fun r => r.looked (decide (w.Set r.event))
  | .endStep k ok =>
      w.act k (fun r => r.isPipeline && r.call.isSome) fun r => r.stepEnded ok
  | .finish k => w.finish k
  | .cancel key => (w.mark key).cancelRun key

/-! ## Exclusion and cancellation -/

/-- At most one run of each pipeline is executing. -/
def Exclusive : Prop :=
  ∀ (i j : Nat) (r s : Run) (pid : String), w.runs[i]? = some r → w.runs[j]? = some s →
    r.Executes pid → s.Executes pid → i = j

/-- A request sets the event of each unfinished run that it names, and the code that is executing it
is going to look. Whenever the code of a run that was named looks, it finds its event set. -/
def Signals (e : Event) : Prop :=
  match e with
  | .cancel key =>
      ∀ r ∈ w.runs, r.Unfinished → r.Named key →
        (w.step S e).Set r.event ∧ (r.phase = .executing → r.LooksAhead)
  | .chainStep k _ => ∀ r ∈ w.runs[k]?, r.asked = true → w.Set r.event
  | .look k => ∀ r ∈ w.runs[k]?, r.asked = true → w.Set r.event
  | _ => True

instance (e : Event) : Decidable (w.Signals S e) := by
  unfold Signals
  cases e <;> infer_instance

/-- A run of a pipeline is submitted when the other runs of it that were submitted are done and
registered. A request names a pipeline by its tag, and after the registration; the code that is
executing a run it names looks at its event once more. -/
def Careful (e : Event) : Prop :=
  match e with
  | .proceed k =>
      ∀ r ∈ w.runs[k]?, r.isPipeline = true → r.phase = .triggered →
        ∀ s ∈ w.runs, s.task = r.task → s.phase ≠ .triggered →
          s.phase = .done ∧ s.registered = true
  | .cancel key =>
      ∀ r ∈ w.runs, r.Unfinished → r.Named key →
        (r.isPipeline = true → key = r.cancelKey ∧ r.registered = true) ∧
          (r.phase = .executing → r.LooksAhead)
  | _ => True

instance (e : Event) : Decidable (w.Careful e) := by
  unfold Careful
  cases e <;> infer_instance

end World

end AsetPlatform.Jobs.Scheduler
