import Mathlib.Data.Rat.Defs
import Mathlib.Data.List.Basic
import Mathlib.Algebra.GroupWithZero.Nat

/-!
# The observability collector

`backend/observability.py`: requests, cascades and compressions become events in a pending buffer. A
timer flushes the first 50 of them to `stocks.llm_usage` and puts them back when the write raises;
`flush_sync` stops the timer and flushes them all. The buffer is changed under a lock, the write
takes place outside of it, so that flushes overlap and events are recorded meanwhile.

The counters in memory (requests per model, health, latency) have no part in this. A collector
without a repository enqueues nothing; this one has a repository.
-/

set_option autoImplicit false

namespace AsetPlatform.Llm.Observability

/-! ## Events -/

/-- A row of `stocks.llm_usage`. -/
structure UsageEvent where
  usageId : Nat
  requestDate : Int
  timestamp : Int
  eventType : String
  model : String
  provider : String
  agentId : String
  tierIndex : Nat
  userId : Option String
  cascadeReason : Option String := none
  cascadeFromModel : Option String := none
  promptTokens : Option Nat := none
  completionTokens : Option Nat := none
  totalTokens : Option Nat := none
  inputCostPer1m : Option ℚ := none
  outputCostPer1m : Option ℚ := none
  estimatedCostUsd : Option ℚ := none
  latencyMs : Option Nat := none
  success : Bool
  keySource : String := "platform"
  deriving DecidableEq

inductive Recording where
  | request (model provider agentId : String) (tierIndex : Nat) (userId : Option String)
      (promptTokens completionTokens latencyMs : Option Nat) (keySource : String)
  | cascade (fromModel reason provider agentId : String) (tierIndex : Nat) (userId : Option String)
  | compression (agentId : String) (userId : Option String)

/-- `text or "unknown"`. -/
def orUnknown (text : String) : String := if text = "" then "unknown" else text

/-- `n or None`. -/
def orNone (n : Nat) : Option Nat := if n = 0 then none else some n

/-- `_estimate_cost`, of the rates `get_pricing` finds. -/
def estimateCost (rates : Option (ℚ × ℚ)) (promptTokens completionTokens : Option Nat) :
    Option ℚ × Option ℚ × Option ℚ :=
  match rates with
  | none => (none, none, none)
  | some (inRate, outRate) =>
      (some inRate, some outRate,
        some (((promptTokens.getD 0 : Nat) * inRate + (completionTokens.getD 0 : Nat) * outRate) /
          1000000))

def enqueued (rates : Option (ℚ × ℚ)) (usageId : Nat) (today now : Int) : Recording → UsageEvent
  | .request model provider agentId tierIndex userId promptTokens completionTokens latencyMs
      keySource =>
      let (inRate, outRate, cost) := estimateCost rates promptTokens completionTokens
      { usageId := usageId
        requestDate := today
        timestamp := now
        eventType := "request"
        model := model
        provider := orUnknown provider
        agentId := orUnknown agentId
        tierIndex := tierIndex
        userId := userId
        promptTokens := promptTokens
        completionTokens := completionTokens
        totalTokens := orNone (promptTokens.getD 0 + completionTokens.getD 0)
        inputCostPer1m := inRate
        outputCostPer1m := outRate
        estimatedCostUsd := cost
        latencyMs := latencyMs
        success := true
        keySource := keySource }
  | .cascade fromModel reason provider agentId tierIndex userId =>
      { usageId := usageId
        requestDate := today
        timestamp := now
        eventType := "cascade"
        model := fromModel
        provider := orUnknown provider
        agentId := orUnknown agentId
        tierIndex := tierIndex
        userId := userId
        cascadeReason := some reason
        cascadeFromModel := some fromModel
        success := false }
  | .compression agentId userId =>
      { usageId := usageId
        requestDate := today
        timestamp := now
        eventType := "compression"
        model := "n/a"
        provider := "n/a"
        agentId := orUnknown agentId
        tierIndex := 0
        userId := userId
        success := true }

@[simp]
theorem enqueued_usageId (rates : Option (ℚ × ℚ)) (usageId : Nat) (today now : Int)
    (r : Recording) : (enqueued rates usageId today now r).usageId = usageId := by
  cases r <;> rfl

/-! ## Flushes -/

/-- `_FLUSH_BATCH`. -/
def flushBatch : Nat := 50

inductive FlushKind where
  /-- `_flush_events`, when the timer fires. -/
  | periodic
  /-- `flush_sync`. -/
  | sync
  deriving DecidableEq

inductive FlushPhase where
  /-- About to take its batch. -/
  | taking
  /-- About to append the batch to the table. -/
  | writing (batch : List UsageEvent)
  /-- About to put the batch back. -/
  | requeueing (batch : List UsageEvent)
  /-- About to start the timer. -/
  | rescheduling
  /-- A synchronous flush that began alone and has written; `recorded` had been recorded by then. -/
  | flushed (recorded : List UsageEvent)
  | returned
  deriving DecidableEq

/-- A flush; `alone` when no other had a batch in flight as it took its own. -/
structure Flush where
  kind : FlushKind
  alone : Bool := false
  phase : FlushPhase
  deriving DecidableEq

namespace Flush

/-- The batch in flight. -/
def batch (t : Flush) : List UsageEvent :=
  match t.phase with
  | .writing batch => batch
  | .requeueing batch => batch
  | _ => []

def isWriting (t : Flush) : Bool :=
  match t.phase with
  | .writing _ => true
  | _ => false

end Flush

/-- How an append ends: the rows are in the table; they are not, and it raises; or they are, and it
raises all the same, as when the answer to the commit is lost. -/
inductive Outcome where
  | stored
  | refused
  | unknown
  deriving DecidableEq

/-- The collector, the rows of the table, the flushes, and the events recorded so far. -/
structure World where
  recorded : List UsageEvent
  pending : List UsageEvent
  persisted : List UsageEvent
  flushes : List Flush
  /-- The timer runs. -/
  timer : Bool
  /-- The process has ended. -/
  exited : Bool

inductive Event where
  | record (r : Recording) (rates : Option (ℚ × ℚ)) (today now : Int)
  | fire
  | beginSync
  | take (k : Nat)
  | append (k : Nat) (outcome : Outcome)
  | requeue (k : Nat)
  | reschedule (k : Nat)
  | exit

namespace World

/-- A new collector: nothing pending, and the timer started. -/
def start : World := ⟨[], [], [], [], true, false⟩

variable (w : World)

def move (k : Nat) (t : Flush) (phase : FlushPhase) : World :=
  { w with flushes := w.flushes.set k { t with phase := phase } }

def idle : Bool := w.flushes.all fun t => t.batch.isEmpty

/-- The end of `flush_sync` without an error. -/
def afterSync (alone : Bool) : FlushPhase := if alone then .flushed w.recorded else .returned

/-- A step of a running process. -/
def advance : Event → World
  | .record r rates today now =>
      -- `uuid.uuid4()` is an id that no event has
      let event := enqueued rates w.recorded.length today now r
      { w with recorded := w.recorded ++ [event], pending := w.pending ++ [event] }
  | .fire =>
      if w.timer then { w with timer := false, flushes := w.flushes ++ [⟨.periodic, false, .taking⟩] }
      else w
  | .beginSync => { w with timer := false, flushes := w.flushes ++ [⟨.sync, false, .taking⟩] }
  | .take k =>
      match w.flushes[k]? with
      | some ⟨.periodic, alone, .taking⟩ =>
          let batch := w.pending.take flushBatch
          { w with pending := w.pending.drop flushBatch }.move k ⟨.periodic, alone, .taking⟩
            (if batch.isEmpty then .rescheduling else .writing batch)
      | some ⟨.sync, _, .taking⟩ =>
          { w with pending := [] }.move k ⟨.sync, w.idle, .taking⟩
            (if w.pending.isEmpty then w.afterSync w.idle else .writing w.pending)
      | _ => w
  | .append k outcome =>
      match w.flushes[k]? with
      | some ⟨kind, alone, .writing batch⟩ =>
          let rows := if outcome = .refused then [] else batch
          let phase := match kind with
            | .periodic => if outcome = .stored then .rescheduling else .requeueing batch
            -- the synchronous flush only logs what was raised
            | .sync => if outcome = .stored then w.afterSync alone else .returned
          { w with persisted := w.persisted ++ rows }.move k ⟨kind, alone, .writing batch⟩ phase
      | _ => w
  | .requeue k =>
      match w.flushes[k]? with
      | some ⟨kind, alone, .requeueing batch⟩ =>
          { w with pending := batch ++ w.pending }.move k ⟨kind, alone, .requeueing batch⟩
            .rescheduling
      | _ => w
  | .reschedule k =>
      match w.flushes[k]? with
      | some ⟨kind, alone, .rescheduling⟩ =>
          { w with timer := true }.move k ⟨kind, alone, .rescheduling⟩ .returned
      | _ => w
  -- the flush of the timer is a daemon thread
  | .exit => { w with pending := [], flushes := [], timer := false, exited := true }

def step (e : Event) : World := if w.exited then w else w.advance e

end World

end AsetPlatform.Llm.Observability
