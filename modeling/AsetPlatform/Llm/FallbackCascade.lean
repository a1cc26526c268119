import AsetPlatform.Library.Run
import AsetPlatform.Llm.MessageCompressor
import AsetPlatform.Llm.TokenBudget
import Mathlib.Algebra.Group.Prod

/-!
# The fallback cascade

`backend/llm_fallback.py`: `invoke` compresses the messages, then tries the pinned model, the Groq
models (pool by pool, or in order), a local model before or after them, and Anthropic. `_try_model`
reserves the estimate, compresses towards 70 percent of the model's minute limit and reserves again
when it is refused, and releases the reservation when the call fails.

`Services` is what answers the calls; `Turn` is the state of one `invoke` with the budget operations
and the Groq calls it has made.
-/

set_option autoImplicit false

namespace AsetPlatform.Llm

open AsetPlatform.Library

/-! ## Budget operations and what they enter -/

/-- An operation on the budget with its clock reading. -/
inductive BudgetOp where
  | reserve (model : String) (est : Nat) (now : TokenBudget.Time)
  | release (model : String) (est : Nat) (now : TokenBudget.Time)

namespace BudgetOp

/-- The budget after the operation. -/
def apply (b : TokenBudget) : BudgetOp → TokenBudget
  | reserve model est now => (b.reserve model est now).2
  | release model est now => b.release model est now

/-- The tokens and requests the operation enters in the windows of `model`. -/
def entered (b : TokenBudget) (op : BudgetOp) (model : String) : ℤ × ℤ :=
  match op with
  | reserve other est now =>
      if other = model ∧ (b.limits other).isSome ∧ (b.reserve other est now).1 then (est, 1) else 0
  | release other est _ =>
      if other = model ∧ (b.limits other).isSome then (-est, -1) else 0

end BudgetOp

/-- The sum of what a list of operations enters in the windows of `model`. -/
def netReserved (model : String) : TokenBudget → List BudgetOp → ℤ × ℤ
  | _, [] => 0
  | b, op :: ops => op.entered b model + netReserved model (op.apply b) ops

/-! ## The cascade -/

/-- What a Groq call comes to: a reply, an error the cascade goes on after (rate limit, connection,
status), or another error. -/
inductive CallOutcome where
  | success (reply : Message)
  | apiError
  | otherError (error : String)
  deriving DecidableEq

structure GroqCall where
  model : String
  sent : List Message
  outcome : CallOutcome
  deriving DecidableEq

def GroqCall.succeeded (c : GroqCall) : Bool :=
  match c.outcome with
  | .success _ => true
  | _ => false

/-- What answers a turn: the clock at the n-th budget operation, the n-th Groq call, the local model
and Anthropic. -/
structure Services where
  clock : Nat → TokenBudget.Time
  groq : Nat → String → List Message → CallOutcome
  ollamaReady : Bool
  ollama : List Message → Option Message
  anthropic : List Message → Except String Message

/-- `FallbackLLM`. -/
structure FallbackLLM where
  groqTiers : List String
  poolGroups : List TokenBudget.RoundRobinPool := []
  pinnedModel : Option String := none
  ollamaTier : Option String := none
  ollamaNumCtx : Nat := 0
  ollamaFirst : Bool := false
  anthropicModel : Option String := some "claude-sonnet-4-6"
  cascadeProfile : String := "tool"
  compressor : MessageCompressor := {}

/-- The state of one `invoke`. -/
structure Turn where
  llm : FallbackLLM
  budget : TokenBudget
  ops : List BudgetOp := []
  calls : List GroqCall := []

/-- The result of `_try_model`: a reply, `None`, or an exception. -/
inductive Attempt where
  | answered (model : String) (reply : Message)
  | passedOver
  | raised (error : String)

/-- The provider a reply is recorded under. -/
inductive Provider where
  | groq (model : String)
  | ollama
  | anthropic
  deriving DecidableEq

namespace Turn

/-- `TokenBudget.reserve` on the budget of the turn. -/
def reserve (S : Services) (t : Turn) (model : String) (est : Nat) : Bool × Turn :=
  let now := S.clock t.ops.length
  let (ok, budget) := t.budget.reserve model est now
  (ok, { t with budget := budget, ops := t.ops ++ [.reserve model est now] })

/-- `TokenBudget.release` on the budget of the turn. -/
def release (S : Services) (t : Turn) (model : String) (est : Nat) : Turn :=
  let now := S.clock t.ops.length
  { t with
    budget := t.budget.release model est now
    ops := t.ops ++ [.release model est now] }

/-- The call of a model whose estimate is reserved. -/
def call (S : Services) (t : Turn) (model : String) (sent : List Message) (est : Nat) :
    Attempt × Turn :=
  let outcome := S.groq t.calls.length model sent
  let t := { t with calls := t.calls ++ [⟨model, sent, outcome⟩] }
  match outcome with
  | .success reply => (.answered model reply, t)
  -- both kinds of failure take the estimate back; only API errors go on to the next model
  | .apiError => (.passedOver, t.release S model est)
  | .otherError error => (.raised error, t.release S model est)

end Turn

/-- A product of integers over `2 ^ 53` rounded to 53 significant bits, ties to even, as the product
of doubles is. -/
def roundToDouble (n : Nat) : Nat :=
  let unit := 2 ^ (Nat.log2 n - 52)
  let q := n / unit
  let r := n % unit
  (if unit < 2 * r ∨ (unit = 2 * r ∧ q % 2 = 1) then q + 1 else q) * unit

/-- `int(tpm * 0.70)`; the double `0.70` is `6305039478318694 / 2 ^ 53`. -/
def tpmTarget (tpm : Nat) : Nat := roundToDouble (tpm * 6305039478318694) / 2 ^ 53

example : tpmTarget 12000 = 8400 ∧ tpmTarget 90 = 62 := by decide

/-- The messages and the estimate of the second reservation: compressed towards the minute limit of
a model that has one. -/
def recompress (T : CharTables) (t : Turn) (model : String) (compressed : List Message) (est : Nat)
    (messages : List Message) (iteration : Nat) : Except String (List Message × Nat) :=
  match t.budget.getTpm model with
  | none => .ok (compressed, est)
  | some tpm => do
      let result ← t.llm.compressor.compress T messages iteration (some (tpmTarget tpm))
      return (result, estimateTokens result)

/-- `_try_model`. -/
def tryModel (T : CharTables) (S : Services) (messages : List Message) (iteration : Nat)
    (compressed : List Message) (est : Nat) (t : Turn) (model : String) : Attempt × Turn :=
  let (ok, t) := t.reserve S model est
  -- there is room for the messages as they are
  if ok then t.call S model compressed est
  else
    match recompress T t model compressed est messages iteration with
    | .error error => (.raised error, t)
    | .ok (curCompressed, curEst) =>
        let (ok, t) := t.reserve S model curEst
        if ok then t.call S model curCompressed curEst else (.passedOver, t)

/-- Try models one after the other until one does not pass; models outside the lookup are skipped,
and the model that answers is pinned. -/
def tryModels (attempt : Turn → String → Attempt × Turn) : List String → Turn → Attempt × Turn
  | [], t => (.passedOver, t)
  | model :: rest, t =>
      if model ∈ t.llm.groqTiers then
        match attempt t model with
        | (.answered served reply, t) =>
            -- later calls of the same turn stay with the model
            (.answered served reply, { t with llm := { t.llm with pinnedModel := some model } })
        | (.raised error, t) => (.raised error, t)
        | (.passedOver, t) => tryModels attempt rest t
      else tryModels attempt rest t

/-- Try the pools one after the other, each from its next position; `done` are the pools already
tried. -/
def tryPools (attempt : Turn → String → Attempt × Turn) (done : List TokenBudget.RoundRobinPool) :
    List TokenBudget.RoundRobinPool → Turn → Attempt × Turn
  | [], t => (.passedOver, t)
  | pool :: rest, t =>
      -- reading the order moves the pool on, whatever comes of it
      let (ordered, pool) := pool.orderedModels
      let t := { t with llm := { t.llm with poolGroups := done ++ pool :: rest } }
      match tryModels attempt ordered t with
      | (.passedOver, t) => tryPools attempt (done ++ [pool]) rest t
      | result => result

/-- The pinned model, tried first and unpinned when it does not answer. -/
def tryPinned (attempt : Turn → String → Attempt × Turn) (t : Turn) : Attempt × Turn :=
  let unpin (t : Turn) : Turn := { t with llm := { t.llm with pinnedModel := none } }
  match t.llm.pinnedModel with
  | none => (.passedOver, t)
  | some model =>
      if model ∈ t.llm.groqTiers then
        match attempt t model with
        | (.passedOver, t) => (.passedOver, unpin t)
        | result => result
      -- a pinned model that is not among the tiers any more
      else (.passedOver, unpin t)

/-- The Groq tiers: the pools when there are any, otherwise the tiers in order. -/
def tryGroq (attempt : Turn → String → Attempt × Turn) (t : Turn) : Attempt × Turn :=
  if t.llm.poolGroups.isEmpty then tryModels attempt t.llm.groqTiers t
  else tryPools attempt [] t.llm.poolGroups t

/-- The local model: tried when it is loaded and the estimate fits its context. -/
def tryOllama (S : Services) (llm : FallbackLLM) (compressed : List Message) (est : Nat) :
    Option Message :=
  -- an estimate above the context window would be cut off
  if llm.ollamaTier.isSome ∧ S.ollamaReady ∧ est ≤ llm.ollamaNumCtx then S.ollama compressed
  else none

/-- Whether a tool-call id matches `^[a-zA-Z0-9_-]+$`, whose `$` also stands before a last
newline. -/
def validId (id : List Char) : Bool :=
  let valid (c : Char) := c.isAlphanum || c == '_' || c == '-'
  let body := if id.getLast? = some '\n' then id.dropLast else id
  !body.isEmpty && body.all valid

/-- A tool-call id Anthropic accepts. -/
def sanitizeId (id : String) : String :=
  if id.isEmpty || validId id.toList then id
  else String.ofList (id.toList.map fun c => if c.isAlphanum || c == '_' || c == '-' then c else '_')

/-- `_sanitize_tool_ids`. -/
def sanitizeToolIds (messages : List Message) : List Message :=
  messages.map fun m =>
    match m.kind with
    | .ai calls => { m with kind := .ai (calls.map fun tc => { tc with id := sanitizeId tc.id }) }
    | .tool id name => { m with kind := .tool (sanitizeId id) name }
    | _ => m

/-- The Anthropic leg. -/
def callAnthropic (S : Services) (llm : FallbackLLM) (compressed : List Message) :
    Except String (Provider × Message) :=
  match llm.anthropicModel with
  | none =>
      .error ("All free-tier models exhausted (profile=" ++ llm.cascadeProfile ++
        "). No paid fallback available.")
  | some _ => (S.anthropic (sanitizeToolIds compressed)).map fun reply => (.anthropic, reply)

/-- The legs after the Groq tiers. -/
def finish (S : Services) (t : Turn) (compressed : List Message) (est : Nat) :
    Except String (Provider × Message) :=
  match if t.llm.ollamaFirst then none else tryOllama S t.llm compressed est with
  | some reply => .ok (.ollama, reply)
  | none => callAnthropic S t.llm compressed

/-- The Groq legs: the pinned model, then the tiers. -/
def cascade (attempt : Turn → String → Attempt × Turn) (t : Turn) : Attempt × Turn :=
  match tryPinned attempt t with
  | (.passedOver, t) => tryGroq attempt t
  | result => result

/-- `invoke`. -/
def invoke (T : CharTables) (S : Services) (llm : FallbackLLM) (budget : TokenBudget)
    (messages : List Message) (iteration : Nat) : Except String (Provider × Message) × Turn :=
  let t : Turn := { llm := llm, budget := budget }
  match llm.compressor.compress T messages iteration none with
  | .error error => (.error error, t)
  | .ok compressed =>
      let est := estimateTokens compressed
      -- the local model before Groq, or after it in `finish`
      match if llm.ollamaFirst then tryOllama S llm compressed est else none with
      | some reply => (.ok (.ollama, reply), t)
      | none =>
          match cascade (tryModel T S messages iteration compressed est) t with
          | (.answered model reply, t) => (.ok (.groq model, reply), t)
          | (.raised error, t) => (.error error, t)
          | (.passedOver, t) => (finish S t compressed est, t)

end AsetPlatform.Llm
