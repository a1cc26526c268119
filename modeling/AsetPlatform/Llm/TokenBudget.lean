import AsetPlatform.Library.SlidingWindow
import AsetPlatform.Llm.Messages
import Mathlib.Algebra.Order.Ring.Rat

/-!
# Sliding-window token budget

`backend/token_budget.py`: per model, two windows (a minute and a day) over tokens and over
requests, each a deque of timestamped amounts with a running total. `reserve` refreshes the four
windows, checks each against 80 percent of its limit and enters the spend; `release` enters the
negated amounts; `record` enters a spend without a check.

Clock readings are rational seconds. The comparison with `limit * 0.80` is exact: the nearest double
to the product of an integral limit and `0.80` is the product itself whenever that is an integer.
-/

set_option autoImplicit false

namespace AsetPlatform.Llm

namespace TokenBudget

open AsetPlatform.Library

/-- A reading of the monotonic clock, in seconds. -/
abbrev Time := ℚ

/-- An entry of a deque: `(timestamp, count)`. -/
abbrev LogEntry := Entry Time ℤ

/-- `_MINUTE`. -/
def minute : Time := 60

/-- `_DAY`. -/
def day : Time := 86400

/-- `_THRESHOLD`. -/
def threshold : ℚ := 4 / 5

structure ModelLimits where
  rpm : Nat
  tpm : Nat
  rpd : Nat
  tpd : Nat
  deriving DecidableEq, Repr

/-- `_DEFAULT_LIMITS`. -/
def defaultLimits : List (String × ModelLimits) :=
  [ ("meta-llama/llama-4-scout-17b-16e-instruct",
      { rpm := 30, tpm := 30000, rpd := 1000, tpd := 500000 }),
    ("openai/gpt-oss-120b", { rpm := 30, tpm := 8000, rpd := 1000, tpd := 200000 }),
    ("llama-3.3-70b-versatile", { rpm := 30, tpm := 12000, rpd := 1000, tpd := 100000 }),
    ("llama-3.1-8b-instant", { rpm := 30, tpm := 6000, rpd := 14400, tpd := 500000 }),
    ("qwen/qwen3-32b", { rpm := 60, tpm := 6000, rpd := 1000, tpd := 500000 }),
    ("openai/gpt-oss-20b", { rpm := 30, tpm := 8000, rpd := 1000, tpd := 200000 }) ]

/-- `RoundRobinPool`. -/
structure RoundRobinPool where
  name : String
  models : List String
  counter : Nat := 0
  deriving DecidableEq, Repr

/-- `ordered_models`: the models from the next position on, wrapping around; the counter of a
non-empty pool advances. -/
def RoundRobinPool.orderedModels (pool : RoundRobinPool) : List String × RoundRobinPool :=
  let n := pool.models.length
  if n = 0 then ([], pool)
  else (pool.models.rotate (pool.counter % n), { pool with counter := pool.counter + 1 })

/-- A deque with its running total. -/
structure Counter where
  log : List LogEntry := []
  total : ℤ := 0
  deriving DecidableEq

/-- `_ModelState`: the four windows of a model. -/
structure ModelState where
  minuteTokens : Counter := {}
  minuteRequests : Counter := {}
  dayTokens : Counter := {}
  dayRequests : Counter := {}
  deriving DecidableEq

/-- `_window_total`: the pruned deque, the updated running total and the expired amount. -/
def windowTotal (log : List LogEntry) (windowSeconds now : Time) (runningTotal : ℤ) :
    List LogEntry × ℤ × ℤ :=
  let cutoff := now - windowSeconds
  let expired := Library.total (expiredHead cutoff log)
  (dropExpired cutoff log, runningTotal - expired, expired)

/-- Prune a deque and store the returned total next to it. -/
def Counter.refresh (c : Counter) (windowSeconds now : Time) : Counter :=
  let (log, used, _) := windowTotal c.log windowSeconds now c.total
  { log := log, total := used }

/-- Enter an amount. -/
def Counter.append (c : Counter) (now : Time) (amount : ℤ) : Counter :=
  { log := c.log ++ [⟨now, amount⟩], total := c.total + amount }

/-- Refresh the four windows. -/
def ModelState.refresh (st : ModelState) (now : Time) : ModelState where
  minuteTokens := st.minuteTokens.refresh minute now
  minuteRequests := st.minuteRequests.refresh minute now
  dayTokens := st.dayTokens.refresh day now
  dayRequests := st.dayRequests.refresh day now

/-- Enter `tokens` and `requests` in the windows of both lengths. -/
def ModelState.charge (st : ModelState) (now : Time) (tokens requests : ℤ) : ModelState where
  minuteTokens := st.minuteTokens.append now tokens
  minuteRequests := st.minuteRequests.append now requests
  dayTokens := st.dayTokens.append now tokens
  dayRequests := st.dayRequests.append now requests

/-- `used + amount > limit * _THRESHOLD`. -/
def exceeds (used amount : ℤ) (limit : Nat) : Bool :=
  decide ((limit : ℚ) * threshold < ((used + amount : ℤ) : ℚ))

/-- The four comparisons `can_afford` and `reserve` make on refreshed windows. -/
def ModelState.hasRoom (st : ModelState) (lim : ModelLimits) (estimatedTokens : ℤ) : Bool :=
  if exceeds st.minuteTokens.total estimatedTokens lim.tpm then false
  else if exceeds st.minuteRequests.total 1 lim.rpm then false
  else if exceeds st.dayTokens.total estimatedTokens lim.tpd then false
  else if exceeds st.dayRequests.total 1 lim.rpd then false
  else true

end TokenBudget

open TokenBudget in
/-- `TokenBudget`: the limits and the state of each model. A model that has no state yet has the
empty one `_get_state` creates. -/
structure TokenBudget where
  limits : String → Option ModelLimits
  state : String → ModelState

namespace TokenBudget

open AsetPlatform.Library

/-- `__init__`: the default limits overridden by the given ones, and empty windows. -/
def new (limits : List (String × ModelLimits)) : TokenBudget where
  limits model := (limits.lookup model).or (defaultLimits.lookup model)
  state _ := {}

def setState (b : TokenBudget) (model : String) (st : ModelState) : TokenBudget :=
  { b with state := Function.update b.state model st }

/-- `get_tpm`. -/
def getTpm (b : TokenBudget) (model : String) : Option Nat := (b.limits model).map ModelLimits.tpm

/-- `can_afford`. -/
def canAfford (b : TokenBudget) (model : String) (estimatedTokens : ℤ) (now : Time) :
    Bool × TokenBudget :=
  match b.limits model with
  | none => (true, b)
  | some lim =>
      let st := (b.state model).refresh now
      (st.hasRoom lim estimatedTokens, b.setState model st)

/-- `reserve`: check the budget and enter the spend. -/
def reserve (b : TokenBudget) (model : String) (estimatedTokens : ℤ) (now : Time) :
    Bool × TokenBudget :=
  match b.limits model with
  | none => (true, b)
  | some lim =>
      let st := (b.state model).refresh now
      if st.hasRoom lim estimatedTokens then
        (true, b.setState model (st.charge now estimatedTokens 1))
      else (false, b.setState model st)

/-- `release`: enter the compensating negative amounts. -/
def release (b : TokenBudget) (model : String) (estimatedTokens : ℤ) (now : Time) : TokenBudget :=
  match b.limits model with
  | none => b
  | some _ => b.setState model ((b.state model).charge now (-estimatedTokens) (-1))

/-- `record`: enter a completed request. -/
def record (b : TokenBudget) (model : String) (tokensUsed : ℤ) (now : Time) : TokenBudget :=
  b.setState model ((b.state model).charge now tokensUsed 1)

/-- `best_available`: the first of the preferred model and the fallbacks that can afford the
estimate; each check reads the clock once. -/
def bestAvailable (b : TokenBudget) (estimatedTokens : ℤ) :
    List (String × Time) → Option String × TokenBudget
  | [] => (none, b)
  | (model, now) :: rest =>
      let (ok, b) := b.canAfford model estimatedTokens now
      if ok then (some model, b) else bestAvailable b estimatedTokens rest

/-! ## What the operations change -/

@[simp]
theorem setState_limits (b : TokenBudget) (model : String) (st : ModelState) :
    (b.setState model st).limits = b.limits := rfl

@[simp]
theorem setState_state_self (b : TokenBudget) (model : String) (st : ModelState) :
    (b.setState model st).state model = st := by
  simp [setState]

@[simp]
theorem setState_state_of_ne (b : TokenBudget) {model other : String} (st : ModelState)
    (h : other ≠ model) : (b.setState model st).state other = b.state other := by
  simp [setState, h]

/-- What a reservation on a known model does: it is refused and refreshes the windows, or it is
admitted within the four limits and also enters the spend. -/
theorem reserve_cases (b : TokenBudget) {model : String} {lim : ModelLimits}
    (hlim : b.limits model = some lim) (est : ℤ) (now : Time) :
    (((b.state model).refresh now).hasRoom lim est = true ∧
        b.reserve model est now =
          (true, b.setState model (((b.state model).refresh now).charge now est 1))) ∨
      (((b.state model).refresh now).hasRoom lim est = false ∧
        b.reserve model est now = (false, b.setState model ((b.state model).refresh now))) := by
  cases hroom : ((b.state model).refresh now).hasRoom lim est with
  | true => exact Or.inl ⟨rfl, by simp [reserve, hlim, hroom]⟩
  | false => exact Or.inr ⟨rfl, by simp [reserve, hlim, hroom]⟩

theorem reserve_of_unknown (b : TokenBudget) {model : String} (hlim : b.limits model = none)
    (est : ℤ) (now : Time) : b.reserve model est now = (true, b) := by
  simp [reserve, hlim]

theorem release_of_known (b : TokenBudget) {model : String} {lim : ModelLimits}
    (hlim : b.limits model = some lim) (est : ℤ) (now : Time) :
    b.release model est now = b.setState model ((b.state model).charge now (-est) (-1)) := by
  simp [release, hlim]

theorem release_of_unknown (b : TokenBudget) {model : String} (hlim : b.limits model = none)
    (est : ℤ) (now : Time) : b.release model est now = b := by
  simp [release, hlim]

theorem reserve_limits (b : TokenBudget) (model : String) (est : ℤ) (now : Time) :
    (b.reserve model est now).2.limits = b.limits := by
  cases hlim : b.limits model with
  | none => rw [reserve_of_unknown b hlim]
  | some lim =>
      rcases reserve_cases b hlim est now with ⟨-, h⟩ | ⟨-, h⟩ <;> rw [h] <;> rfl

theorem release_limits (b : TokenBudget) (model : String) (est : ℤ) (now : Time) :
    (b.release model est now).limits = b.limits := by
  cases hlim : b.limits model with
  | none => rw [release_of_unknown b hlim]
  | some lim => rw [release_of_known b hlim, setState_limits]

theorem reserve_state_of_ne (b : TokenBudget) {model other : String} (h : other ≠ model) (est : ℤ)
    (now : Time) : (b.reserve model est now).2.state other = b.state other := by
  cases hlim : b.limits model with
  | none => rw [reserve_of_unknown b hlim]
  | some lim =>
      rcases reserve_cases b hlim est now with ⟨-, hr⟩ | ⟨-, hr⟩ <;> rw [hr] <;> simp [h]

theorem release_state_of_ne (b : TokenBudget) {model other : String} (h : other ≠ model) (est : ℤ)
    (now : Time) : (b.release model est now).state other = b.state other := by
  cases hlim : b.limits model with
  | none => rw [release_of_unknown b hlim]
  | some lim => rw [release_of_known b hlim, setState_state_of_ne b _ h]

theorem exceeds_eq_false_iff (used amount : ℤ) (limit : Nat) :
    exceeds used amount limit = false ↔ ((used + amount : ℤ) : ℚ) ≤ limit * threshold := by
  simp [exceeds]

/-- Admission means room under each of the four limits. -/
theorem ModelState.hasRoom_iff (st : ModelState) (lim : ModelLimits) (est : ℤ) :
    st.hasRoom lim est = true ↔
      ((st.minuteTokens.total + est : ℤ) : ℚ) ≤ lim.tpm * threshold ∧
        ((st.minuteRequests.total + 1 : ℤ) : ℚ) ≤ lim.rpm * threshold ∧
        ((st.dayTokens.total + est : ℤ) : ℚ) ≤ lim.tpd * threshold ∧
        ((st.dayRequests.total + 1 : ℤ) : ℚ) ≤ lim.rpd * threshold := by
  simp only [← exceeds_eq_false_iff, ModelState.hasRoom]
  cases exceeds st.minuteTokens.total est lim.tpm <;>
    cases exceeds st.minuteRequests.total 1 lim.rpm <;>
    cases exceeds st.dayTokens.total est lim.tpd <;>
    cases exceeds st.dayRequests.total 1 lim.rpd <;> simp

end TokenBudget

end AsetPlatform.Llm
