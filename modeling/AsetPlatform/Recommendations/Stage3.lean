import AsetPlatform.Library.Text
import Mathlib.Data.List.Sort

/-!
# Reasoning over a portfolio

Stage 3 of `backend/jobs/recommendation_engine.py`: an LLM is asked for recommendations as JSON, its
reply is validated and cleaned, and whenever anything about it fails, rules take its place.

What the LLM replies is arbitrary, and so is what `json.loads` makes of it: a result that holds for
every `loads` holds for the real one. The prompt and the health texts of a reply are not looked at.
Lower case is that of ASCII: no other character has a letter of an action as its lower case.
-/

set_option autoImplicit false

namespace AsetPlatform.Recommendations.Stage3

open AsetPlatform.Library

universe u

/-- A value of `json.loads`. A number is given by its `str`. -/
inductive Json where
  | null
  | bool (b : Bool)
  | num (repr : String)
  | str (s : String)
  | arr (items : List Json)
  | obj (entries : List (String × Json))

abbrev Obj := List (String × Json)

namespace Json

def truthy : Json → Bool
  | null => false
  | bool b => b
  | num repr => repr ∉ ["0", "0.0", "-0.0"]
  | str s => s ≠ ""
  | arr items => !items.isEmpty
  | obj entries => !entries.isEmpty

/-- `x in tickers` for a set of texts. A value that cannot be hashed raises. -/
def isIn (tickers : List String) : Json → Option Bool
  | str s => some (s ∈ tickers)
  | arr _ => none
  | obj _ => none
  | _ => some false

/-- `str(x)`, for what can be hashed. -/
def text : Json → String
  | null => "None"
  | bool b => if b then "True" else "False"
  | num repr => repr
  | str s => s
  | arr _ => ""
  | obj _ => ""

end Json

namespace Obj

/-- `rec.get(key)`. -/
def get (o : Obj) (key : String) : Option Json := (o.find? fun e => e.1 = key).map Prod.snd

/-- `rec[key] = value`, for a key in use. -/
def replace (o : Obj) (key : String) (value : Json) : Obj :=
  o.map fun e => if e.1 = key then (key, value) else e

/-- `rec.get("ticker")`. -/
def ticker (o : Obj) : Json := (o.get "ticker").getD .null

/-- `rec.get("action", "").lower()`, which raises if the action is no text. -/
def lowerAction (o : Obj) : Option String :=
  match o.get "action" with
  | none => some ""
  | some (.str a) => some (asciiLower a)
  | some _ => none

end Obj

/-! ## The output of stage 2

Numbers are only formatted here. -/

/-- What `_categorize_holding` returns. -/
inductive Category where
  | exitReduce
  | riskAlert
  | rebalance
  | holdAccumulate
  deriving DecidableEq

def Category.text : Category → String
  | exitReduce => "exit_reduce"
  | riskAlert => "risk_alert"
  | rebalance => "rebalance"
  | holdAccumulate => "hold_accumulate"

/-- `priority.index`. -/
def Category.priority : Category → Nat
  | exitReduce => 0
  | riskAlert => 1
  | rebalance => 2
  | holdAccumulate => 3

/-- `action_map`. -/
def Category.action : Category → String
  | exitReduce => "sell"
  | riskAlert => "alert"
  | rebalance => "reduce"
  | holdAccumulate => "accumulate"

/-- An element of `portfolio_actions`, which has one for each holding. -/
structure PortfolioAction (F : Type u) where
  ticker : String
  compositeScore : F
  forecast3mPct : F
  category : Category

structure Candidate (F : Type u) where
  ticker : String
  gapAdjustedScore : F
  tier : String
  sector : String

structure PortfolioSummary where
  concentrationRisks : List String
  correlationAlerts : Nat
  totalHoldings : Nat
  nifty50Overlap : Int := 0

structure Stage2Output (F : Type u) where
  portfolioSummary : PortfolioSummary
  portfolioActions : List (PortfolioAction F)
  candidates : List (Candidate F)

/-- What the interpreter supplies: `json.loads`, `:.1f`, the length of the prompt, the provider that
answered, and the texts of the assessments. -/
structure Runtime (F : Type u) where
  tables : CharTables
  loads : List Char → Option Json
  format1 : F → String
  promptLength : Nat
  lastProvider : String

/-- What stage 3 returns. -/
structure Stage3Result where
  recommendations : List Obj
  healthScore : Int
  healthLabel : String
  llmModel : String
  llmTokensUsed : Nat

/-! ## The health score -/

def riskPenalty (risk : String) : Int :=
  if occursIn "sector".toList (asciiLower risk).toList then 10
  else if occursIn "cap".toList (asciiLower risk).toList then 8
  else 10

/-- `_compute_health_score`. -/
def computeHealthScore (s : PortfolioSummary) : Int × String :=
  let score := 70 - (s.concentrationRisks.map riskPenalty).foldl (· + ·) 0 - 5 * s.correlationAlerts -
    (if s.totalHoldings < 5 then 15 else 0) + min (s.nifty50Overlap * 2) 10
  let score := max 0 (min 100 score)
  (score,
    if score < 30 then "critical"
    else if score < 60 then "needs_attention"
    else if score < 80 then "healthy"
    else "excellent")

/-! ## Validation -/

/-- `_REQUIRED_REC_FIELDS`, sorted. -/
def requiredRecFields : List String := ["action", "category", "rationale", "severity", "tier"]

inductive Error where
  | noRecommendations
  | notAList
  | missingFields (i : Nat) (fields : List String)
  | hallucinated (i : Nat) (ticker : Json)
  | notHeld (i : Nat) (ticker : Json)
  | noHealthScore
  | noHealthLabel

def Error.text : Error → String
  | noRecommendations => "Missing 'recommendations' key"
  | notAList => "'recommendations' is not a list"
  | missingFields i fields =>
      "rec[" ++ toString i ++ "]: missing fields [" ++
        ", ".intercalate (fields.map fun f => "'" ++ f ++ "'") ++ "]"
  | hallucinated i ticker => "rec[" ++ toString i ++ "]: hallucinated ticker '" ++ ticker.text ++ "'"
  | notHeld i ticker =>
      "rec[" ++ toString i ++ "]: 'accumulate' used for non-held ticker '" ++ ticker.text ++ "'"
  | noHealthScore => "Missing 'health_score'"
  | noHealthLabel => "Missing 'health_label'"

/-- `"hallucinated" not in e`. -/
def Error.structural (e : Error) : Bool := !occursIn "hallucinated".toList e.text.toList

def unknownTicker (valid : List String) (o : Obj) : Option Bool :=
  if o.ticker.truthy then (o.ticker.isIn valid).map not else some false

/-- The action is `accumulate`, for a ticker that is given and not held. -/
def misplaced (held : List String) (o : Obj) : Option Bool :=
  o.lowerAction.bind fun action =>
    if action = "accumulate" ∧ o.ticker.truthy then (o.ticker.isIn held).map not else some false

/-- The errors of one recommendation, or `none` if looking at it raises. -/
def validateRec (valid held : List String) (i : Nat) (o : Obj) : Option (List Error) :=
  let missing := requiredRecFields.filter fun f => (o.get f).isNone
  (unknownTicker valid o).bind fun unknown =>
    (misplaced held o).map fun wrong =>
      (if missing = [] then [] else [.missingFields i missing]) ++
        (if unknown then [.hallucinated i o.ticker] else []) ++
          if wrong then [.notHeld i o.ticker] else []

/-- The loop over the recommendations. -/
def validateRecs (valid held : List String) : Nat → List Obj → Option (List Error)
  | _, [] => some []
  | i, o :: os =>
      (validateRec valid held i o).bind fun errors =>
        (validateRecs valid held (i + 1) os).map fun rest => errors ++ rest

/-- The items of a list of objects. -/
def asObjs : List Json → Option (List Obj)
  | [] => some []
  | .obj o :: items => (asObjs items).map fun os => o :: os
  | _ :: _ => none

/-- The last two checks of `_validate_llm_output`. -/
def healthErrors (output : Obj) : List Error :=
  (if (output.get "health_score").isNone then [.noHealthScore] else []) ++
    if (output.get "health_label").isNone then [.noHealthLabel] else []

/-- `_validate_llm_output` on an object whose recommendations are a list of objects. -/
def validateLlmOutput (valid held : List String) (output : Obj) (recs : List Obj) :
    Option (List Error) :=
  (validateRecs valid held 0 recs).map fun errors => errors ++ healthErrors output

/-! ## Cleaning -/

/-- A recommendation that stays: its ticker is known, or not given. -/
def keeps (valid : List String) (o : Obj) : Bool := unknownTicker valid o = some false

/-- `accumulate` for what is not held becomes `buy`. -/
def fixAction (held : List String) (o : Obj) : Obj :=
  if misplaced held o = some true then o.replace "action" (.str "buy") else o

def clean (valid held : List String) (recs : List Obj) : List Obj :=
  (recs.filter (keeps valid)).map (fixAction held)

/-! ## The rules that take the place of the LLM -/

section Fallback

variable {F : Type u} (rt : Runtime F)

/-- `sorted_actions[:2]`. -/
def firstActions (actions : List (PortfolioAction F)) : List (PortfolioAction F) :=
  (actions.insertionSort fun a b => a.category.priority ≤ b.category.priority).take 2

def actionRec (pa : PortfolioAction F) : Obj :=
  [("ticker", .str pa.ticker), ("tier", .str "portfolio"), ("category", .str pa.category.text),
    ("action", .str pa.category.action),
    ("severity", .str (if pa.category = .exitReduce then "high" else "medium")),
    ("rationale", .str ("Deterministic fallback: " ++ pa.category.text ++
      " signal based on composite score " ++ rt.format1 pa.compositeScore ++ " and 3m forecast " ++
        rt.format1 pa.forecast3mPct ++ "%."))]

def candidateRec (c : Candidate F) : Obj :=
  [("ticker", .str c.ticker), ("tier", .str c.tier), ("category", .str "value"),
    ("action", .str "buy"), ("severity", .str "medium"),
    ("rationale", .str ("Deterministic fallback: gap-adjusted score " ++
      rt.format1 c.gapAdjustedScore ++ ", sector " ++ c.sector ++ "."))]

/-- The loop that fills the remaining slots. -/
def fill (recs : List Obj) (seen : List String) : List (Candidate F) → List Obj
  | [] => recs
  | c :: cs =>
      if c.ticker ∈ seen then fill recs seen cs
      else if 5 ≤ (recs ++ [candidateRec rt c]).length then recs ++ [candidateRec rt c]
      else fill (recs ++ [candidateRec rt c]) (c.ticker :: seen) cs

/-- The recommendations of `_deterministic_fallback`. -/
def fallbackRecs (s2 : Stage2Output F) : List Obj :=
  let actions := firstActions s2.portfolioActions
  let remaining := 5 - actions.length
  fill rt (actions.map (actionRec rt)) (actions.map PortfolioAction.ticker)
    (s2.candidates.take (remaining + 5))

/-- `_deterministic_fallback`. -/
def deterministicFallback (s2 : Stage2Output F) (health : Int × String) : Stage3Result where
  recommendations := fallbackRecs rt s2
  healthScore := health.1
  healthLabel := health.2
  llmModel := "deterministic_fallback"
  llmTokensUsed := 0

/-! ## Stage 3 -/

/-- Markdown fences stripped. A first fence without a line break raises. -/
def stripFences (raw : List Char) : Option (List Char) :=
  let text := strip rt.tables raw
  let body :=
    if "```".toList.isPrefixOf text then
      match text.dropWhile fun c => c ≠ '\n' with
      | [] => none
      | _ :: rest => some rest
    else some text
  body.map fun text =>
    if "```".toList.isSuffixOf text then rstrip rt.tables (text.take (text.length - 3)) else text

/-- A comma before a closing bracket dropped, with the white space between them. `skip` counts the
characters that are still to be dropped. -/
def repairCommas (T : CharTables) : Nat → List Char → List Char
  | _, [] => []
  | skip + 1, _ :: s => repairCommas T skip s
  | 0, c :: s =>
      let blank := (s.takeWhile T.isSpace).length
      if c = ',' ∧ ((s.drop blank).head? = some '}' ∨ (s.drop blank).head? = some ']') then
        repairCommas T blank s
      else c :: repairCommas T 0 s

def Stage2Output.heldTickers (s2 : Stage2Output F) : List String :=
  s2.portfolioActions.map PortfolioAction.ticker

def Stage2Output.validTickers (s2 : Stage2Output F) : List String :=
  s2.candidates.map Candidate.ticker ++ s2.heldTickers

/-- The object of a reply with its recommendations. For everything else validating or cleaning raises
or leaves nothing. -/
def parseReply (raw : String) : Option (Obj × List Obj) :=
  (stripFences rt raw.toList).bind fun text =>
    (rt.loads (repairCommas rt.tables 0 text)).bind fun parsed =>
      match parsed with
      | .obj output =>
          match Obj.get output "recommendations" with
          | some (.arr items) => (asObjs items).map fun recs => (output, recs)
          | _ => none
      | _ => none

/-- The recommendations of a reply that passes: none raises, something is left, and there are no
structural errors. -/
def acceptedRecs (s2 : Stage2Output F) (raw : String) : Option (List Obj) :=
  (parseReply rt raw).bind fun reply =>
    (validateLlmOutput s2.validTickers s2.heldTickers reply.1 reply.2).bind fun errors =>
      if clean s2.validTickers s2.heldTickers reply.2 = [] then none
      else if errors.any Error.structural then none
      else some reply.2

/-- `stage3_llm_reasoning`. Without a reply, calling the LLM has raised. -/
def stage3LlmReasoning (s2 : Stage2Output F) (reply : Option String) : Stage3Result :=
  let health := computeHealthScore s2.portfolioSummary
  if s2.candidates = [] ∧ s2.portfolioActions = [] then ⟨[], health.1, health.2, "none", 0⟩
  else
    match reply.bind fun raw => (acceptedRecs rt s2 raw).map fun recs => (raw, recs) with
    | some (raw, recs) =>
        { recommendations := clean s2.validTickers s2.heldTickers recs
          healthScore := health.1
          healthLabel := health.2
          llmModel := rt.lastProvider
          llmTokensUsed := rt.promptLength + raw.length }
    | none => deterministicFallback rt s2 health

end Fallback

end AsetPlatform.Recommendations.Stage3
