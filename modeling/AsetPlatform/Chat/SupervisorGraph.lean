import AsetPlatform.Chat.Guardrail
import Mathlib.Data.Option.Basic

/-!
# The supervisor graph

`backend/agents/graph.py`: the routing nodes, their conditional edges, and one run of the graph. A
node routes by the key it leaves in `next_agent`; a key without an edge raises `KeyError`, and then,
as when a sub-agent raises, the run has no result.
-/

set_option autoImplicit false

namespace AsetPlatform.Chat

open AsetPlatform.Library

inductive SubAgent where
  | portfolio
  | stockAnalyst
  | forecaster
  | research
  | sentiment
  | recommendation
  deriving DecidableEq, Repr

/-- `agent_id`. -/
def SubAgent.id : SubAgent → String
  | portfolio => "portfolio"
  | stockAnalyst => "stock_analyst"
  | forecaster => "forecaster"
  | research => "research"
  | sentiment => "sentiment"
  | recommendation => "recommendation"

def SubAgent.all : List SubAgent :=
  [portfolio, stockAnalyst, forecaster, research, sentiment, recommendation]

/-- The nodes a conditional edge leads to. -/
inductive Node where
  | router
  | llmClassifier
  | supervisor
  | agent (a : SubAgent)
  | decline
  | logQuery
  deriving DecidableEq, Repr

def agentEdges : List (String × Node) := SubAgent.all.map fun a => (a.id, .agent a)

/-- The conditional edges of `guardrail`. -/
def guardrailEdges : List (String × Node) :=
  [("router", .router), ("decline", .decline), ("cache_hit", .logQuery)] ++ agentEdges

/-- The conditional edges of `router`. -/
def routerEdges : List (String × Node) :=
  [("supervisor", .supervisor), ("llm_classifier", .llmClassifier)]

/-- The conditional edges of `llm_classifier`. -/
def classifierEdges : List (String × Node) := [("supervisor", .supervisor), ("decline", .decline)]

/-- `router_node`. -/
def routerNode (T : CharTables) (s : AgentState) : AgentState :=
  match bestIntent T s.userInput with
  | none => { s with nextAgent := "llm_classifier" }
  | some intent => { s with intent := intent, nextAgent := "supervisor" }

/-- `_VALID_INTENTS` of the classifier. -/
def validIntents : List String := ["portfolio", "stock_analysis", "forecast", "research"]

/-- `llm_classifier`: the reply without white space, in lower case and without dots at its end, or
`stock_analysis` when the call fails. -/
def llmClassifier (T : CharTables) (replies : TurnReplies) (s : AgentState) : AgentState :=
  -- an exception of the call counts as the default intent
  let intent := match replies.classifier with
    | none => "stock_analysis"
    | some text =>
        String.ofList ((T.lower (strip T text.toList)).reverse.dropWhile (fun c => c == '.')).reverse
  if intent ∈ validIntents then { s with intent := intent, nextAgent := "supervisor" }
  else { s with nextAgent := "decline" }

/-- `_AGENT_MAP`. -/
def agentMap : List (String × SubAgent) :=
  [ ("portfolio", .portfolio), ("stock_analysis", .stockAnalyst), ("forecast", .forecaster),
    ("research", .research), ("sentiment", .sentiment), ("recommendation", .recommendation) ]

/-- `supervisor`. -/
def supervisor (s : AgentState) : AgentState :=
  -- an unknown intent goes to the stock analyst
  { s with nextAgent := ((agentMap.lookup s.intent).getD .stockAnalyst).id }

/-- `_DECLINE_MSG`. -/
def declineMsg : String :=
  "I'm specialized in stock analysis and portfolio management. I can help with market data, " ++
    "stock analysis, forecasts, and portfolio questions. What would you like to know about your " ++
    "investments?"

/-- `decline_node`. The graph input always has an intent, so the default is not used. -/
def declineNode (s : AgentState) : AgentState :=
  { s with finalResponse := declineMsg, currentAgent := "decline" }

def subAgentNode (a : SubAgent) (replies : TurnReplies) (s : AgentState) : Option AgentState :=
  replies.answer.map fun response => { s with finalResponse := response, currentAgent := a.id }

def runSupervisor (replies : TurnReplies) (s : AgentState) : Option AgentState :=
  let s := supervisor s
  match agentEdges.lookup s.nextAgent with
  | some (.agent a) => subAgentNode a replies s
  | _ => none

/-- From the intent classifier on. -/
def runClassifier (T : CharTables) (replies : TurnReplies) (s : AgentState) : Option AgentState :=
  let s := llmClassifier T replies s
  match classifierEdges.lookup s.nextAgent with
  | some .supervisor => runSupervisor replies s
  | some .decline => some (declineNode s)
  | _ => none

def runRouter (T : CharTables) (replies : TurnReplies) (s : AgentState) : Option AgentState :=
  let s := routerNode T s
  match routerEdges.lookup s.nextAgent with
  | some .supervisor => runSupervisor replies s
  | some .llmClassifier => runClassifier T replies s
  | _ => none

/-- `graph.invoke` on an input, with the context stored under the session id. -/
def runGraph (T : CharTables) (replies : TurnReplies) (ctx : Option ConversationContext)
    (userInput : String) : Option AgentState :=
  let s := guardrail T replies ctx { userInput := userInput }
  match guardrailEdges.lookup s.nextAgent with
  | some .router => runRouter T replies s
  | some .decline => some (declineNode s)
  -- a cached answer or a question back: no agent runs
  | some .logQuery => some s
  | some (.agent a) => subAgentNode a replies s
  | _ => none

/-- The result the context update reads. -/
def AgentState.result (s : AgentState) : TurnResult where
  currentAgent := s.currentAgent
  intent := s.intent
  finalResponse := s.finalResponse
  tickers := s.tickers

/-! ## What a run leaves in `current_agent` -/

theorem mem_agentIds (a : SubAgent) : a.id ∈ SubAgent.all.map SubAgent.id := by
  cases a <;> decide

/-- The agents a finished turn can report. -/
def reportedAgents : List String :=
  ["decline", "cache", "clarification"] ++ SubAgent.all.map SubAgent.id

theorem subAgentNode_reported {a : SubAgent} {replies : TurnReplies} {s t : AgentState}
    (h : subAgentNode a replies s = some t) : t.currentAgent ∈ reportedAgents := by
  simp only [subAgentNode, Option.map_eq_some_iff] at h
  obtain ⟨response, -, rfl⟩ := h
  exact List.mem_append_right _ (mem_agentIds a)

theorem runSupervisor_reported {replies : TurnReplies} {s t : AgentState}
    (h : runSupervisor replies s = some t) : t.currentAgent ∈ reportedAgents := by
  simp only [runSupervisor] at h
  split at h
  · exact subAgentNode_reported h
  · simp at h

theorem declineNode_reported (s : AgentState) : (declineNode s).currentAgent ∈ reportedAgents := by
  show "decline" ∈ reportedAgents
  decide

theorem runClassifier_reported {T : CharTables} {replies : TurnReplies} {s t : AgentState}
    (h : runClassifier T replies s = some t) : t.currentAgent ∈ reportedAgents := by
  simp only [runClassifier] at h
  split at h
  · exact runSupervisor_reported h
  · rw [← Option.some.inj h]
    exact declineNode_reported _
  · simp at h

theorem runRouter_reported {T : CharTables} {replies : TurnReplies} {s t : AgentState}
    (h : runRouter T replies s = some t) : t.currentAgent ∈ reportedAgents := by
  simp only [runRouter] at h
  split at h
  · exact runSupervisor_reported h
  · exact runClassifier_reported h
  · simp at h

end AsetPlatform.Chat
