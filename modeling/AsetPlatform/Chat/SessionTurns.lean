import AsetPlatform.Chat.SupervisorGraph
import AsetPlatform.Library.Run

/-!
# The turns of a session

A session is a list of events on the context stored under its id: a turn runs the graph and, when
the run has a result, records it in the context; the context can also be gone by the next turn. A
turn without a stored context continues from a context resumed from the user's last session, or
from a new one.

`session_routed_iff`: in a session every turn is routed along an edge of the graph and declined only
when it would be without context, exactly when no turn reuses an agent that is no sub-agent, but for
declined turns that the relevance check declines as well.
-/

set_option autoImplicit false

namespace AsetPlatform.Chat

open AsetPlatform.Library

/-- What happens in a session. -/
inductive SessionEvent where
  | turn (userInput : String) (replies : TurnReplies) (resumed : Option ConversationContext)
      (newSummary : Option String)
  | evicted

/-- The context stored under the session id after an event. -/
def sessionStep (T : CharTables) (sessionId : String) (ctx : Option ConversationContext) :
    SessionEvent → Option ConversationContext
  | .turn userInput replies resumed newSummary =>
      match runGraph T replies ctx userInput with
      | none => ctx
      | some s =>
          some (((ctx.or resumed).getD { sessionId := sessionId }).recordTurn s.result newSummary)
  | .evicted => none

/-- The turn is routed along an edge of the guardrail, and to the decline node only when it would be
there without a context. -/
def Routed (T : CharTables) (ctx : Option ConversationContext) : SessionEvent → Prop
  | .turn userInput replies _ _ =>
      (guardrail T replies ctx { userInput := userInput }).nextAgent ∈ guardrailEdges.map Prod.fst ∧
        ((guardrail T replies ctx { userInput := userInput }).nextAgent = "decline" →
          (guardrail T replies none { userInput := userInput }).nextAgent = "decline")
  | .evicted => True

/-- The guardrail takes one of its four follow-up branches: after a response that asked back, for
the intent of the last turn, for a ticker without an intent, or by the follow-up detector. -/
def reuses (T : CharTables) (replies : TurnReplies) (ctx : ConversationContext)
    (userInput : String) : Bool :=
  match bestIntent T userInput with
  | none =>
      (ctx.lastAgent != "decline" && isClarification T ctx.lastResponse) ||
        tickerPattern.search T userInput.toList || classifyFollowup T replies ctx
  | some detected => detected == ctx.lastIntent

/-- The input comes to the follow-up branches: it is not answered from the cache and not blocked. -/
def reachesFollowUp (T : CharTables) (replies : TurnReplies) (userInput : String) : Prop :=
  replies.cached.filter (fun reply => reply != "") = none ∧ isBlocked T userInput = false

/-- A turn that takes a follow-up branch continues with a sub-agent, or with the decline node for an
input that is declined without a context too. -/
def ReuseSafe (T : CharTables) (ctx : Option ConversationContext) : SessionEvent → Prop
  | .turn userInput replies _ _ =>
      ∀ c ∈ ctx, c.lastAgent ≠ "" → reachesFollowUp T replies userInput →
        reuses T replies c userInput = true →
          c.lastAgent ∈ SubAgent.all.map SubAgent.id ∨
            (c.lastAgent = "decline" ∧
              (financialRelevance T { userInput := userInput }).nextAgent = "decline")
  | .evicted => True

/-- The last agent of a stored context is one a finished turn reports. -/
def LastReported (ctx : Option ConversationContext) : Prop :=
  ∀ c ∈ ctx, c.lastAgent ∈ reportedAgents

/-! ## The guardrail by cases -/

/-- Either a follow-up branch is taken and the last agent reused, or the input falls through, or two
intents tie and the guardrail asks back. -/
theorem followUp_cases (T : CharTables) (replies : TurnReplies) (ctx : ConversationContext)
    (s : AgentState) :
    (reuses T replies ctx s.userInput = true ∧
        ∃ tickers intent, followUp T replies ctx s = some (reuseAgent ctx s tickers intent)) ∨
      (reuses T replies ctx s.userInput = false ∧
        (followUp T replies ctx s = none ∨
          ∃ response, followUp T replies ctx s =
            some { s with
              finalResponse := response
              nextAgent := "cache_hit"
              currentAgent := "clarification" })) := by
  simp only [followUp, reuses]
  cases bestIntent T s.userInput with
  | none =>
      simp only
      by_cases hclarif : ctx.lastAgent ≠ "decline" ∧ isClarification T ctx.lastResponse = true
      · exact Or.inl ⟨by simp [hclarif], _, _, if_pos hclarif⟩
      · rw [if_neg hclarif]
        have hno : (ctx.lastAgent != "decline" && isClarification T ctx.lastResponse) = false := by
          simpa using hclarif
        cases hticker : tickerPattern.search T s.userInput.toList with
        | true => exact Or.inl ⟨by simp, _, _, rfl⟩
        | false =>
            cases hdetector : classifyFollowup T replies ctx with
            | true => exact Or.inl ⟨by simp, _, _, rfl⟩
            | false => exact Or.inr ⟨by simp [hno], Or.inl rfl⟩
  | some detected =>
      simp only
      by_cases hsame : detected = ctx.lastIntent
      · exact Or.inl ⟨by simp [hsame], _, _, if_pos hsame⟩
      · rw [if_neg hsame]
        refine Or.inr ⟨by simp [hsame], ?_⟩
        split
        · exact Or.inr ⟨_, rfl⟩
        · exact Or.inl rfl

theorem financialRelevance_nextAgent (T : CharTables) (s : AgentState) :
    (financialRelevance T s).nextAgent = "router" ∨
      (financialRelevance T s).nextAgent = "decline" := by
  simp only [financialRelevance]
  split
  · exact Or.inl rfl
  · exact Or.inr rfl

/-- For an input that comes to them, the follow-up branches decide. -/
theorem guardrail_eq {T : CharTables} {replies : TurnReplies} {s : AgentState}
    (h : reachesFollowUp T replies s.userInput) (ctx : Option ConversationContext) :
    guardrail T replies ctx s =
      match ctx.filter fun c => c.lastAgent != "" with
      | none => financialRelevance T s
      | some c => (followUp T replies c s).getD (financialRelevance T s) := by
  cases hctx : ctx.filter fun c => c.lastAgent != "" with
  | none => simp only [guardrail, h.1, h.2, hctx, Bool.false_eq_true, if_false]
  | some c => simp only [guardrail, h.1, h.2, hctx, Bool.false_eq_true, if_false]

/-- An input that does not come to the follow-up branches is routed alike with every context. -/
theorem guardrail_of_not_reaches {T : CharTables} {replies : TurnReplies} {s : AgentState}
    (h : ¬ reachesFollowUp T replies s.userInput) (ctx : Option ConversationContext) :
    guardrail T replies ctx s = guardrail T replies none s ∧
      ((guardrail T replies none s).nextAgent = "cache_hit" ∧
          (guardrail T replies none s).currentAgent = "cache" ∨
        (guardrail T replies none s).nextAgent = "decline") := by
  simp only [guardrail]
  cases hcached : replies.cached.filter fun reply => reply != "" with
  | some reply => exact ⟨rfl, Or.inl ⟨rfl, rfl⟩⟩
  | none =>
      cases hblocked : isBlocked T s.userInput with
      | true => exact ⟨rfl, Or.inr rfl⟩
      | false => exact absurd ⟨hcached, hblocked⟩ h

/-! ## One turn -/

theorem mem_guardrailEdges (key : String) :
    key ∈ guardrailEdges.map Prod.fst ↔
      key = "router" ∨ key = "decline" ∨ key = "cache_hit" ∨
        key ∈ SubAgent.all.map SubAgent.id := by
  simp [guardrailEdges, agentEdges, Function.comp_def]

theorem agentId_ne {key : String} (h : key ∈ SubAgent.all.map SubAgent.id) :
    key ≠ "decline" ∧ key ≠ "cache_hit" := by
  simp only [SubAgent.all, List.map_cons, List.map_nil, SubAgent.id, List.mem_cons,
    List.not_mem_nil, or_false] at h
  rcases h with rfl | rfl | rfl | rfl | rfl | rfl <;> decide

theorem reported_edge {agent : String} (hreported : agent ∈ reportedAgents)
    (hedge : agent ∈ guardrailEdges.map Prod.fst) :
    agent = "decline" ∨ agent ∈ SubAgent.all.map SubAgent.id := by
  rcases List.mem_append.mp hreported with h | h
  · simp only [List.mem_cons, List.not_mem_nil, or_false] at h
    rcases h with rfl | rfl | rfl
    · exact Or.inl rfl
    · exact absurd hedge (by decide)
    · exact absurd hedge (by decide)
  · exact Or.inr h

/-- One turn is routed rightly exactly when it reuses its agent safely. -/
theorem routed_iff (T : CharTables) (ctx : Option ConversationContext) (e : SessionEvent)
    (hctx : LastReported ctx) : Routed T ctx e ↔ ReuseSafe T ctx e := by
  cases e with
  | evicted => exact Iff.rfl
  | turn userInput replies resumed newSummary =>
      simp only [Routed, ReuseSafe]
      generalize hs : ({ userInput := userInput } : AgentState) = s
      have hinput : s.userInput = userInput := by rw [← hs]
      rw [← hinput]
      by_cases hreach : reachesFollowUp T replies s.userInput
      · rw [guardrail_eq hreach ctx, guardrail_eq hreach none]
        have hrelevance := financialRelevance_nextAgent T s
        have hfall : (financialRelevance T s).nextAgent ∈ guardrailEdges.map Prod.fst := by
          rw [mem_guardrailEdges]
          rcases hrelevance with h | h <;> rw [h] <;> simp
        cases hc : ctx.filter fun c => c.lastAgent != "" with
        | none =>
            refine iff_of_true ⟨hfall, fun h => h⟩ ?_
            intro c hmem hne
            rw [Option.mem_def.mp hmem] at hc
            simp [Option.filter, hne] at hc
        | some c =>
            obtain ⟨hmem, hne⟩ := Option.filter_eq_some_iff.mp hc
            have hne' : c.lastAgent ≠ "" := by simpa using hne
            have hsafe : (∀ c' ∈ ctx, c'.lastAgent ≠ "" → reachesFollowUp T replies s.userInput →
                reuses T replies c' s.userInput = true →
                  c'.lastAgent ∈ SubAgent.all.map SubAgent.id ∨
                    (c'.lastAgent = "decline" ∧ (financialRelevance T s).nextAgent = "decline")) ↔
                (reuses T replies c s.userInput = true →
                  c.lastAgent ∈ SubAgent.all.map SubAgent.id ∨
                    (c.lastAgent = "decline" ∧ (financialRelevance T s).nextAgent = "decline")) := by
              rw [Option.mem_def.mp hmem]
              simp [hne', hreach]
            rw [hsafe]
            rcases followUp_cases T replies c s with ⟨hreuse, tickers, intent, hf⟩ | ⟨hno, hf⟩
            · -- The next agent is the last one: an edge key among the reported agents.
              simp only [hf, Option.getD_some, reuseAgent, Option.filter_none, hreuse, true_implies]
              constructor
              · rintro ⟨hedge, hdecline⟩
                rcases reported_edge (hctx c hmem) hedge with h | h
                · exact Or.inr ⟨h, hdecline h⟩
                · exact Or.inl h
              · rintro (h | ⟨h, hdecline⟩)
                · exact ⟨(mem_guardrailEdges _).mpr (Or.inr (Or.inr (Or.inr h))),
                    fun hd => absurd hd (agentId_ne h).1⟩
                · exact ⟨(mem_guardrailEdges _).mpr (Or.inr (Or.inl h)), fun _ => hdecline⟩
            · refine iff_of_true ?_ (fun h => absurd h (by simp [hno]))
              rcases hf with hf | ⟨response, hf⟩
              · simp only [hf, Option.getD_none, Option.filter_none]
                exact ⟨hfall, fun h => h⟩
              · simp only [hf, Option.getD_some, Option.filter_none]
                exact ⟨by decide, fun h => absurd h (by decide)⟩
      · obtain ⟨hsame, hcases⟩ := guardrail_of_not_reaches hreach ctx
        rw [hsame]
        refine iff_of_true ⟨?_, fun h => h⟩ fun _ _ _ h => absurd h hreach
        rw [mem_guardrailEdges]
        rcases hcases with ⟨h, -⟩ | h <;> rw [h] <;> simp

/-! ## A whole session -/

/-- A state the guardrail sends to the log without a sub-agent is a cached answer or a question
back. -/
theorem guardrail_logged {T : CharTables} {replies : TurnReplies}
    {ctx : Option ConversationContext} {s : AgentState} (hctx : LastReported ctx)
    (h : (guardrail T replies ctx s).nextAgent = "cache_hit") :
    (guardrail T replies ctx s).currentAgent ∈ reportedAgents := by
  have hcache : "cache" ∈ reportedAgents := by decide
  have hclarif : "clarification" ∈ reportedAgents := by decide
  by_cases hreach : reachesFollowUp T replies s.userInput
  · rw [guardrail_eq hreach ctx] at h ⊢
    have hrelevance : (financialRelevance T s).nextAgent ≠ "cache_hit" := by
      rcases financialRelevance_nextAgent T s with h | h <;> rw [h] <;> decide
    cases hc : ctx.filter fun c => c.lastAgent != "" with
    | none =>
        rw [hc] at h
        exact absurd h hrelevance
    | some c =>
        rw [hc] at h
        rcases followUp_cases T replies c s with ⟨-, tickers, intent, hf⟩ | ⟨-, hf | ⟨response, hf⟩⟩
        · -- The last agent would be `cache_hit`, which no turn reports.
          simp only [hf, Option.getD_some, reuseAgent] at h
          have hlast := hctx c (Option.filter_eq_some_iff.mp hc).1
          rw [h] at hlast
          exact absurd hlast (by decide)
        · simp only [hf, Option.getD_none] at h
          exact absurd h hrelevance
        · simpa only [hf, Option.getD_some] using hclarif
  · obtain ⟨hsame, ⟨-, hcurrent⟩ | hdecline⟩ := guardrail_of_not_reaches hreach ctx
    · rw [hsame, hcurrent]
      exact hcache
    · rw [hsame, hdecline] at h
      exact absurd h (by decide)

theorem lookup_logQuery {key : String} (h : guardrailEdges.lookup key = some .logQuery) :
    key = "cache_hit" := by
  obtain ⟨before, after, hedges, -⟩ := List.lookup_eq_some_iff.mp h
  have hmem : (key, Node.logQuery) ∈ guardrailEdges := by
    rw [hedges]
    exact List.mem_append_right _ List.mem_cons_self
  simpa [guardrailEdges, agentEdges] using hmem

theorem runGraph_reported {T : CharTables} {replies : TurnReplies}
    {ctx : Option ConversationContext} {userInput : String} {s : AgentState}
    (hctx : LastReported ctx) (h : runGraph T replies ctx userInput = some s) :
    s.currentAgent ∈ reportedAgents := by
  simp only [runGraph] at h
  split at h
  · exact runRouter_reported h
  · rw [← Option.some.inj h]
    exact declineNode_reported _
  · rename_i hedge
    rw [← Option.some.inj h]
    exact guardrail_logged hctx (lookup_logQuery hedge)
  · exact subAgentNode_reported h
  · simp at h

/-- Each event keeps the last agent among the reported ones. -/
theorem sessionStep_reported (T : CharTables) (sessionId : String)
    (ctx : Option ConversationContext) (e : SessionEvent) (hctx : LastReported ctx) :
    LastReported (sessionStep T sessionId ctx e) := by
  cases e with
  | evicted => exact fun c hc => absurd hc (by simp [sessionStep])
  | turn userInput replies resumed newSummary =>
      simp only [sessionStep]
      cases hrun : runGraph T replies ctx userInput with
      | none => exact hctx
      | some s =>
          intro c hc
          rw [← Option.some.inj hc]
          exact runGraph_reported hctx hrun

/-- Every turn of a session is routed rightly exactly when every turn reuses its agent safely. -/
theorem session_routed_iff (T : CharTables) (sessionId : String) (events : List SessionEvent) :
    EveryStep (sessionStep T sessionId) (Routed T) none events ↔
      EveryStep (sessionStep T sessionId) (ReuseSafe T) none events := by
  have hstart : LastReported none := fun c hc => absurd hc (by simp)
  exact everyStep_congr (sessionStep_reported T sessionId) (routed_iff T) hstart

/-- A cached answer that ends with a question, and a short reply to it. -/
def cachedQuestion : List SessionEvent :=
  [ .turn "Is TCS a buy?" { cached := some "Analysts say hold. Shall I go on?" } none none,
    .turn "yes" {} none none ]

def declinedThenTicker : List SessionEvent :=
  [ .turn "hello" {} none none, .turn "TCS" {} none none ]

/-- After a cached answer the short reply is sent to an agent `cache`, which has no edge; after a
declined input a ticker is declined, which without context goes to the router. -/
theorem followUp_misroutes :
    ¬ EveryStep (sessionStep .ascii "s") (Routed .ascii) none cachedQuestion ∧
      ¬ EveryStep (sessionStep .ascii "s") (Routed .ascii) none declinedThenTicker := by
  constructor
  · rintro ⟨-, ⟨hedge, -⟩, -⟩
    revert hedge
    decide +kernel
  · rintro ⟨-, ⟨-, hdecline⟩, -⟩
    revert hdecline
    decide +kernel

end AsetPlatform.Chat
