/-!
# Conversation contexts

`ConversationContext` of `backend/agents/conversation_context.py`, and the update that
`_update_conversation_context` (`backend/routes.py`) and `_update_summary_in_byo_scope`
(`backend/ws.py`) make at the end of a turn. Clock readings are counted in ticks; `lastUpdated` is 0
until the context is first stored.
-/

set_option autoImplicit false

namespace AsetPlatform.Chat

/-- `ConversationContext`. -/
structure ConversationContext where
  sessionId : String
  userId : String := ""
  currentTopic : String := ""
  lastAgent : String := ""
  lastIntent : String := ""
  summary : String := ""
  lastResponse : String := ""
  tickersMentioned : List String := []
  userTickers : List String := []
  marketPreference : String := ""
  subscriptionTier : String := ""
  turnCount : Nat := 0
  lastUpdated : Nat := 0
  deriving DecidableEq

/-- What a finished turn reports: the fields of the graph's result the update reads. -/
structure TurnResult where
  currentAgent : String
  intent : String
  finalResponse : String
  tickers : List String
  deriving DecidableEq, Repr

/-- The first `n` characters of a text. -/
def firstChars (n : Nat) (s : String) : String := String.ofList (s.toList.take n)

/-- `tickers` appended to `mentioned`, each once. -/
def addTickers (mentioned tickers : List String) : List String :=
  tickers.foldl (fun acc t => if t ∈ acc then acc else acc ++ [t]) mentioned

/-- `current_topic`: the tickers and the intent. -/
def topicOf (tickers : List String) (intent : String) : String :=
  if tickers.isEmpty then intent else String.intercalate ", " tickers ++ " " ++ intent

/-- The fields a turn overwrites; the turn is counted before the summary is made. -/
def ConversationContext.recordResult (ctx : ConversationContext) (result : TurnResult) :
    ConversationContext :=
  { ctx with
    lastAgent := result.currentAgent
    lastIntent := result.intent
    lastResponse := firstChars 500 result.finalResponse
    currentTopic := topicOf result.tickers result.intent
    tickersMentioned := addTickers ctx.tickersMentioned result.tickers
    turnCount := ctx.turnCount + 1 }

/-- The summary is replaced when a new text was produced. -/
def ConversationContext.updateSummary (ctx : ConversationContext) (newSummary : Option String) :
    ConversationContext :=
  { ctx with summary := if newSummary.getD "" = "" then ctx.summary else newSummary.getD "" }

/-- A turn as a whole. -/
def ConversationContext.recordTurn (ctx : ConversationContext) (result : TurnResult)
    (newSummary : Option String) : ConversationContext :=
  (ctx.recordResult result).updateSummary newSummary

end AsetPlatform.Chat
