import AsetPlatform.Chat.ConversationContext
import AsetPlatform.Library.Text

/-!
# The guardrail node

`backend/agents/nodes/guardrail.py` with the keyword tables of `backend/agents/router.py` and
`backend/agents/nodes/router_node.py`: the first node of the supervisor graph. It answers from the
query cache, blocks unsafe inputs, reuses the last agent for follow-ups, asks back when two intents
tie, and otherwise lets financial inputs through to the router.
-/

set_option autoImplicit false

namespace AsetPlatform.Chat

open AsetPlatform.Library

/-! ## Keyword tables -/

/-- `_BLOCKED_KEYWORDS`. -/
def blockedKeywords : List String :=
    [ "porn", "pornography", "xxx", "nude", "nudes", "naked", "sex", "sexual", "hentai",
      "erotic", "kill", "murder", "bomb", "weapon", "weapons", "gun", "guns", "torture",
      "terroris", "suicide", "hack", "hacking", "exploit", "malware", "ransomware", "phishing",
      "drugs", "cocaine", "heroin", "meth" ]

/-- `_STOCK_KEYWORDS`. -/
def stockKeywords : List String :=
    [ "stock", "stocks", "share", "shares", "sector", "sectors", "ticker", "tickers", "analyze",
      "analyse", "analysis", "forecast", "price", "prices", "dividend", "dividends", "portfolio",
      "market", "markets", "bull", "bear", "bearish", "bullish", "nifty", "sensex", "nasdaq",
      "s&p", "dow", "bse", "nse", "rsi", "macd", "sma", "ema", "candlestick", "ohlc", "volume",
      "earnings", "revenue", "eps", "pe", "roe", "debt", "quarterly", "annual", "returns",
      "volatility", "sharpe", "drawdown", "hedge", "etf", "mutual", "fund", "invest",
      "investing", "investment", "trader", "trading", "buy", "sell", "hold", "watchlist",
      "industry", "ipo", "rally", "crash", "correction", "breakout", "support", "resistance" ]

/-- `_EXTRA_FINANCIAL`. -/
def extraFinancial : List String :=
    [ "portfolio", "holdings", "allocation", "weightage", "rebalance", "diversify", "profit",
      "loss", "pnl", "p&l", "capital gain", "capital loss", "gain", "yield", "beta", "alpha",
      "risk", "hedge", "margin", "leverage", "valuation", "outlook", "predict", "prophet",
      "technical", "fundamental", "indicator", "indicators", "screener", "correlation",
      "headline", "sentiment", "recommendation", "analyst", "upgrade", "downgrade", "overweight",
      "underweight" ]

/-- `_COMMON_WORDS`. -/
def commonWords : List String :=
    [ "I", "A", "IT", "IS", "AM", "AN", "AT", "AS", "BE", "BY", "DO", "GO", "HE", "IF", "IN",
      "ME", "MY", "NO", "OF", "OK", "ON", "OR", "SO", "TO", "UP", "US", "WE", "THE", "AND",
      "FOR", "NOT", "BUT", "ALL", "CAN", "HER", "WAS", "ONE", "OUR", "OUT", "ARE", "HAS", "HIS",
      "HOW", "ITS", "MAY", "NEW", "NOW", "OLD", "SEE", "WAY", "WHO", "DID", "GET", "HIM", "LET",
      "SAY", "SHE", "TOO", "USE" ]

/-- `_INTENT_MAP`: each intent with its keywords. -/
def intentMap : List (String × List String) :=
  [
    ("portfolio",
      [ "portfolio", "holdings", "holding", "allocation", "weightage", "weight", "rebalance",
        "rebalancing", "diversify", "diversification", "sector breakdown", "my stocks",
        "my stock", "invested", "p&l", "pnl", "profit and loss", "returns", "return",
        "unrealized", "unrealised" ]),
    ("stock_analysis",
      [ "analyse", "analyze", "analysis", "technical", "indicator", "indicators", "rsi", "macd",
        "sma", "ema", "bollinger", "support", "resistance", "ohlcv", "ohlc", "candlestick",
        "compare", "comparison", "fetch", "load", "screener" ]),
    ("forecast",
      [ "forecast", "predict", "prediction", "prophet", "target", "price target", "outlook",
        "6 month", "3 month", "9 month", "projection", "future price", "will go up",
        "will go down" ]),
    ("research",
      [ "news", "headline", "headlines", "sentiment", "analyst", "upgrade", "downgrade",
        "market trend", "sector trend", "latest on", "what happened", "why did" ]),
    ("recommendation",
      [ "recommend", "recommendation", "recommendations", "suggestion", "suggestions",
        "what should i buy", "what should i sell", "portfolio advice", "improve my portfolio",
        "improve portfolio", "recommendation history", "how did your picks", "hit rate",
        "track record", "pick stocks", "why recommended", "why was it recommended",
        "recommendation detail", "piotroski" ]) ]

/-- `_INTENT_LABELS`. -/
def intentLabels : List (String × String) :=
  [ ("portfolio", "Portfolio analysis (holdings, P&L, rebalancing)"),
    ("stock_analysis", "Stock analysis (technicals, OHLCV, indicators)"),
    ("forecast", "Price forecast (Prophet model, price targets)"),
    ("research", "News & research (headlines, analyst ratings)") ]

/-! ## Patterns -/

/-- A character between two others. -/
def charRange (a b : Char) : Regex := .char fun c => a ≤ c && c ≤ b

/-- `_TICKER_PATTERN`: one to five capitals, perhaps a dot and one or two more, as a word. -/
def tickerPattern : Regex :=
  let capital := charRange 'A' 'Z'
  .seq .wordBoundary <| .seq (Regex.between capital 1 4) <|
    .seq (Regex.opt (.seq (.char fun c => c == '.') (Regex.between capital 1 1))) .wordBoundary

/-- `_CLARIFICATION_RE`, compared without regard to case. -/
def clarificationRe (T : CharTables) : Regex :=
  let literal (s : String) := Regex.literal T.sameIgnoringCase s.toList
  let anyChar := Regex.char fun c => c != '\n'
  let keycap (digit : Char) :=
    Regex.literal T.sameIgnoringCase [digit, Char.ofNat 0xFE0F, Char.ofNat 0x20E3]
  Regex.oneOf
    [ literal "which of the following", literal "would you like", literal "please choose",
      .seq (literal "select") (.seq (.star anyChar) (literal "option")),
      keycap '1', keycap '2', keycap '3',
      .seq (.char fun c => c == '\n') <| .seq (Regex.plus (.char T.isDigit)) <|
        .seq (.char fun c => c == '.' || c == ')') (.char T.isSpace) ]

/-- `_is_clarification`. -/
def isClarification (T : CharTables) (response : String) : Bool :=
  if response.isEmpty then false
  else if (rstrip T response.toList).getLast? = some '?' then true
  else (clarificationRe T).search T response.toList

/-- The runs of lower-case letters in the lower-cased input. -/
def words (T : CharTables) (input : String) : List (List Char) :=
  Regex.findAll T (Regex.plus (charRange 'a' 'z')) (T.lower input.toList)

/-- The runs of lower-case letters and ampersands in the lower-cased input. -/
def tokens (T : CharTables) (input : String) : List (List Char) :=
  Regex.findAll T (Regex.plus (.alt (charRange 'a' 'z') (.char fun c => c == '&')))
    (T.lower input.toList)

/-- `is_blocked`. -/
def isBlocked (T : CharTables) (input : String) : Bool :=
  blockedKeywords.any fun kw => kw.toList ∈ words T input

/-- `_extract_tickers`. -/
def extractTickers (T : CharTables) (input : String) : List String :=
  ((tickerPattern.findAll T input.toList).map String.ofList).filter fun t => t ∉ commonWords

/-- `_merge_tickers`. -/
def mergeTickers (T : CharTables) (ctxTickers : List String) (input : String) : List String :=
  addTickers ctxTickers (extractTickers T input)

/-! ## Intents -/

/-- `score_intents`: the intents with at least one keyword in the lower-cased input, each with the
number of its keywords that occur. -/
def scoreIntents (T : CharTables) (query : String) : List (String × Nat) :=
  let lower := T.lower query.toList
  (intentMap.map fun (intent, keywords) =>
    (intent, keywords.countP fun kw => occursIn kw.toList lower)).filter fun (_, score) => 0 < score

/-- The first of the intents with the highest score. -/
def firstMax : List (String × Nat) → Option (String × Nat)
  | [] => none
  | entry :: rest =>
      some (rest.foldl (fun best e => if best.2 < e.2 then e else best) entry)

/-- `best_intent`. -/
def bestIntent (T : CharTables) (query : String) : Option String :=
  (firstMax (scoreIntents T query)).map Prod.fst

/-- `_build_clarification`. -/
def buildClarification (oldIntent newIntent : String) : String :=
  let label (intent : String) := (intentLabels.lookup intent).getD intent
  "I noticed your request could go in two directions. Which would you prefer?\n\n1. **" ++
    label newIntent ++ "**\n2. **" ++ label oldIntent ++
    "** (continuing current conversation)\n\n" ++
    "Reply with **1** or **2**, or rephrase your question to be more specific."

/-! ## The node -/

/-- The fields of the graph state that the routing nodes read and write. -/
structure AgentState where
  userInput : String
  intent : String := ""
  nextAgent : String := ""
  currentAgent : String := ""
  tickers : List String := []
  finalResponse : String := ""
  error : Option String := none
  deriving DecidableEq, Repr

/-- What answers a turn: the cached reply, the text of the follow-up detector and of the intent
classifier, and the response of the sub-agent after synthesis; each is absent when the lookup
misses or the call fails. -/
structure TurnReplies where
  cached : Option String := none
  followup : Option String := none
  classifier : Option String := none
  answer : Option String := none
  deriving DecidableEq, Repr

/-- `classify_followup`: whether the detector calls the input a follow-up. -/
def classifyFollowup (T : CharTables) (replies : TurnReplies) (ctx : ConversationContext) : Bool :=
  ctx.turnCount != 0 &&
    replies.followup.any fun text => occursIn "follow".toList (T.lower (strip T text.toList))

/-- The state that sends a follow-up to the last agent. -/
def reuseAgent (ctx : ConversationContext) (s : AgentState) (tickers : List String)
    (intent : String) : AgentState :=
  { s with tickers := tickers, nextAgent := ctx.lastAgent, intent := intent }

/-- `last_intent or "follow_up"`. -/
def lastIntentOr (ctx : ConversationContext) : String :=
  if ctx.lastIntent = "" then "follow_up" else ctx.lastIntent

/-- The follow-up branches, for a context with a last agent; `none` falls through to the relevance
check. -/
def followUp (T : CharTables) (replies : TurnReplies) (ctx : ConversationContext)
    (s : AgentState) : Option AgentState :=
  let merged := mergeTickers T ctx.tickersMentioned s.userInput
  match bestIntent T s.userInput with
  | none =>
      -- the last response asked back; a declined turn is never followed up here
      if ctx.lastAgent ≠ "decline" ∧ isClarification T ctx.lastResponse then
        some (reuseAgent ctx s merged (lastIntentOr ctx))
      -- a ticker in the input continues with the last agent
      else if tickerPattern.search T s.userInput.toList then
        some (reuseAgent ctx s merged (lastIntentOr ctx))
      else if classifyFollowup T replies ctx then
        some (reuseAgent ctx s ctx.tickersMentioned ctx.lastIntent)
      else none
  | some detected =>
      if detected = ctx.lastIntent then some (reuseAgent ctx s merged ctx.lastIntent)
      else
        let scores := scoreIntents T s.userInput
        let oldScore := (scores.lookup ctx.lastIntent).getD 0
        let newScore := (scores.lookup detected).getD 0
        -- both intents fit equally well, so the user is asked
        if 0 < oldScore ∧ oldScore = newScore then
          some { s with
            finalResponse := buildClarification ctx.lastIntent detected
            nextAgent := "cache_hit"
            currentAgent := "clarification" }
        else none

/-- The relevance check: a stock keyword, a ticker, or two weak keywords let the input through. -/
def financialRelevance (T : CharTables) (s : AgentState) : AgentState :=
  let toks := tokens T s.userInput
  let strong := stockKeywords.any fun kw => kw.toList ∈ toks
  let weak := extraFinancial.countP fun kw => kw.toList ∈ toks
  let tickers := extractTickers T s.userInput
  -- one weak keyword alone is not enough
  if strong || !tickers.isEmpty || decide (2 ≤ weak) then
    { s with tickers := tickers, nextAgent := "router" }
  else { s with nextAgent := "decline" }

/-- `guardrail`, with the context stored under the session id. -/
def guardrail (T : CharTables) (replies : TurnReplies) (ctx : Option ConversationContext)
    (s : AgentState) : AgentState :=
  match replies.cached.filter fun reply => reply != "" with
  | some reply =>
      { s with finalResponse := reply, nextAgent := "cache_hit", currentAgent := "cache" }
  | none =>
      -- the blocked words come before the context is looked up
      if isBlocked T s.userInput then { s with nextAgent := "decline", error := some "blocked" }
      else
        match ctx.filter fun c => c.lastAgent != "" with
        | none => financialRelevance T s
        | some c => (followUp T replies c s).getD (financialRelevance T s)

end AsetPlatform.Chat
