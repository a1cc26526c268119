import AsetPlatform.Library.Segments
import AsetPlatform.Llm.Messages
import Mathlib.Data.Rat.Floor

/-!
# Message compression

`backend/message_compressor.py`: `compress` condenses the system prompt from the second iteration
on, keeps the last turns of the history before the loop boundary, cuts long tool results, and, with
a token target, repeats the last two stages with tighter limits until the estimate fits.

The condensed prompt of a prompt without structured lines is a share of it; for the share `0.4` the
product with a length is rounded down alike over the rationals and over doubles.
-/

set_option autoImplicit false

namespace AsetPlatform.Llm

open AsetPlatform.Library

/-- `MessageCompressor`. A negative limit of the configuration is 0 here: both keep no turn. -/
structure MessageCompressor where
  maxHistory : Nat := 3
  maxToolChars : Nat := 4000
  condensedRatio : ℚ := 2 / 5

namespace MessageCompressor

/-! ## Stage 1: the system prompt -/

/-- `_KEEP_PATTERNS`: the lines kept in a condensed prompt. -/
def keepPatterns (T : CharTables) : Regex :=
  let upperCase := Regex.char fun c => 'A' ≤ c && c ≤ 'Z'
  let literal (s : String) := Regex.literal (fun a b => a == b) s.toList
  .seq (.star (.char T.isSpace)) <| Regex.oneOf
    [ .seq (Regex.plus (.char T.isDigit)) (.char fun c => c == '.'),
      .char fun c => c == '-' || c == '•',
      .seq upperCase (Regex.plus upperCase),
      literal "You are", literal "STANDARD", literal "COMPARISON", literal "RULES" ]

/-- The lines kept: those of the patterns, and one empty line after a kept line for the blank lines
that follow it. `kept` is in reverse. -/
def keptLines (T : CharTables) (kept : List (List Char)) : List (List Char) → List (List Char)
  | [] => kept.reverse
  | line :: rest =>
      if (keepPatterns T).matchHead T line then keptLines T (line :: kept) rest
      else if (strip T line).isEmpty && kept.head?.any (fun l => !(strip T l).isEmpty) then
        keptLines T ([] :: kept) rest
      else keptLines T kept rest

def condensedText (c : MessageCompressor) (T : CharTables) (original : List Char) : List Char :=
  let condensed := strip T (joinLines (keptLines T [] (splitLines original)))
  -- nothing was kept: the start of the prompt, up to its last full line
  if condensed.isEmpty then
    beforeLastLine (original.take ⌊(original.length : ℚ) * c.condensedRatio⌋₊)
  else condensed

/-- `_condense_system_prompt`. Splitting a content of several blocks raises `AttributeError`. -/
def condenseSystemPrompt (c : MessageCompressor) (T : CharTables) :
    List Message → Except String (List Message)
  | [] => .ok []
  | m :: rest =>
      if m.isSystem then
        match m.content with
        | .text original =>
            .ok ({ m with content := .text (String.ofList (c.condensedText T original.toList)) } ::
              rest)
        | .blocks bs =>
            if bs.isEmpty then
              .ok ({ m with content := .text (String.ofList (c.condensedText T [])) } :: rest)
            else .error "'list' object has no attribute 'split'"
      else .ok (m :: rest)

/-! ## Stage 2: the history -/

/-- `_find_loop_boundary`: the position of the human message that starts the current request. -/
def findLoopBoundary (messages : List Message) : Nat :=
  let humanIdxs := indicesFrom Message.isHuman 0 messages
  let toolIdxs := indicesFrom Message.isTool 0 messages
  match humanIdxs.reverse with
  | [] => 0
  | lastHuman :: earlier =>
      -- tool results after the last human message belong to its request
      if lastHuman = 0 then 0
      else if toolIdxs.any (fun t => lastHuman < t) then lastHuman
      else
        match earlier with
        | [] => lastHuman
        -- a human message added after the tool results, as the synthesis does
        | prevHuman :: _ =>
            if toolIdxs.any (fun t => prevHuman < t) then prevHuman else lastHuman

/-- `_truncate_history`: the leading system messages, the last turns before the boundary, and
everything from the boundary on. -/
def truncateHistory (messages : List Message) (maxTurns : Nat) : List Message :=
  let boundary := findLoopBoundary messages
  if boundary = 0 then messages
  else
    let before := messages.take boundary
    let history := before.dropWhile Message.isSystem
    let turns := chunksFrom Message.isAI [] history
    -- `turns[-max_turns:]` would keep all turns for 0
    let keptTurns := if 0 < maxTurns then turns.drop (turns.length - maxTurns) else []
    before.takeWhile Message.isSystem ++ keptTurns.flatten ++ messages.drop boundary

/-! ## Stage 3: the tool results -/

/-- A tool result cut to `maxChars` characters and a note of how many were left out. The copy has no
tool name. -/
def truncateToolResult (maxChars : Nat) (m : Message) : Message :=
  match m.kind, m.content with
  | .tool toolCallId _, .text s =>
      if maxChars < s.length then
        { m with
          kind := .tool toolCallId none
          content := .text (String.ofList (s.toList.take maxChars) ++ "\n... [truncated " ++
            toString (s.length - maxChars) ++ " chars]") }
      else m
  | _, _ => m

/-- `_truncate_tool_results`. -/
def truncateToolResults (messages : List Message) (maxChars : Nat) : List Message :=
  messages.map (truncateToolResult maxChars)

/-! ## The stages together -/

/-- The second and the third stage with the given limits. -/
def truncate (messages : List Message) (maxTurns maxChars : Nat) : List Message :=
  truncateToolResults (truncateHistory messages maxTurns) maxChars

/-- `_progressive_compress`. -/
def progressiveCompress (messages : List Message) (targetTokens : Nat) : List Message :=
  if estimateTokens messages ≤ targetTokens then messages
  else
    -- two passes, each on the result of the one before
    let result := truncate messages 1 2500
    if estimateTokens result ≤ targetTokens then result
    else truncate result 0 1500

/-- The list is well under the target: the estimate is below half of it. -/
def wellUnder (messages : List Message) (targetTokens : Option Nat) : Bool :=
  targetTokens.any fun target => 2 * estimateTokens messages < target

def defaultStages (c : MessageCompressor) (T : CharTables) (messages : List Message)
    (iteration : Nat) : Except String (List Message) := do
  let result ← if 1 < iteration then c.condenseSystemPrompt T messages else pure messages
  return truncate result c.maxHistory c.maxToolChars

/-- `compress`. -/
def compress (c : MessageCompressor) (T : CharTables) (messages : List Message) (iteration : Nat)
    (targetTokens : Option Nat) : Except String (List Message) :=
  if wellUnder messages targetTokens then .ok messages
  else do
    let result ← c.defaultStages T messages iteration
    match targetTokens with
    | none => return result
    | some target => return progressiveCompress result target

end MessageCompressor

end AsetPlatform.Llm
