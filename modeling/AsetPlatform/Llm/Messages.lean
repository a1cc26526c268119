import Mathlib.Algebra.GroupWithZero.Nat
import AsetPlatform.Library.Text

/-!
# Chat messages

The LangChain message classes the backend passes around, with the fields it reads. Message content
is a string or a list of content blocks. `ref` tells the messages of a conversation apart; a copy
made of a message, shortened or rephrased, keeps it.
-/

set_option autoImplicit false

namespace AsetPlatform.Llm

open AsetPlatform.Library

/-- Message content: a string, or the blocks a provider returns instead of one, each as printed. -/
inductive Content where
  | text (s : String)
  | blocks (bs : List String)
  deriving DecidableEq, Repr

/-- Truth value of a content: the empty string and the empty list are false. -/
def Content.truthy : Content → Bool
  | .text s => s.length != 0
  | .blocks bs => !bs.isEmpty

/-- Length of a string content; block lists are not measured. -/
def Content.chars : Content → Nat
  | .text s => s.length
  | .blocks _ => 0

/-- A content inserted in a text. -/
def Content.printed : Content → String
  | .text s => s
  | .blocks bs => "[" ++ String.intercalate ", " bs ++ "]"

/-- A tool call of an assistant message; `args` is the printed argument dictionary. -/
structure ToolCall where
  name : String
  id : String
  args : String
  deriving DecidableEq, Repr

/-- The four message classes. -/
inductive MsgKind where
  | system
  | human
  | ai (toolCalls : List ToolCall)
  | tool (toolCallId : String) (name : Option String)
  deriving DecidableEq, Repr

structure Message where
  ref : Nat
  kind : MsgKind
  content : Content
  deriving DecidableEq, Repr

namespace Message

def isSystem (m : Message) : Bool :=
  match m.kind with
  | .system => true
  | _ => false

def isHuman (m : Message) : Bool :=
  match m.kind with
  | .human => true
  | _ => false

def isAI (m : Message) : Bool :=
  match m.kind with
  | .ai _ => true
  | _ => false

def isTool (m : Message) : Bool :=
  match m.kind with
  | .tool _ _ => true
  | _ => false

/-- The tool calls of an assistant message, none for the other classes. -/
def toolCalls (m : Message) : List ToolCall :=
  match m.kind with
  | .ai calls => calls
  | _ => []

end Message

/-- Characters of a message counted by the token estimate. -/
def messageChars (m : Message) : Nat :=
  m.content.chars + (m.toolCalls.map fun tc => tc.args.length).sum

/-- `TokenBudget.estimate_tokens`: a quarter of the characters with a margin of 20 percent, both
rounded down. -/
def estimateTokens (messages : List Message) : Nat :=
  let totalChars := (messages.map messageChars).sum
  let raw := totalChars / 4
  raw * 6 / 5

end AsetPlatform.Llm
