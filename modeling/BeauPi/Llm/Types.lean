import BeauPi.Js.Json
import BeauPi.Js.Text

/-!
# Messages of a conversation with a model

The message types that the agent, the session files and compaction share.

* `Usage` — token counts and costs of one response.
* `UserMessage`, `AssistantMessage`, `ToolResultMessage` — the messages a provider sees.
* `contentText` — the text of a message's content.
-/

namespace BeauPi.Llm

/-! ## Content -/

/-- `TextContent | ImageContent` -/
inductive ContentBlock
  | text (text : String)
  | image (data mimeType : String)
  deriving DecidableEq, Repr

/-- `string | (TextContent | ImageContent)[]` -/
inductive Content
  | str (text : String)
  | blocks (blocks : List ContentBlock)
  deriving DecidableEq, Repr

/-- `ToolCall` -/
structure ToolCall where
  id : String
  name : String
  arguments : List (String × Json)
  deriving DecidableEq, Repr

/-- `TextContent | ThinkingContent | ToolCall` -/
inductive AssistantBlock
  | text (text : String)
  | thinking (thinking : String)
  | toolCall (call : ToolCall)
  deriving DecidableEq, Repr

/-- `separator`-joined texts. -/
def join (separator : String) (texts : List String) : String := separator.intercalate texts

/-- The text of a block, if it is a text block. -/
def ContentBlock.text? : ContentBlock → Option String
  | .text value => some value
  | .image _ _ => none

/-- The text of a block, if it is a text block. -/
def AssistantBlock.text? : AssistantBlock → Option String
  | .text value => some value
  | .thinking _ => none
  | .toolCall _ => none

/-- The tool call of a block, if it is one. -/
def AssistantBlock.toolCall? : AssistantBlock → Option ToolCall
  | .toolCall call => some call
  | .text _ => none
  | .thinking _ => none

/-- `contentText` -/
def contentText (separator : String) : Content → String
  | .str text => text
  | .blocks blocks => join separator (blocks.filterMap (·.text?))

/-- `contentText` of an assistant message, with its default separator. -/
def assistantText (blocks : List AssistantBlock) : String :=
  join "\n" (blocks.filterMap (·.text?))

/-! ## Usage -/

/-- `Usage["cost"]` -/
structure UsageCost where
  input : ℚ
  output : ℚ
  cacheRead : ℚ
  cacheWrite : ℚ
  total : ℚ
  deriving DecidableEq, Repr

/-- `Usage` -/
structure Usage where
  input : Nat
  output : Nat
  cacheRead : Nat
  cacheWrite : Nat
  cacheWrite1h : Option Nat
  reasoning : Option Nat
  totalTokens : Nat
  cost : UsageCost
  deriving DecidableEq, Repr

/-- No usage at all. -/
def Usage.zero : Usage := ⟨0, 0, 0, 0, none, none, 0, ⟨0, 0, 0, 0, 0⟩⟩

/-! ## Messages -/

/-- `StopReason` -/
inductive StopReason
  | pending
  | stop
  | length
  | toolUse
  | error
  | aborted
  deriving DecidableEq, Repr

/-- `UserMessage`; the content of a message from an old file may be `null`. -/
structure UserMessage where
  content : Option Content
  timestamp : ℚ
  deriving DecidableEq, Repr

/-- `AssistantMessage` -/
structure AssistantMessage where
  content : Option (List AssistantBlock)
  provider : String
  model : String
  usage : Usage
  stopReason : StopReason
  errorMessage : Option String
  timestamp : ℚ
  deriving DecidableEq, Repr

/-- The tool calls of an assistant message, in order. -/
def AssistantMessage.toolCalls (message : AssistantMessage) : List ToolCall :=
  (message.content.getD []).filterMap (·.toolCall?)

/-- `ToolResultError` -/
structure ToolResultError where
  type : String
  message : String
  recoverable : Bool
  deriving DecidableEq, Repr

/-- `ToolResultMeta` -/
structure ToolResultMeta where
  durationMs : Option ℚ
  truncated : Option Bool
  changedState : Option Bool
  exitCode : Option Int
  deriving DecidableEq, Repr

/-- `ToolResultMessage` -/
structure ToolResultMessage where
  toolCallId : String
  toolName : String
  content : Option (List ContentBlock)
  details : Option Json
  usage : Option Usage
  addedToolNames : Option (List String)
  isError : Bool
  error : Option ToolResultError
  resultMeta : Option ToolResultMeta
  timestamp : ℚ
  deriving DecidableEq, Repr

end BeauPi.Llm
