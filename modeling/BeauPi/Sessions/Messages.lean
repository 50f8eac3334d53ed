import BeauPi.Js.Text
import BeauPi.Llm.Types

/-!
# Messages of the coding agent

The message types that the coding agent adds to those of a provider, and how they are turned
into messages a provider understands.

* `AgentMessage` — every message of a session.
* `convertToLlm` — the messages sent to a model.
* `serializeConversation` — the text of a conversation in a summarization prompt.
-/

namespace BeauPi.Sessions

open Llm

/-! ## Types -/

/-- `BashExecutionMessage` -/
structure BashExecutionMessage where
  command : String
  output : String
  exitCode : Option Int
  cancelled : Bool
  truncated : Bool
  fullOutputPath : Option String
  timestamp : ℚ
  excludeFromContext : Bool
  deriving DecidableEq, Repr

/-- `CustomMessage`; a timestamp of `none` is `NaN`. -/
structure CustomMessage where
  customType : String
  content : Content
  display : Bool
  details : Option Json
  timestamp : Option ℚ
  deriving DecidableEq, Repr

/-- `BranchSummaryMessage` -/
structure BranchSummaryMessage where
  summary : String
  fromId : String
  timestamp : Option ℚ
  deriving DecidableEq, Repr

/-- `CompactionSummaryMessage` -/
structure CompactionSummaryMessage where
  summary : String
  tokensBefore : Nat
  timestamp : Option ℚ
  deriving DecidableEq, Repr

/-- `AgentMessage` -/
inductive AgentMessage
  | user (message : UserMessage)
  | assistant (message : AssistantMessage)
  | toolResult (message : ToolResultMessage)
  | bashExecution (message : BashExecutionMessage)
  | custom (message : CustomMessage)
  | branchSummary (message : BranchSummaryMessage)
  | compactionSummary (message : CompactionSummaryMessage)
  deriving DecidableEq, Repr

/-! ## Construction -/

/-- `createBranchSummaryMessage` -/
def createBranchSummaryMessage (summary fromId timestamp : String) : AgentMessage :=
  .branchSummary ⟨summary, fromId, Js.getTime timestamp⟩

/-- `createCompactionSummaryMessage` -/
def createCompactionSummaryMessage (summary : String) (tokensBefore : Nat) (timestamp : String) :
    AgentMessage :=
  .compactionSummary ⟨summary, tokensBefore, Js.getTime timestamp⟩

/-- `createCustomMessage` -/
def createCustomMessage (customType : String) (content : Content) (display : Bool)
    (details : Option Json) (timestamp : String) : AgentMessage :=
  .custom ⟨customType, content, display, details, Js.getTime timestamp⟩

/-- A message whose missing content is replaced by an empty one. -/
def AgentMessage.withContent : AgentMessage → AgentMessage
  | .user m => .user { m with content := some (m.content.getD (.blocks [])) }
  | .assistant m => .assistant { m with content := some (m.content.getD []) }
  | .toolResult m => .toolResult { m with content := some (m.content.getD []) }
  | m => m

/-- `message.role === "assistant"` -/
def AgentMessage.isAssistant : AgentMessage → Bool
  | .assistant _ => true
  | _ => false

/-- Is the message the summary of a compaction? -/
def AgentMessage.isCompactionSummary : AgentMessage → Bool
  | .compactionSummary _ => true
  | _ => false

/-! ## What a model sees -/

/-- `COMPACTION_SUMMARY_PREFIX` -/
def compactionSummaryPrefix : String :=
  "The conversation history before this point was compacted into the following summary:\n\n" ++
  "<summary>\n"

/-- `COMPACTION_SUMMARY_SUFFIX` -/
def compactionSummarySuffix : String := "\n</summary>"

/-- `BRANCH_SUMMARY_PREFIX` -/
def branchSummaryPrefix : String :=
  "The following is a summary of a branch that this conversation came back from:\n\n<summary>\n"

/-- `BRANCH_SUMMARY_SUFFIX` -/
def branchSummarySuffix : String := "</summary>"

/-- Three backticks. -/
def fence : String := String.ofList (List.replicate 3 (Char.ofNat 96))

/-- `bashExecutionToText` -/
def bashExecutionToText (m : BashExecutionMessage) : String :=
  let tick := String.ofList [Char.ofNat 96]
  let ran := "Ran " ++ tick ++ m.command ++ tick ++ "\n" ++
    (if m.output = "" then "(no output)" else fence ++ "\n" ++ m.output ++ "\n" ++ fence)
  let ended := if m.cancelled then "\n\n(command cancelled)"
    else match m.exitCode with
      | some code => if code ≠ 0 then "\n\nCommand exited with code " ++ toString code else ""
      | none => ""
  let truncated := match m.truncated, m.fullOutputPath with
    | true, some path =>
      if path = "" then "" else "\n\n[Output truncated. Full output: " ++ path ++ "]"
    | _, _ => ""
  ran ++ ended ++ truncated

/-- `Message` -/
inductive Message
  | user (message : UserMessage)
  | assistant (message : AssistantMessage)
  | toolResult (message : ToolResultMessage)
  deriving DecidableEq, Repr

/-- A user message that holds one text; its time does not reach a prompt's text. -/
def userText (text : String) (timestamp : Option ℚ) : Message :=
  .user ⟨some (.blocks [.text text]), timestamp.getD 0⟩

/-- One message of `convertToLlm`. -/
def messageToLlm : AgentMessage → Option Message
  | .bashExecution m =>
    if m.excludeFromContext then none
    else some (userText (bashExecutionToText m) (some m.timestamp))
  | .custom m =>
    match m.content with
    | .str text => some (userText text m.timestamp)
    | .blocks blocks => some (.user ⟨some (.blocks blocks), m.timestamp.getD 0⟩)
  | .branchSummary m =>
    some (userText (branchSummaryPrefix ++ m.summary ++ branchSummarySuffix) m.timestamp)
  | .compactionSummary m =>
    some (userText (compactionSummaryPrefix ++ m.summary ++ compactionSummarySuffix) m.timestamp)
  | .user m => some (.user m)
  | .assistant m => some (.assistant m)
  | .toolResult m => some (.toolResult m)

/-- `convertToLlm` -/
def convertToLlm (messages : List AgentMessage) : List Message := messages.filterMap messageToLlm

/-! ## The text of a conversation -/

/-- `TOOL_RESULT_MAX_CHARS` -/
def toolResultMaxChars : Nat := 2000

/-- `truncateForSummary` -/
def truncateForSummary (text : String) (maxChars : Nat) : String :=
  if Js.utf16Length text ≤ maxChars then text
  else Js.sliceTo maxChars text ++ "\n\n[... " ++ toString (Js.utf16Length text - maxChars) ++
    " more characters truncated]"

/-- One tool call: `name(key=value, ...)`. -/
def callText (call : ToolCall) : String :=
  call.name ++ "(" ++
    join ", " (call.arguments.map fun field => field.1 ++ "=" ++ field.2.stringify) ++ ")"

/-- The thoughts of an assistant message. -/
def thinkingTexts (blocks : List AssistantBlock) : List String :=
  blocks.filterMap fun
    | .thinking thinking => some thinking
    | _ => none

/-- The parts of the conversation text that a message contributes. -/
def messageParts : Message → List String
  | .user m =>
    let content := contentText "" (m.content.getD (.blocks []))
    if content = "" then [] else ["[User]: " ++ content]
  | .assistant m =>
    let blocks := m.content.getD []
    let thinking := thinkingTexts blocks
    let calls := m.toolCalls
    (if thinking = [] then [] else ["[Assistant thinking]: " ++ join "\n" thinking]) ++
      (if blocks.any (·.text?.isSome) then ["[Assistant]: " ++ assistantText blocks] else []) ++
      (if calls = [] then []
        else ["[Assistant tool calls]: " ++ join "; " (calls.map callText)])
  | .toolResult m =>
    let content := contentText "" (.blocks (m.content.getD []))
    if content = "" then []
    else ["[Tool result]: " ++ truncateForSummary content toolResultMaxChars]

/-- `serializeConversation` -/
def serializeConversation (messages : List Message) : String :=
  join "\n\n" (messages.flatMap messageParts)

end BeauPi.Sessions
