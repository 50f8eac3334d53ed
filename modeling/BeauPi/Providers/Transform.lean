import BeauPi.Llm.Types
import BeauPi.Machine.OrderedMap

/-!
# Histories for another model

`transformMessages`: what a provider is sent of the messages of a session, whatever models wrote
them.

* `AssistantMessage`, `Message` — messages with the fields that the transformation reads.
* `downgradeUnsupportedImages` — images for a model that takes none.
* `transformFrom` — the first pass, which rewrites ids by one map for the whole history.
* `insertSyntheticToolResults`, `Pass.step` — the second pass, which answers the open calls.
-/

namespace BeauPi.Providers

open Llm Machine

/-! ## Messages -/

/-- `ToolCall` -/
structure ToolCall where
  id : String
  name : String
  arguments : List (String × Json)
  thoughtSignature : Option String
  deriving DecidableEq, Repr

/-- `TextContent | ThinkingContent | ToolCall` -/
inductive AssistantBlock
  | text (text : String) (textSignature : Option String)
  | thinking (thinking : String) (thinkingSignature : Option String) (redacted : Bool)
  | toolCall (call : ToolCall)
  deriving DecidableEq, Repr

/-- `AssistantMessage`; the content of a message from an old file may be `null`. -/
structure AssistantMessage where
  content : Option (List AssistantBlock)
  api : String
  provider : String
  model : String
  usage : Usage
  stopReason : StopReason
  errorMessage : Option String
  timestamp : ℚ
  deriving DecidableEq, Repr

/-- `Message` -/
inductive Message
  | user (message : UserMessage)
  | assistant (message : AssistantMessage)
  | toolResult (message : ToolResultMessage)
  deriving DecidableEq, Repr

/-- The fields of a `Model` that the transformation reads. -/
structure Model where
  id : String
  provider : String
  api : String
  input : List String
  deriving DecidableEq, Repr

/-- `normalizeToolCallId`, for one model; it is given the id and the source. -/
abbrev Normalizer := String → AssistantMessage → String

/-- The call of a block. -/
def AssistantBlock.toolCall? : AssistantBlock → Option ToolCall
  | .toolCall call => some call
  | _ => none

/-- `content.filter((b) => b.type === "toolCall")` -/
def AssistantMessage.toolCalls (m : AssistantMessage) : List ToolCall :=
  (m.content.getD []).filterMap (·.toolCall?)

/-- `stopReason === "error" || stopReason === "aborted"` -/
def AssistantMessage.failed (m : AssistantMessage) : Bool :=
  m.stopReason = .error || m.stopReason = .aborted

/-! ## Images -/

/-- `NON_VISION_USER_IMAGE_PLACEHOLDER` -/
def nonVisionUserImagePlaceholder : String := "(image omitted: model does not support images)"

/-- `NON_VISION_TOOL_IMAGE_PLACEHOLDER` -/
def nonVisionToolImagePlaceholder : String := "(tool image omitted: model does not support images)"

/-- The loop of `replaceImagesWithPlaceholder`. -/
def replaceImages (placeholder : String) (previousWasPlaceholder : Bool) :
    List ContentBlock → List ContentBlock
  | [] => []
  | .image _ _ :: rest =>
    if previousWasPlaceholder then replaceImages placeholder true rest
    else .text placeholder :: replaceImages placeholder true rest
  | .text text :: rest =>
    .text text :: replaceImages placeholder (decide (text = placeholder)) rest

/-- `replaceImagesWithPlaceholder` -/
def replaceImagesWithPlaceholder (content : List ContentBlock) (placeholder : String) :
    List ContentBlock :=
  replaceImages placeholder false content

/-- `msg.content == null ? { ...msg, content: [] } : msg` -/
def normalizeContent : Message → Message
  | .user m => .user { m with content := some (m.content.getD (.blocks [])) }
  | .assistant m => .assistant { m with content := some (m.content.getD []) }
  | .toolResult m => .toolResult { m with content := some (m.content.getD []) }

/-- Does the model take images? -/
def Model.takesImages (model : Model) : Bool := model.input.contains "image"

/-- `downgradeUnsupportedImages`, for one message. -/
def downgradeUnsupportedImages (model : Model) (msg : Message) : Message :=
  if model.takesImages then msg
  else
    match msg with
    | .user m =>
      match m.content with
      | some (.blocks blocks) =>
        let content := replaceImagesWithPlaceholder blocks nonVisionUserImagePlaceholder
        .user { m with content := some (.blocks content) }
      | _ => .user m
    | .toolResult m =>
      let content :=
        replaceImagesWithPlaceholder (m.content.getD []) nonVisionToolImagePlaceholder
      .toolResult { m with content := some content }
    | .assistant m => .assistant m

/-- `imageAwareMessages` -/
def imageAwareMessages (model : Model) (messages : List Message) : List Message :=
  messages.map fun msg => downgradeUnsupportedImages model (normalizeContent msg)

/-! ## First pass -/

/-- `toolCallIdMap` -/
abbrev IdMap := OrderedMap String String

/-- `isSameModel` -/
def isSameModel (model : Model) (m : AssistantMessage) : Bool :=
  m.provider = model.provider && m.api = model.api && m.model = model.id

/-- `value && …`, on a text that may be missing. -/
def isTruthy (value : Option String) : Bool := value.getD "" ≠ ""

/-- What becomes of a tool call. -/
def transformCall (model : Model) (normalize : Option Normalizer) (source : AssistantMessage)
    (ids : IdMap) (call : ToolCall) : ToolCall × IdMap :=
  let normalized := if !isSameModel model source && isTruthy call.thoughtSignature then
    { call with thoughtSignature := none } else call
  match normalize with
  | none => (normalized, ids)
  | some normalizeToolCallId =>
    if isSameModel model source then (normalized, ids)
    else
      let normalizedId := normalizeToolCallId call.id source
      if normalizedId ≠ call.id then
        ({ normalized with id := normalizedId }, ids.set call.id normalizedId)
      else (normalized, ids)

/-- What becomes of a thinking block. -/
def transformThinking (same : Bool) (thinking : String) (thinkingSignature : Option String)
    (redacted : Bool) : Option AssistantBlock :=
  let block := AssistantBlock.thinking thinking thinkingSignature redacted
  if redacted then (if same then some block else none)
  else if same && isTruthy thinkingSignature then some block
  else if Js.trim thinking = "" then none
  else if same then some block
  else some (.text thinking none)

/-- `assistantMsg.content.flatMap(...)` -/
def transformBlocks (model : Model) (normalize : Option Normalizer) (source : AssistantMessage)
    (ids : IdMap) : List AssistantBlock → List AssistantBlock × IdMap
  | [] => ([], ids)
  | .thinking thinking signature redacted :: rest =>
    let (rest, ids) := transformBlocks model normalize source ids rest
    ((transformThinking (isSameModel model source) thinking signature redacted).toList ++ rest, ids)
  | .text text signature :: rest =>
    let (rest, ids) := transformBlocks model normalize source ids rest
    (.text text (if isSameModel model source then signature else none) :: rest, ids)
  | .toolCall call :: rest =>
    let (call, ids) := transformCall model normalize source ids call
    let (rest, ids) := transformBlocks model normalize source ids rest
    (.toolCall call :: rest, ids)

/-- The id that a result gets. -/
def rewrittenResultId (ids : IdMap) (toolCallId : String) : String :=
  match ids.get? toolCallId with
  | some normalizedId =>
    if normalizedId ≠ "" ∧ normalizedId ≠ toolCallId then normalizedId else toolCallId
  | none => toolCallId

/-- The first pass over one message. -/
def transformMessage (model : Model) (normalize : Option Normalizer) (ids : IdMap) :
    Message → Message × IdMap
  | .user m => (.user m, ids)
  | .toolResult m => (.toolResult { m with toolCallId := rewrittenResultId ids m.toolCallId }, ids)
  | .assistant m =>
    let (content, ids) := transformBlocks model normalize m ids (m.content.getD [])
    (.assistant { m with content := some content }, ids)

/-- The first pass. -/
def transformFrom (model : Model) (normalize : Option Normalizer) (ids : IdMap) :
    List Message → List Message
  | [] => []
  | msg :: rest =>
    let (msg, ids) := transformMessage model normalize ids msg
    msg :: transformFrom model normalize ids rest

/-! ## Second pass -/

/-- `result`, `pendingToolCalls` and `existingToolResultIds`. -/
structure Pass where
  result : List Message
  pendingToolCalls : List ToolCall
  existingToolResultIds : List String

/-- A result for a call that has none. -/
def noResult (now : ℚ) (call : ToolCall) : ToolResultMessage where
  toolCallId := call.id
  toolName := call.name
  content := some [.text "No result provided"]
  details := none
  usage := none
  addedToolNames := none
  isError := true
  error := none
  resultMeta := none
  timestamp := now

/-- One turn of the loop of `insertSyntheticToolResults`; `clock` is `Date.now()` when the list has
this length. -/
def pushSynthetic (clock : Nat → ℚ) (existing : List String) (result : List Message)
    (call : ToolCall) : List Message :=
  if existing.contains call.id then result
  else result ++ [.toolResult (noResult (clock result.length) call)]

/-- `insertSyntheticToolResults` -/
def insertSyntheticToolResults (clock : Nat → ℚ) (pass : Pass) : Pass :=
  if pass.pendingToolCalls = [] then pass
  else ⟨pass.pendingToolCalls.foldl (pushSynthetic clock pass.existingToolResultIds) pass.result,
    [], []⟩

/-- The second pass over one message. -/
def Pass.step (clock : Nat → ℚ) (pass : Pass) : Message → Pass
  | .assistant m =>
    let pass := insertSyntheticToolResults clock pass
    if m.failed then pass
    else
      let toolCalls := m.toolCalls
      let pass := if toolCalls = [] then pass else
        { pass with pendingToolCalls := toolCalls, existingToolResultIds := [] }
      { pass with result := pass.result ++ [.assistant m] }
  | .toolResult m =>
    { pass with
      existingToolResultIds := pass.existingToolResultIds ++ [m.toolCallId]
      result := pass.result ++ [.toolResult m] }
  | .user m =>
    let pass := insertSyntheticToolResults clock pass
    { pass with result := pass.result ++ [.user m] }

/-- `transformMessages` -/
def transformMessages (clock : Nat → ℚ) (messages : List Message) (model : Model)
    (normalize : Option Normalizer) : List Message :=
  let transformed := transformFrom model normalize .empty (imageAwareMessages model messages)
  (insertSyntheticToolResults clock (transformed.foldl (Pass.step clock) ⟨[], [], []⟩)).result

end BeauPi.Providers
