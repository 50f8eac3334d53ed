import BeauPi.Compaction.Prepare

/-!
# Making a compaction

* `compact` — the calls of the summarizer and the compaction made from its answers.
* `CompactionResult.toData` — the entry appended for it.
-/

namespace BeauPi.Compaction

open Llm Sessions Machine

/-! ## Prompts -/

/-- `SUMMARIZATION_PROMPT` -/
def summarizationPrompt : String :=
  "The messages above are a conversation to summarize. Create a structured context " ++
    "checkpoint summary that another LLM will use to continue the work.\n" ++
    "\n" ++
    "Use this EXACT format:\n" ++
    "\n" ++
    "## Goal\n" ++
    "[What is the user trying to accomplish? Can be multiple items if the session covers " ++
    "different tasks.]\n" ++
    "\n" ++
    "## Constraints & Preferences\n" ++
    "- [Any constraints, preferences, or requirements mentioned by user]\n" ++
    "- [Or \"(none)\" if none were mentioned]\n" ++
    "\n" ++
    "## Progress\n" ++
    "### Done\n" ++
    "- [x] [Completed tasks/changes]\n" ++
    "\n" ++
    "### In Progress\n" ++
    "- [ ] [Current work]\n" ++
    "\n" ++
    "### Blocked\n" ++
    "- [Issues preventing progress, if any]\n" ++
    "\n" ++
    "## Key Decisions\n" ++
    "- **[Decision]**: [Brief rationale]\n" ++
    "\n" ++
    "## Next Steps\n" ++
    "1. [Ordered list of what should happen next]\n" ++
    "\n" ++
    "## Critical Context\n" ++
    "- [Any data, examples, or references needed to continue]\n" ++
    "- [Or \"(none)\" if not applicable]\n" ++
    "\n" ++
    "Keep each section concise. Preserve exact file paths, function names, and error " ++
    "messages."

/-- `UPDATE_SUMMARIZATION_PROMPT` -/
def updateSummarizationPrompt : String :=
  "The messages above are NEW conversation messages to incorporate into the existing " ++
    "summary provided in <previous-summary> tags.\n" ++
    "\n" ++
    "Update the existing structured summary with new information. RULES:\n" ++
    "- PRESERVE all existing information from the previous summary\n" ++
    "- ADD new progress, decisions, and context from the new messages\n" ++
    "- UPDATE the Progress section: move items from \"In Progress\" to \"Done\" when " ++
    "completed\n" ++
    "- UPDATE \"Next Steps\" based on what was accomplished\n" ++
    "- PRESERVE exact file paths, function names, and error messages\n" ++
    "- If something is no longer relevant, you may remove it\n" ++
    "\n" ++
    "Use this EXACT format:\n" ++
    "\n" ++
    "## Goal\n" ++
    "[Preserve existing goals, add new ones if the task expanded]\n" ++
    "\n" ++
    "## Constraints & Preferences\n" ++
    "- [Preserve existing, add new ones discovered]\n" ++
    "\n" ++
    "## Progress\n" ++
    "### Done\n" ++
    "- [x] [Include previously done items AND newly completed items]\n" ++
    "\n" ++
    "### In Progress\n" ++
    "- [ ] [Current work - update based on progress]\n" ++
    "\n" ++
    "### Blocked\n" ++
    "- [Current blockers - remove if resolved]\n" ++
    "\n" ++
    "## Key Decisions\n" ++
    "- **[Decision]**: [Brief rationale] (preserve all previous, add new)\n" ++
    "\n" ++
    "## Next Steps\n" ++
    "1. [Update based on current state]\n" ++
    "\n" ++
    "## Critical Context\n" ++
    "- [Preserve important context, add new if needed]\n" ++
    "\n" ++
    "Keep each section concise. Preserve exact file paths, function names, and error " ++
    "messages."

/-- `TURN_PREFIX_SUMMARIZATION_PROMPT` -/
def turnPrefixSummarizationPrompt : String :=
  "This is the PREFIX of a turn that was too large to keep. The SUFFIX (recent work) is " ++
    "retained.\n" ++
    "\n" ++
    "Summarize the prefix to provide context for the retained suffix:\n" ++
    "\n" ++
    "## Original Request\n" ++
    "[What did the user ask for in this turn?]\n" ++
    "\n" ++
    "## Early Progress\n" ++
    "- [Key decisions and work done in the prefix]\n" ++
    "\n" ++
    "## Context for Suffix\n" ++
    "- [Information needed to understand the retained recent work]\n" ++
    "\n" ++
    "Be concise. Focus on what's needed to understand the kept suffix."

/-- The conversation in its tags. -/
def conversationText (messages : List AgentMessage) : String :=
  "<conversation>\n" ++ serializeConversation (convertToLlm messages) ++ "\n</conversation>\n\n"

/-- The prompt text of `generateSummaryWithUsage`. -/
def summaryPrompt (messages : List AgentMessage)
    (customInstructions previousSummary : Option String) : String :=
  let previous := previousSummary.getD ""
  let custom := customInstructions.getD ""
  let basePrompt := if previous = "" then summarizationPrompt else updateSummarizationPrompt
  let basePrompt := if custom = "" then basePrompt
    else basePrompt ++ "\n\nAdditional focus: " ++ custom
  conversationText messages ++
    (if previous = "" then ""
      else "<previous-summary>\n" ++ previous ++ "\n</previous-summary>\n\n") ++ basePrompt

/-- The prompt text of `generateTurnPrefixSummary`. -/
def turnPrefixPrompt (messages : List AgentMessage) : String :=
  conversationText messages ++ turnPrefixSummarizationPrompt

/-! ## File lists -/

/-- The UTF-16 code units of a character. -/
def utf16Units (c : Char) : List Nat :=
  if c.toNat < 0x10000 then [c.toNat]
  else [0xd800 + (c.toNat - 0x10000) / 0x400, 0xdc00 + (c.toNat - 0x10000) % 0x400]

/-- The order of `Array.prototype.sort` on texts. -/
def textLe (a b : String) : Bool :=
  decide (a.toList.flatMap utf16Units ≤ b.toList.flatMap utf16Units)

/-- `Array.prototype.sort` without a comparison. -/
def sortTexts (texts : List String) : List String := texts.mergeSort textLe

/-- `CompactionDetails` -/
structure CompactionDetails where
  readFiles : List String
  modifiedFiles : List String
  deriving DecidableEq, Repr

/-- The details as a JSON value. -/
def CompactionDetails.toJson (details : CompactionDetails) : Json :=
  .obj [("readFiles", Json.strings details.readFiles),
    ("modifiedFiles", Json.strings details.modifiedFiles)]

/-- `computeFileLists` -/
def computeFileLists (fileOps : FileOperations) : CompactionDetails :=
  let modified := (fileOps.edited ++ fileOps.written).foldl addTo []
  { readFiles := sortTexts (fileOps.read.filter fun f => !modified.contains f)
    modifiedFiles := sortTexts modified }

/-- `formatFileOperations` -/
def formatFileOperations (details : CompactionDetails) : String :=
  let sections :=
    (if details.readFiles = [] then []
      else ["<read-files>\n" ++ join "\n" details.readFiles ++ "\n</read-files>"]) ++
    (if details.modifiedFiles = [] then []
      else ["<modified-files>\n" ++ join "\n" details.modifiedFiles ++ "\n</modified-files>"])
  if sections = [] then "" else "\n\n" ++ join "\n\n" sections

/-! ## Usage -/

/-- The sum of two optional counts. -/
def addOptional : Option Nat → Option Nat → Option Nat
  | none, none => none
  | first, second => some (first.getD 0 + second.getD 0)

/-- `combineUsage` -/
def combineUsage (first second : Usage) : Usage where
  input := first.input + second.input
  output := first.output + second.output
  cacheRead := first.cacheRead + second.cacheRead
  cacheWrite := first.cacheWrite + second.cacheWrite
  cacheWrite1h := addOptional first.cacheWrite1h second.cacheWrite1h
  reasoning := addOptional first.reasoning second.reasoning
  totalTokens := first.totalTokens + second.totalTokens
  cost := {
    input := first.cost.input + second.cost.input
    output := first.cost.output + second.cost.output
    cacheRead := first.cost.cacheRead + second.cost.cacheRead
    cacheWrite := first.cost.cacheWrite + second.cost.cacheWrite
    total := first.cost.total + second.cost.total }

/-! ## The compaction -/

/-- `CompactionResult` -/
structure CompactionResult where
  summary : String
  firstKeptEntryId : String
  tokensBefore : Nat
  usage : Usage
  details : CompactionDetails
  deriving DecidableEq, Repr

/-- The fields of the entry that is appended for a result of this program. -/
def CompactionResult.toData (result : CompactionResult) : CompactionData where
  summary := result.summary
  firstKeptEntryId := result.firstKeptEntryId
  tokensBefore := result.tokensBefore
  details := some result.details.toJson
  usage := some result.usage
  fromHook := some false

/-- The answer of the summarizer: its text and usage, or the error it is thrown for. -/
def answer (failure : String) (response : AssistantMessage) : Except String (String × Usage) :=
  if response.stopReason = .error then
    let message := response.errorMessage.getD ""
    .error (failure ++ ": " ++ if message = "" then "Unknown error" else message)
  else .ok (assistantText (response.content.getD []), response.usage)

/-- `generateSummaryWithUsage` and the prompt it sends. -/
def generateSummaryWithUsage (summarizer : String → AssistantMessage)
    (messages : List AgentMessage) (customInstructions previousSummary : Option String) :
    String × Except String (String × Usage) :=
  let prompt := summaryPrompt messages customInstructions previousSummary
  (prompt, answer "Summarization failed" (summarizer prompt))

/-- `generateTurnPrefixSummary` and the prompt it sends. -/
def generateTurnPrefixSummary (summarizer : String → AssistantMessage)
    (messages : List AgentMessage) : String × Except String (String × Usage) :=
  let prompt := turnPrefixPrompt messages
  (prompt, answer "Turn prefix summarization failed" (summarizer prompt))

/-- The summary of a split turn. -/
def splitSummary (historyText turnPrefixText : String) : String :=
  historyText ++ "\n\n---\n\n**Turn Context (split turn):**\n\n" ++ turnPrefixText

/-- The result for a summary. -/
def finishCompaction (preparation : CompactionPreparation) (summary : String) (usage : Usage) :
    CompactionResult :=
  let details := computeFileLists preparation.fileOps
  { summary := summary ++ formatFileOperations details
    firstKeptEntryId := preparation.firstKeptEntryId
    tokensBefore := preparation.tokensBefore
    usage := usage
    details := details }

/-- `compact`: the prompts it sends, in order, and its result. -/
def compact (summarizer : String → AssistantMessage) (preparation : CompactionPreparation)
    (customInstructions : Option String) : List String × Except String CompactionResult :=
  if preparation.isSplitTurn = true ∧ preparation.turnPrefixMessages ≠ [] then
    let (calls, history) :=
      if preparation.messagesToSummarize ≠ [] then
        let call := generateSummaryWithUsage summarizer preparation.messagesToSummarize
          customInstructions preparation.previousSummary
        ([call.1], call.2.map fun result => (result.1, some result.2))
      else ([], .ok ("No prior history.", none))
    match history with
    | .error message => (calls, .error message)
    | .ok (historyText, historyUsage) =>
      let call := generateTurnPrefixSummary summarizer preparation.turnPrefixMessages
      (calls ++ [call.1], call.2.map fun result =>
        finishCompaction preparation (splitSummary historyText result.1)
          (match historyUsage with
            | some usage => combineUsage usage result.2
            | none => result.2))
  else
    let call := generateSummaryWithUsage summarizer preparation.messagesToSummarize
      customInstructions preparation.previousSummary
    ([call.1], call.2.map fun result => finishCompaction preparation result.1 result.2)

end BeauPi.Compaction
