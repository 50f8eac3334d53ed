import BeauPi.Workflow.Dependencies
import BeauPi.Workflow.Exclusion
import BeauPi.Workflow.Confluence
import BeauPi.Tasks.Completed
import BeauPi.Tasks.Bookkeeping
import BeauPi.Agents.Slots
import BeauPi.Agents.Messages
import BeauPi.Monitor.LogConsumers
import BeauPi.Background.Dedupe
import BeauPi.Monitor.Terminal
import BeauPi.Monitor.Keeps
import BeauPi.Privilege.Sessions
import BeauPi.Compaction.Summaries
import BeauPi.Tools.FuzzyEdits
import BeauPi.Tools.LineEndings
import BeauPi.Tools.Serialized
import BeauPi.Tools.TruncationLimits
import BeauPi.Harness.BranchSummary
import BeauPi.Harness.ShellOutput
import BeauPi.Harness.Preserves
import BeauPi.AgentLoop.WellFormed
import BeauPi.Harness.Queues
import BeauPi.Persistence.Agreement
import BeauPi.Sqlite.Appends
import BeauPi.Tui.Frames
import BeauPi.Tui.WordWrap
import BeauPi.Tui.CompositeLine
import BeauPi.Tui.StdinBuffer
import BeauPi.Providers.Replay
import BeauPi.Search.Caps
import BeauPi.Search.Sharing
import BeauPi.Search.Pinning
import BeauPi.Documents.Staleness
import BeauPi.AgentSession.Mirror
import BeauPi.AgentSession.LiveContext
import BeauPi.AgentSession.Leftover
import BeauPi.AgentSession.Surgery
import BeauPi.Tasks.Projection
import BeauPi.Execution.ShellParse
import BeauPi.Compaction.MetadataBlind
import BeauPi.RemoteAgent.Chunks
import BeauPi.Sessions.Migration
import BeauPi.Sessions.Cycles
import BeauPi.Tasks.Rebase
import BeauPi.Execution.Records
