import NativeMcp.Lib.TransitionSystem
import NativeMcp.Lib.Fairness
import NativeMcp.Lib.Intervals
import NativeMcp.Lib.Registry
import NativeMcp.Lib.Utf8
import NativeMcp.Lib.WeakTable
import NativeMcp.Lib.SelfDelimiting
import NativeMcp.Lib.StringSearch
import NativeMcp.Lib.Program
import NativeMcp.Lib.Records
import NativeMcp.Lib.Agreement
import NativeMcp.Lib.ByteOrder
import NativeMcp.Lib.Layout
import NativeMcp.Lib.Slots
import NativeMcp.Lib.Tokens
import NativeMcp.Lib.Monitor
import NativeMcp.Foundation
import NativeMcp.Json
import NativeMcp.Scheduler.Model
import NativeMcp.Scheduler.Steps
import NativeMcp.Scheduler.Calls
import NativeMcp.Scheduler.Accounting
import NativeMcp.Scheduler.Life
import NativeMcp.Scheduler.Closing
import NativeMcp.Scheduler.Progress
import NativeMcp.Scheduler.Liveness
import NativeMcp.Scheduler.Guarantees
import NativeMcp.Scheduler.Admission
import NativeMcp.Scheduler.Results
import NativeMcp.Server.JsonSafety
import NativeMcp.Server.Preflight
import NativeMcp.Server.JsonText
import NativeMcp.Server.JsonRpc
import NativeMcp.Tools.Definitions
import NativeMcp.Tools.ClosedSchemas
import NativeMcp.Server.Model
import NativeMcp.Server.Lines
import NativeMcp.Server.Lifecycle
import NativeMcp.Server.Correlation
import NativeMcp.Tools.RateLimit
import NativeMcp.Tools.LogAnalysis
import NativeMcp.Tools.LogLines
import NativeMcp.Tools.LogSearch
import NativeMcp.Tools.LogMatching
import NativeMcp.Tools.LogPreview
import NativeMcp.Tools.LogTail
import NativeMcp.Tools.LogEscape
import NativeMcp.Tools.ProcessParsing
import NativeMcp.Tools.StatIdentity
import NativeMcp.Tools.StatusFields
import NativeMcp.Tools.StatmScan
import NativeMcp.Tools.ProcessMemory
import NativeMcp.Tools.ProcessPinning
import NativeMcp.Tools.Schema
import NativeMcp.Tools.FilePolicy
import NativeMcp.Tools.PathWalk
import NativeMcp.Tools.RuntimeConfig
import NativeMcp.Tools.RuntimeVersions
import NativeMcp.Tools.ElfAnalysis
import NativeMcp.Tools.ElfReading
import NativeMcp.Tools.ElfHeaders
import NativeMcp.Tools.ElfDynamic
import NativeMcp.Tools.ElfStringTable
import NativeMcp.Tools.ElfNotes
import NativeMcp.Tools.ElfInspection
import NativeMcp.Tools.ElfImage
import NativeMcp.Tools.ElfByteOrder
import NativeMcp.Tools.ToolService
import NativeMcp.Tools.InputSchema
import NativeMcp.Tools.ProcessResult
import NativeMcp.Tools.Containment
import NativeMcp.Server.Delivery
import NativeMcp.Server.Transport
import NativeMcp.Scheduler.Threads
import NativeMcp.Server.Stdio
import NativeMcp.Server.Framing
import NativeMcp.Server.Pipelining
import NativeMcp.Server.Cancellation
import NativeMcp.Agent.Limits
import NativeMcp.Agent.Python
import NativeMcp.Agent.Contracts
import NativeMcp.Agent.SchemaParts
import NativeMcp.Agent.ToolSchemas
import NativeMcp.Agent.Revalidation
import NativeMcp.Agent.Normalization
import NativeMcp.Agent.ValueTrees
import NativeMcp.Agent.Acceptance
import NativeMcp.Agent.OutputValues
import NativeMcp.Agent.OutputDefinitions
import NativeMcp.Agent.NativeValues
import NativeMcp.Agent.ClosedDefinitions
import NativeMcp.Agent.Transcript
import NativeMcp.Agent.TranscriptReplay
import NativeMcp.Agent.TranscriptBounds
import NativeMcp.Agent.Identifiers
import NativeMcp.Agent.Redaction
import NativeMcp.Agent.RedactionRuns
import NativeMcp.Agent.TranscriptEvents
import NativeMcp.Agent.Rereading
import NativeMcp.Agent.TranscriptRoundTrip
import NativeMcp.Agent.Proposals
import NativeMcp.Agent.ProposalIds
import NativeMcp.Agent.ToolSurface
import NativeMcp.Agent.StdioClient
import NativeMcp.Agent.Authorization
import NativeMcp.Agent.Endpoints
import NativeMcp.Agent.ProviderResponses
import NativeMcp.Agent.ProviderRequests
import NativeMcp.Agent.Retries
import NativeMcp.Agent.ClientCalls
import NativeMcp.Agent.Orchestrator
import NativeMcp.Agent.OrchestratorRuns
import NativeMcp.Agent.TranscriptAcceptance
import NativeMcp.Agent.TranscriptTraces
import NativeMcp.Agent.OrchestratorTranscripts
import NativeMcp.Agent.StdioReads
import NativeMcp.Agent.StdioSessions
import NativeMcp.Agent.ChildProcesses
import NativeMcp.Agent.HttpAttempts
import NativeMcp.Agent.ProductionEndpoints
import NativeMcp.Agent.HttpSends
import NativeMcp.Agent.SyntheticMessages
import NativeMcp.Agent.ProviderTurns
import NativeMcp.Agent.CanonicalText
import NativeMcp.Agent.ChildEnvironment
