import OpenAgentd.Store.Redo
import OpenAgentd.Patch.Exclusion
import OpenAgentd.Transcript.Failure
import OpenAgentd.Transcript.Reload
import OpenAgentd.Transcript.Exchange
import OpenAgentd.Stream.Replay
import OpenAgentd.Loop.Answered
import OpenAgentd.Loop.Retry
import OpenAgentd.Store.RoundTrip
import OpenAgentd.Provider.Verbatim
import OpenAgentd.Provider.GeminiCalls
import OpenAgentd.Provider.Agreed
import OpenAgentd.Patch.Sequential
import OpenAgentd.Patch.Rendered
import OpenAgentd.Scheduler.Counted
import OpenAgentd.Scheduler.Timers
import OpenAgentd.Migration.Upgrade
import OpenAgentd.Filesystem.Revealed
import OpenAgentd.Filesystem.Anchored
import OpenAgentd.Filesystem.ReadText
import OpenAgentd.Session.Queued
import OpenAgentd.Session.Question
import OpenAgentd.Manager.OneObject
import OpenAgentd.Loop.Unmixed
import OpenAgentd.Store.Sanitized
import OpenAgentd.Loop.Compacted
import OpenAgentd.Store.Healed
import OpenAgentd.Loop.Bounded
import OpenAgentd.Store.Paged
import OpenAgentd.Loop.Gathered
import OpenAgentd.Transcript.Cached
import OpenAgentd.Stream.Retained
import OpenAgentd.Web.Meters
import OpenAgentd.Web.Paging
import OpenAgentd.Web.Turns
import OpenAgentd.Snapshot.Boundary
import OpenAgentd.Permission.Service
import OpenAgentd.Shell.Honest
import OpenAgentd.Shell.Delivered
import OpenAgentd.Telemetry.Recorded
import OpenAgentd.Terminal.Delivered
import OpenAgentd.Filesystem.Prefilter
import OpenAgentd.Filesystem.Expanded
import OpenAgentd.Transcript.Covered
import OpenAgentd.Lsp.Diagnostics
import OpenAgentd.Lsp.Usable
import OpenAgentd.Git.Survives
import OpenAgentd.Git.Discard
import OpenAgentd.Mcp.Truthful
import OpenAgentd.Transfer.Restored
import OpenAgentd.AgentFs.Addressed
import OpenAgentd.Upload.Atomic
import OpenAgentd.Web.Diff
import OpenAgentd.Web.Mentions
import OpenAgentd.Web.Sse
import OpenAgentd.Lsp.Framing
import OpenAgentd.Http.SizeLimit
import OpenAgentd.Http.WebFetch
import OpenAgentd.Http.AccessToken
import OpenAgentd.Tools.Todo
import OpenAgentd.Stream.Broadcaster
import OpenAgentd.Web.TraceTree
import OpenAgentd.Web.Terminals
