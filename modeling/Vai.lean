import Vai.Proc
import Vai.Text
import Vai.FMap
import Vai.Data
import Vai.Hunks
import Vai.TryMerge
import Vai.Order
import Vai.MergeFs
import Vai.World
import Vai.Diff
import Vai.Submit
import Vai.SubmitSteps
import Vai.SubmitSpec
import Vai.Disk
import Vai.S3
import Vai.S3Spec
import Vai.S3Flush
import Vai.S3Map
import Vai.S3Contract
import Vai.Conflicts
import Vai.Landed
import Vai.LostUpdate
import Vai.Independent
import Vai.Rollback
import Vai.History
import Vai.Session
import Vai.Undo
import Vai.Server
import Vai.Agree
import Vai.Graph
import Vai.Tracks
import Vai.Utf8
import Vai.Ndjson
import Vai.EventLog
import Vai.EventLogLayout
import Vai.EventLogRun
import Vai.EventLogCrash
import Vai.EventLogQuery
import Vai.Api
import Vai.Auth
import Vai.Escalation
import Vai.Buffered
import Vai.Backend
import Vai.Handlers
import Vai.Upload
import Vai.Kept
import Vai.UploadRejected
import Vai.HandlerSpec
import Vai.UploadSpec
import Vai.Requests
import Vai.Once
import Vai.SnapshotWins
import Vai.Replay
import Vai.Pull
import Vai.Ledger
import Vai.Chronicle
import Vai.Consistent
import Vai.PullSpec
import Vai.PullExact
import Vai.DownloadExact
import Vai.Rail
import Vai.SourceUpload
import Vai.Migrate
import Vai.FilePath
import Vai.Keys
import Vai.LocalFs
import Vai.LocalPlain
import Vai.Remote
import Vai.ClientPaths
import Vai.PullFrame
import Vai.Converge
import Vai.Download
import Vai.Push
import Vai.PushGuard
import Vai.PushRevert
import Vai.RemoteWorkspace
import Vai.Tallied
import Vai.PlainWire
import Vai.FullDelta
import Vai.PushExact
import Vai.Unpack
import Vai.PullForce
import Vai.Steps
import Vai.EventStream
import Vai.LocalStream
import Vai.Workers
import Vai.InHand
import Vai.Rows
import Vai.MergePatterns
import Vai.ResolveConflict
import Vai.RefreshTokens
import Vai.DeviceCodes
import Vai.Issue
import Vai.Scope
import Vai.Sorting
import Vai.IssueStorage
import Vai.IssueSpec
import Vai.IssueParity
import Vai.WorkQueue
import Vai.ClaimQueue
import Vai.ClaimFaults
import Vai.Isolation
import Vai.RemoteClient
import Vai.Edits
import Vai.HunkSpec
import Vai.Lines
import Vai.LineMerge
import Vai.LineBytes
import Vai.Nested
import Vai.RustSource
import Vai.EntityMerge
import Vai.EntitySplice
import Vai.EntityKept
import Vai.HeadChanges
import Vai.Limiter
import Vai.Watcher
import Vai.Discoveries
import Vai.HourlyLimits
import Vai.DiffExact
import Vai.FileWorkspaces
import Vai.PlanExact
import Vai.ServerFiles
import Vai.VersionDetail
import Vai.WorkspaceFile
import Vai.VersionDiff
import Vai.Annals
import Vai.FilteredRollback
import Vai.RollbackImpact
import Vai.Relocated
import Vai.ChangeLocality
import Vai.IssueHandlers
import Vai.OneEvent
import Vai.IssueReplay
import Vai.Overlaps
import Vai.RateLimiter
import Vai.ReplayBuffer
import Vai.KeyRotation
import Vai.FilterParity
import Vai.Bfs
import Vai.GraphDistance
import Vai.GradedScope
import Vai.ScopeInference
import Vai.InferExact
import Vai.HistoryBoost
import Vai.Lcs
import Vai.HunkExact
import Vai.Separated
import Vai.DedupKeys
import Vai.EdgeDistance
import Vai.BlastRadius
import Vai.Like
import Vai.IssueLabels
import Vai.Calls
import Vai.TsSource
import Vai.Declarations
import Vai.SourceFile
import Vai.EntityIds
import Vai.Parts
import Vai.Rebuild
import Vai.Pages
import Vai.Pagination
import Vai.PageSpec
import Vai.Orgs
import Vai.Confinement
import Vai.KeyChain
import Vai.ServerGraph
import Vai.GraphRefresh
