import Kanban.Lib.Exec
import Kanban.Lib.History
import Kanban.Realtime.Cutover
import Kanban.Realtime.Registry
import Kanban.Realtime.EventLog
import Kanban.Realtime.JetStream
import Kanban.Realtime.Outbox
import Kanban.Realtime.Retention
import Kanban.Realtime.Ordering
import Kanban.Realtime.LiveTail
import Kanban.Services.Common
import Kanban.Services.BoardStream
import Kanban.Services.BoardTail
import Kanban.Services.Subscriptions
import Kanban.Services.AggregatedStream
import Kanban.Services.AggregatedBoards
import Kanban.Services.AggregatedSession
import Kanban.Services.Resume
import Kanban.Services.Subscriber
import Kanban.Services.FreshSubscription
import Kanban.Lib.Program
import Kanban.Lib.Table
import Kanban.Auth.PermissionClient
import Kanban.Rpc.Handler
import Kanban.Rpc.Projects
import Kanban.Rpc.CreateProject
import Kanban.Lib.Pool
import Kanban.Rpc.Deletion
import Kanban.Rpc.Frame
import Kanban.Rpc.Membership
import Kanban.Rpc.MemberSync
import Kanban.Rpc.Revocation
import Kanban.Rpc.CardMutations
import Kanban.Rpc.CardDetails
import Kanban.Rpc.CardQueries
import Kanban.Lib.Commit
import Kanban.Rpc.Commits
import Kanban.Rpc.Placement
import Kanban.Rpc.CardCommits
import Kanban.Rpc.CardRuns
import Kanban.Rpc.CardDetailRuns
import Kanban.Rpc.CardService
import Kanban.Rpc.EventStream
import Kanban.Auth.Dispatch
import Kanban.Rpc.BoardEntry
import Kanban.Rpc.Atomicity
import Kanban.Rpc.Catalog
import Kanban.Rpc.Names
import Kanban.Lib.Serial
import Kanban.Rpc.Boards
import Kanban.Rpc.Coherence
import Kanban.Rpc.Writes
import Kanban.Rpc.Milestones
import Kanban.Rpc.LabelScope
import Kanban.Services.Staleness
import Kanban.Lib.Protocol
import Kanban.Rpc.Aggregates
import Kanban.Rpc.Protocols
import Kanban.Rpc.FreshIds
import Kanban.Rpc.TenantIsolation
import Kanban.Lib.Shelf
import Kanban.Lib.Solo
import Kanban.Rpc.Alone
import Kanban.Rpc.CardOrder
import Kanban.Rpc.OrderedCalls
import Kanban.Rpc.OrderedRuns
import Kanban.Rpc.Insertion
import Kanban.Lib.Holding
import Kanban.Rpc.SharedColumns
import Kanban.Rpc.SharedCalls
import Kanban.Rpc.SharedRuns
import Kanban.Rpc.ColumnOrder
import Kanban.Rpc.SourceOrder
import Kanban.Realtime.CutoverRuns
import Kanban.Lib.Paging
import Kanban.Lib.Sure
import Kanban.Rpc.Listings
import Kanban.Rpc.Appending
import Kanban.Rpc.PositionRange
import Kanban.Rpc.ListingRuns
import Kanban.Rpc.CommentPages
import Kanban.Rpc.Completion
import Kanban.Services.AggregatedChunks
import Kanban.Services.Search
import Kanban.Lib.PostFilter
import Kanban.Services.SearchPages
import Kanban.Rpc.References
import Kanban.Rpc.Surely
import Kanban.Rpc.GitHubLinks
import Kanban.Rpc.Removal
import Kanban.Rpc.Residue
import Kanban.Lib.FieldMask
import Kanban.Lib.Notices
import Kanban.Rpc.EventPayloads
import Kanban.Rpc.EventRows
import Kanban.Rpc.UpdateMasks
import Kanban.Rpc.EventPatch
import Kanban.Lib.Numeral
import Kanban.Ids.Id
import Kanban.Ids.Codec
import Kanban.Auth.Mediation
import Kanban.Rpc.CheckedIds
import Kanban.Services.Base64
import Kanban.Rpc.TupleDeletion
import Kanban.Lib.Keyset
import Kanban.Migrations.Backfills
import Kanban.Migrations.Runner
import Kanban.Auth.PermissionCoverage
import Kanban.Auth.Identity
import Kanban.Rpc.Assignment
import Kanban.Integrations.S3
import Kanban.Integrations.Digest
import Kanban.Rpc.Attachments
import Kanban.Rpc.Revisions
import Kanban.Lib.DotSegments
import Kanban.Realtime.SeenIds
import Kanban.Rpc.AttachmentKeys
import Kanban.Rpc.RevisionChain
import Kanban.Rpc.BoardConfinement
import Kanban.Rpc.BoardSnapshot
import Kanban.Lib.Lasts
import Kanban.Lib.Once
import Kanban.Rpc.Lasting
import Kanban.Rpc.KeyedCreation
import Kanban.Lib.Discipline
import Kanban.Rpc.KeptCalls
import Kanban.Rpc.RefCounter
import Kanban.Rpc.RefCalls
import Kanban.Rpc.RefRuns
import Kanban.Rpc.CardDocuments
import Kanban.Rpc.Announcing
import Kanban.Rpc.AnnouncingCalls
import Kanban.Rpc.IndexRuns
import Kanban.Lib.FanIn
import Kanban.Services.ProjectFeed
import Kanban.Auth.Profiles
