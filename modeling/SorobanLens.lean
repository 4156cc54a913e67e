import SorobanLens.Api.ContractRoutes
import SorobanLens.Api.Csv
import SorobanLens.Api.CsvExport
import SorobanLens.Api.EntityTag
import SorobanLens.Api.GraphQL.Complexity
import SorobanLens.Api.GraphQL.Document
import SorobanLens.Api.GraphQL.DocumentParsing
import SorobanLens.Api.GraphQL.Endpoint
import SorobanLens.Api.GraphQL.Execute
import SorobanLens.Api.GraphQL.Grammar
import SorobanLens.Api.GraphQL.Language
import SorobanLens.Api.GraphQL.Lexer
import SorobanLens.Api.GraphQL.Limits
import SorobanLens.Api.GraphQL.Parser
import SorobanLens.Api.GraphQL.Parsing
import SorobanLens.Api.GraphQL.Resolve
import SorobanLens.Api.GraphQL.Schema
import SorobanLens.Api.GraphQL.Spelling
import SorobanLens.Api.Params
import SorobanLens.Api.PrivateAddress
import SorobanLens.Api.RateLimit
import SorobanLens.Api.Server
import SorobanLens.Api.Stream
import SorobanLens.Api.StreamDelivery
import SorobanLens.Api.WebhookAccounting
import SorobanLens.Api.WebhookCeiling
import SorobanLens.Api.WebhookCoverage
import SorobanLens.Api.WebhookViews
import SorobanLens.Api.Webhooks
import SorobanLens.Cli.Backfill
import SorobanLens.Cli.Delivery
import SorobanLens.Cli.Indexer
import SorobanLens.Cli.Pipeline
import SorobanLens.Cli.SpecRuns
import SorobanLens.Cli.Specs
import SorobanLens.Ingest.Archive
import SorobanLens.Ingest.Bounded
import SorobanLens.Ingest.Chunked
import SorobanLens.Ingest.CursorFile
import SorobanLens.Ingest.CursorKey
import SorobanLens.Ingest.CursorStore
import SorobanLens.Ingest.Metrics
import SorobanLens.Ingest.Node
import SorobanLens.Ingest.Outage
import SorobanLens.Ingest.Poller
import SorobanLens.Ingest.RecentIds
import SorobanLens.Ingest.Retry
import SorobanLens.Ingest.RpcClient
import SorobanLens.Ingest.RpcPool
import SorobanLens.Ingest.SavedLedger
import SorobanLens.Lib.Csv
import SorobanLens.Lib.FirstWrite
import SorobanLens.Lib.GroupBy
import SorobanLens.Lib.IpAddress
import SorobanLens.Lib.JsNumber
import SorobanLens.Lib.JsNumeral
import SorobanLens.Lib.Json
import SorobanLens.Lib.JsonIndent
import SorobanLens.Lib.JsonNumeral
import SorobanLens.Lib.JsonPath
import SorobanLens.Lib.JsonRead
import SorobanLens.Lib.Jsonb
import SorobanLens.Lib.KeyedTable
import SorobanLens.Lib.Keyset
import SorobanLens.Lib.Ledger
import SorobanLens.Lib.Outcome
import SorobanLens.Lib.PathPattern
import SorobanLens.Lib.PercentCode
import SorobanLens.Lib.PrefixCode
import SorobanLens.Lib.Regex
import SorobanLens.Lib.Renewal
import SorobanLens.Lib.SideTable
import SorobanLens.Lib.TokenBucket
import SorobanLens.Lib.TokenParser
import SorobanLens.Lib.Transition
import SorobanLens.Lib.Utf8
import SorobanLens.Lib.WorkerPool
import SorobanLens.Store.Accounting
import SorobanLens.Store.AddressIndex
import SorobanLens.Store.Aggregates
import SorobanLens.Store.Agreement
import SorobanLens.Store.Backend
import SorobanLens.Store.CountCache
import SorobanLens.Store.Decode
import SorobanLens.Store.Effects
import SorobanLens.Store.EventStore
import SorobanLens.Store.Growth
import SorobanLens.Store.Integrity
import SorobanLens.Store.JsonSafe
import SorobanLens.Store.Operations
import SorobanLens.Store.Paging
import SorobanLens.Store.Postgres
import SorobanLens.Store.PostgresInsert
import SorobanLens.Store.Prune
import SorobanLens.Store.PruneSize
import SorobanLens.Store.Query
import SorobanLens.Store.Ready
import SorobanLens.Store.Refresh
import SorobanLens.Store.Repair
import SorobanLens.Store.Rollback
import SorobanLens.Store.RowInvariant
import SorobanLens.Store.Rows
import SorobanLens.Store.Schema
import SorobanLens.Store.SearchIndex
import SorobanLens.Store.Snapshot
import SorobanLens.Store.SnapshotLines
import SorobanLens.Store.SnapshotRoundTrip
import SorobanLens.Store.Spec
import SorobanLens.Store.Sqlite
import SorobanLens.Store.Stability
import SorobanLens.Store.Types
import SorobanLens.Store.Walk
import SorobanLens.Store.WriteRule
import SorobanLens.Web.Diff
import SorobanLens.Web.DiffEvents
import SorobanLens.Web.DiffTree
import SorobanLens.Web.Route
