import StreamSql.Engine.Execution
import StreamSql.Engine.Pull
import StreamSql.Engine.Push
import StreamSql.Json.Diagnostic
import StreamSql.Json.Error
import StreamSql.Json.Network
import StreamSql.Json.Plan
import StreamSql.Json.Report
import StreamSql.Json.Routing
import StreamSql.Json.Short
import StreamSql.Sample
import StreamSql.Proofs.Catalog.Links
import StreamSql.Proofs.Catalog.Carried
import StreamSql.Proofs.Catalog.Undo
import StreamSql.Proofs.Catalog.History
import StreamSql.Proofs.Catalog.Rejection
import StreamSql.Proofs.Catalog.Dangling
import StreamSql.Proofs.Catalog.OutOfOrder
import StreamSql.Proofs.Engine.Planning
import StreamSql.Proofs.Engine.Execution
import StreamSql.Proofs.Engine.Run
import StreamSql.Proofs.Engine.Launch
import StreamSql.Proofs.Engine.Registry
import StreamSql.Proofs.Catalog.Readers
import StreamSql.Proofs.Routing.FallOver
import StreamSql.Proofs.Routing.Forwarding
import StreamSql.Proofs.Routing.Interleaving
import StreamSql.Proofs.Routing.Merging
import StreamSql.Proofs.Key.Injective
import StreamSql.Proofs.Value
import StreamSql.Proofs.Expression
import StreamSql.Proofs.Evaluation
import StreamSql.Proofs.Materialization
import StreamSql.Proofs.Materialization.LatestRows
import StreamSql.Proofs.Query.Stages
import StreamSql.Proofs.Query.Destination
import StreamSql.Proofs.Query.KeyLookup
import StreamSql.Proofs.Query.LookupDrift
import StreamSql.Proofs.Query.Projection
import StreamSql.Proofs.Query.PullPlans
import StreamSql.Proofs.Query.Scope
import StreamSql.Proofs.Query.Sources
import StreamSql.Proofs.Query.Typing
import StreamSql.Proofs.Engine.PointLookup
import StreamSql.Proofs.Engine.PullRows
import StreamSql.Proofs.Engine.QueryIds
import StreamSql.Proofs.Engine.Clients
import StreamSql.Proofs.Engine.Writers
import StreamSql.Proofs.Engine.Feeds
import StreamSql.Proofs.Engine.SinkMatch
import StreamSql.Proofs.Engine.Names
import StreamSql.Proofs.Engine.CreateAsSelect
import StreamSql.Proofs.Engine.KeyFormats
import StreamSql.Proofs.Engine.PullBinding
import StreamSql.Proofs.Engine.PullEvaluation
import StreamSql.Proofs.Engine.Repartitioning
import StreamSql.Proofs.Engine.FreshIds
import StreamSql.Proofs.Engine.Replacement
import StreamSql.Proofs.Query.Selection
import StreamSql.Proofs.Query.ResultKey
import StreamSql.Proofs.Query.NameResolution
import StreamSql.Proofs.Catalog.Emptying
import StreamSql.Proofs.Engine.ColumnNames
import StreamSql.Proofs.Engine.QueryStatus
import StreamSql.Proofs.Engine.OwnPartitions
import StreamSql.Proofs.Key.Decoding
import StreamSql.Proofs.Catalog.Reverting
import StreamSql.Proofs.Routing.Dispatches
import StreamSql.Proofs.Engine.PullCounters
import StreamSql.Proofs.Json.Forms
import StreamSql.Proofs.Json.Values
import StreamSql.Proofs.Json.Plans
import StreamSql.Proofs.Binary64
import StreamSql.Proofs.Value.Order
import StreamSql.Proofs.Value.Zeros
import StreamSql.Proofs.Membership
import StreamSql.Proofs.Query.EqualKeys
import StreamSql.Proofs.Query.AggregateCalls
import StreamSql.Proofs.Query.GroupedNames
import StreamSql.Proofs.MovingToFront
import StreamSql.Proofs.Query.JoinTree
import StreamSql.Proofs.Query.JoinedColumns
import StreamSql.Proofs.Query.SingleSource
import StreamSql.Proofs.Routing.Ranking
import StreamSql.Proofs.Schema
import StreamSql.Proofs.Text
import StreamSql.Proofs.Overrides
import StreamSql.Proofs.Materialization.Widening
import StreamSql.Proofs.Engine.Declarations
import StreamSql.Proofs.Step.Lowering
import StreamSql.Proofs.Step.Ids
import StreamSql.Proofs.Engine.StepIds
