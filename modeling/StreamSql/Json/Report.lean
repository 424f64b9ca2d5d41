import StreamSql.Engine.Push
import StreamSql.Sample
import StreamSql.Json.Plan
import StreamSql.Json.Statement
import StreamSql.Step

/-!
# Reports

What is told about analyses, plans and running queries, as JSON. Reports are written and never read
back.
-/

namespace StreamSql

/-- The conditions of a query after its names have been looked up. -/
def Analysis.report (a : Analysis) : Json := .object
  [("sources", .array (a.sources.map fun s => .array
      [.text s.aliasName, toJson s.source.name, toJson (s.source.kind == .stream),
        toJson (s.source.kind == .table)])),
    ("source_names", toJson a.sourceNames),
    ("joins", .array (a.joins.map fun join => .array
      [.text join.kind.name, .text join.left.text, .text join.right.text,
        .integer join.rightSource])),
    ("is_join", toJson a.isJoin), ("has_aggregates", toJson a.hasAggregates),
    ("select", toJson (a.select.map (·.text))), ("filter", toJson (a.filter.map (·.text))),
    ("group_by", toJson (a.groupBy.map (·.text))), ("limit", toJson a.limit),
    ("pull", toJson a.isPull), ("into", toJson a.into)]

def Destination.report (s : Destination) : Json := .object
  [("into", toJson s.into), ("create_into", toJson s.create), ("or_replace", toJson s.orReplace),
    ("key_format", .text s.keyFormat.name), ("value_format", .text s.valueFormat.name),
    ("topic", .text s.topic)]

/-- A plan with the steps that carry it out under the id of a query. -/
def LogicalPlan.report (plan : LogicalPlan) (id : QueryId) : Json :=
  let step := plan.lower
  .object
    [("kind", toJson plan.kind), ("schema", toJson plan.schema),
      ("display", .text plan.schema.text), ("limit", toJson plan.limit?),
      ("source_names", toJson plan.sourceNames),
      ("aliases", toJson (plan.root.sources.map (·.2))), ("sink_name", toJson plan.sinkName?),
      ("sink", (plan.destination?.map (·.report)).getD .null), ("step", toJson step),
      ("summary", .text (step.summary id))]

/-- The number of rows in the state of a query, if it keeps any. -/
def RunningQuery.rowCount? (q : RunningQuery) : Option Nat := q.materialization.map (·.size)

def RunningQuery.report (q : RunningQuery) : Json := .object
  [("id", toJson q.id), ("text", .text q.statement), ("sources", toJson q.plan.sources),
    ("sink", toJson q.sink), ("schema", .text q.schema.text), ("root", .text q.plan.step.label),
    ("status", .text q.status.text), ("summary", .text q.summary), ("rows", toJson q.rowCount?)]

def PushQuery.report (q : PushQuery) : Json := .object
  [("id", toJson q.id), ("text", .text q.statement), ("sources", toJson q.plan.sources),
    ("schema", toJson q.schema), ("limit", toJson q.limit),
    ("exclude_tombstones", toJson q.excludeTombstones), ("step", toJson q.plan.step),
    ("summary", .text q.summary)]

/-- The entries of the catalog, the queries that read them, and the queries that run. -/
def Engine.report (engine : Engine) : Json := .object
  [("sources", toJson engine.catalog.names), ("references", toJson engine.catalog.readers),
    ("queries", toJson (engine.registry.queries.map (·.id)))]

/-- The rows of a state, partition by partition. -/
def Materialization.report (m : Materialization) : Json := toJson (m.partitionIds.map m.scan)

end StreamSql
