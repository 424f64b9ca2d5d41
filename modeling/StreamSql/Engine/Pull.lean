import StreamSql.Engine.Planning
import StreamSql.Evaluation
import StreamSql.Routing.Router

/-!
# Pull queries

A query for the present rows of an entry, answered from the state that the query writing the entry
keeps. The plan is bound to that state; the router then has every partition answered that may hold
rows of the query.
-/

namespace StreamSql

/-- The selected expressions of a plan. -/
def PlanNode.projections : PlanNode → List Projection
  | project _ projections _ => projections
  | _ => []

/-- The filter of a plan. -/
def PlanNode.predicate? : PlanNode → Option Expression
  | project input _ _ => input.predicate?
  | filter _ predicate => some predicate
  | _ => none

/-- A pull query bound to the state that answers it. -/
structure PullPlan where
  id : QueryId
  /-- The schema of the result. -/
  schema : Schema
  materialization : Materialization
  lookup : KeyLookup
  predicate : Option Expression
  projections : List Projection

namespace PullPlan

/-- Binds a plan to the state of the only query that writes its source. -/
def bind (logical : LogicalPlan) (registry : Registry) (id : QueryId) :
    Except Diagnostic PullPlan := do
  match logical.root.sources with
  | [] => throw (.internal "pull query without a source")
  | (source, _) :: _ =>
    match ← reported (registry.materializing? source.name) with
    | none => throw (diagnostic (EngineError.noMaterialization source.name))
    | some query =>
      match query.materialization with
      | none => throw (diagnostic (EngineError.noQueryableState source.name query.id))
      | some materialization =>
        let predicate := logical.root.predicate?
        let lookup ← reported (KeyLookup.ofFilter predicate materialization.schema)
        return {
          id
          schema := logical.schema
          materialization
          lookup
          predicate
          projections := logical.root.projections }

/-- The partitions that may hold rows of the query, ascending. -/
def partitions (p : PullPlan) : Except KeyError (List PartitionId) :=
  match p.lookup with
  | .scan => .ok p.materialization.partitionIds
  | .keys keys => do
    let found ← keys.mapM p.materialization.partitionOf
    return (SortedSet.ofList found).toList

/-- The row of a key, if the partition holds it. -/
def lookupIn (p : PullPlan) (partition : PartitionId) (values : List Value) :
    Except KeyError (Option Row) := do
  let key ← p.materialization.encode values
  if p.materialization.home key = partition then return p.materialization.getIn partition key
  else return none

/-- The rows of a partition that the lookup finds. -/
def candidates (p : PullPlan) (partition : PartitionId) : Except KeyError (List Row) :=
  match p.lookup with
  | .scan => .ok (p.materialization.scan partition)
  | .keys keys => do
    let found ← keys.mapM (p.lookupIn partition)
    return found.flatMap (·.toList)

/-- Whether a row passes the filter. -/
def admits (p : PullPlan) (row : Row) : Except EvaluationError Bool :=
  match p.predicate with
  | some predicate => predicate.passes p.materialization.schema row
  | none => .ok true

/-- The selected values of a row. A plan that selects nothing gives the row itself. -/
def project (p : PullPlan) (row : Row) : Except EvaluationError Row :=
  if p.projections.isEmpty then .ok row
  else do
    let values ← p.projections.mapM fun projection =>
      projection.expression.evaluate p.materialization.schema row
    return ⟨values⟩

/-- The result row of a stored row, if it passes the filter. -/
def answerRow (p : PullPlan) (row : Row) : Except EvaluationError (Option Row) := do
  if ← p.admits row then return some (← p.project row) else return none

/-- The result rows of one partition. -/
def execute (p : PullPlan) (partition : PartitionId) : Except Diagnostic (List Row) := do
  let rows ← reported (p.candidates partition)
  let answers ← reported (rows.mapM p.answerRow)
  return answers.flatMap (·.toList)

end PullPlan

/-- The result of a pull query. -/
structure PullResult where
  id : QueryId
  schema : Schema
  rows : List Row
  decision : RoutingDecision

namespace Engine

/-- The plan of a pull query, bound to its state, with the locations of its partitions. The token
makes its id unique. -/
def planPull (engine : Engine) (config : Settings) (query : Query) (token : String) :
    Except Diagnostic (PullPlan × List PartitionLocation) := do
  if !query.isPull then throw (diagnostic (EngineError.notExecutable "push SELECT"))
  let analysis ← reported (Analysis.ofQuery engine.catalog query none)
  let logical ← reported (analysis.unqualified.plan engine.catalog config)
  let plan ← PullPlan.bind logical engine.registry (.ofPull token)
  let partitions ← reported plan.partitions
  return (plan, engine.placement.locate partitions)

/-- The routing of a bound pull query. -/
def router {σ : Type} (engine : Engine) (plan : PullPlan) (text : String)
    (filters : List ReplicaFilter) (options : RoutingOptions) (transport : Transport σ) :
    Router σ where
  home := engine.home
  execute partition := return plan.execute partition
  transport
  filters
  options
  statement := text
  queryId := plan.id

/-- Answers a pull query; a failure counts as one error, however many replicas failed. -/
def pull {σ : Type} (engine : Engine) (config : Settings) (query : Query) (text token : String)
    (filters : List ReplicaFilter) (options : RoutingOptions) (transport : Transport σ) :
    StateM (RoutingState σ) (Except Diagnostic PullResult) := fun s =>
  match engine.planPull config query token with
  | .error d => (.error (d.withStatement text), { s with counters := s.counters.countError })
  | .ok (plan, locations) =>
    match (engine.router plan text filters options transport).pull locations s with
    | (.ok routed, s) => (.ok ⟨plan.id, plan.schema, routed.rows, routed.decision⟩, s)
    | (.error e, s) =>
      (.error ((diagnostic e).withStatement text), { s with counters := s.counters.countError })

/-- The routing options of a session without wishes of its own. -/
def routingOptions (config : Settings) : RoutingOptions :=
  { timeout := config.pullForwardTimeout }

end Engine

end StreamSql
