import StreamSql.Config
import StreamSql.Plan.Aggregation
import StreamSql.Plan.Projection
import StreamSql.Query.KeyLookup

/-!
# Planning queries

The logical plan of an analysed query: the joined sources, then the filter, the aggregation, the
projection and the sink. A pull query reads a single source as it is, without grouping or limit, and
by key unless table scans are enabled.
-/

namespace StreamSql

namespace Analysis

/-- Refuses what a pull query may not have. -/
def checkPull (a : Analysis) : Except QueryError Unit := do
  if a.isJoin then throw .pullJoin
  if !a.groupBy.isEmpty || a.hasAggregates then throw .pullGroupBy
  if a.limit.isSome then throw .pullLimit

/-- Refuses a pull query that would have to scan although scans are disabled. -/
def checkPullLookup (a : Analysis) (source : Source) (config : Settings) :
    Except QueryError Unit := do
  let lookup ← KeyLookup.ofFilter a.filter source.schema
  if lookup.isScan && !config.pullTableScanEnabled then throw (.pullTableScanDisabled source.name)

/-- The format of a name, or else another one. -/
def formatOr (name : Option String) (otherwise : Format) : Except QueryError Format :=
  match name with
  | none => .ok otherwise
  | some name =>
    match Format.ofName name with
    | .ok format => .ok format
    | .error e => .error (.format e)

/--
The destination that a sink stands for. An entry that is there already says itself how it is
written; a new one takes its formats from the statement or else from the first source. -/
def destination (sink : Sink) (first : Source) (catalog : Catalog) (config : Settings) :
    Except QueryError Destination := do
  if sink.create then
    return {
      into := sink.name
      create := true
      orReplace := sink.orReplace
      keyFormat := ← formatOr sink.properties.keyFormatName? first.keyFormat
      valueFormat := ← formatOr sink.properties.valueFormatName? first.valueFormat
      topic := sink.properties.topic.getD sink.name.text }
  else
    let existing := catalog.get? sink.name
    return {
      into := sink.name
      create := false
      orReplace := false
      keyFormat := (existing.map (·.keyFormat)).getD config.defaultKeyFormat
      valueFormat := (existing.map (·.valueFormat)).getD config.defaultValueFormat
      topic := (existing.map (·.topic)).getD sink.name.text }

/-- Filters the rows of a plan. -/
def addFilter (input : ScopedPlan) : Option Expression → Except QueryError ScopedPlan
  | none => return input
  | some predicate => do
    discard (input.scope.typeOf predicate)
    return ⟨.filter input.node predicate, input.scope⟩

/-- Aggregates the rows of a plan as the query says, and gives what is left to select. -/
def addAggregation (a : Analysis) (input : ScopedPlan) :
    Except QueryError (ScopedPlan × List SelectItem) :=
  if !a.groupBy.isEmpty then input.aggregate a.groupBy a.select
  else if a.hasAggregates then .error .aggregateWithoutGroupBy
  else .ok (input, a.select)

/-- Where the rows go. A table needs a key to be written anywhere. -/
def output (a : Analysis) (first : Source) (input projected : ScopedPlan)
    (catalog : Catalog) (config : Settings) : Except QueryError Output :=
  match a.into with
  | none => return .returned a.limit
  | some sink => do
    if projected.node.outputKind = .table && !projected.scope.schema.isKeyed then
      throw (.keyMissingFromProjection input.scope.keyNames)
    return .stored (← destination sink first catalog config)

def plan (a : Analysis) (catalog : Catalog) (config : Settings) :
    Except QueryError LogicalPlan := do
  if a.isPull then a.checkPull
  match a.sources with
  | [] => throw (.sourceNotFound ⟨""⟩)
  | first :: _ =>
    let joined ← (ScopedPlan.ofSource first).joinAll a.sources a.joins
    let filtered ← addFilter joined a.filter
    let (aggregated, select) ← a.addAggregation filtered
    let projected ← aggregated.project select
    let output ← a.output first.source aggregated projected catalog config
    if a.isPull then a.checkPullLookup first.source config
    return ⟨projected.node, projected.scope.schema, projected.node.outputKind, output⟩

end Analysis

/-- Analyses and plans a query. -/
def Query.plan (query : Query) (into : Option Sink) (catalog : Catalog) (config : Settings) :
    Except QueryError LogicalPlan := do
  (← Analysis.ofQuery catalog query into).plan catalog config

end StreamSql
