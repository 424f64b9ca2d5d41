import StreamSql.Catalog.Source
import StreamSql.Query

/-!
# Logical plans

What a query computes, as a tree over its sources, and where the result goes.
-/

namespace StreamSql

/-- One aggregate of an aggregation, under the name of the column that holds it. -/
structure AggregateCall where
  name : String
  function : AggregateFunction
  /-- What is aggregated; nothing stands for the rows themselves. -/
  argument : Option Expression

structure Projection where
  name : String
  expression : Expression

inductive PlanNode where
  | source (source : Source) (aliasName : String)
  | join (kind : JoinKind) (left right : PlanNode) (leftKey rightKey : ColumnReference)
      (schema : Schema) (output : SourceKind)
  | filter (input : PlanNode) (predicate : Expression)
  | aggregate (input : PlanNode) (groupBy : List ColumnReference) (calls : List AggregateCall)
      (schema : Schema)
  | project (input : PlanNode) (projections : List Projection) (schema : Schema)

namespace PlanNode

def schema : PlanNode → Schema
  | source s _ => s.schema
  | join _ _ _ _ _ schema _ => schema
  | filter input _ => input.schema
  | aggregate _ _ _ schema => schema
  | project _ _ schema => schema

/-- Whether the node emits a stream of events or the changes of a table. -/
def outputKind : PlanNode → SourceKind
  | source s _ => s.kind
  | join _ _ _ _ _ _ output => output
  | filter input _ => input.outputKind
  | aggregate _ _ _ _ => .table
  | project input _ _ => input.outputKind

/-- The sources with their aliases, from left to right. -/
def sources : PlanNode → List (Source × String)
  | source s aliasName => [(s, aliasName)]
  | join _ left right _ _ _ _ => left.sources ++ right.sources
  | filter input _ => input.sources
  | aggregate input _ _ _ => input.sources
  | project input _ _ => input.sources

end PlanNode

/-- A catalog entry that the result of a query is written into. -/
structure Destination where
  into : SourceName
  /-- Whether the statement creates the entry. -/
  create : Bool
  orReplace : Bool
  keyFormat : Format
  valueFormat : Format
  topic : String
  deriving DecidableEq

inductive Output where
  /-- The rows go back to the caller. -/
  | returned (limit : Option Nat)
  | stored (destination : Destination)
  deriving DecidableEq

structure LogicalPlan where
  root : PlanNode
  schema : Schema
  kind : SourceKind
  output : Output

namespace LogicalPlan

def sourceNames (plan : LogicalPlan) : List SourceName := plan.root.sources.map (·.1.name)

def destination? (plan : LogicalPlan) : Option Destination :=
  match plan.output with
  | .stored destination => some destination
  | .returned _ => none

def sinkName? (plan : LogicalPlan) : Option SourceName := plan.destination?.map (·.into)

def limit? (plan : LogicalPlan) : Option Nat :=
  match plan.output with
  | .returned limit => limit
  | .stored _ => none

end LogicalPlan

end StreamSql
