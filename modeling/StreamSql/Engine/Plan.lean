import StreamSql.Catalog.Command
import StreamSql.Sorted.Set
import StreamSql.Step

/-!
# Plans

The compiled form of a statement: a catalog command, a continuous query to launch, or both.
-/

namespace StreamSql

/-- A continuous query ready to be launched. -/
structure QueryPlan where
  /-- The entries that the query reads. -/
  sources : SortedSet SourceName
  /-- The entry that the query writes. -/
  sink : Option SourceName
  step : Step
  id : QueryId
  /-- Whether the launch takes the place of a running query with the same id. -/
  orReplace : Bool

structure Plan where
  /-- The text of the statement. -/
  statement : String
  command : Option CatalogCommand
  query : Option QueryPlan
  carries : command.isSome ∨ query.isSome

namespace Plan

def ofCommand (statement : String) (command : CatalogCommand) : Plan :=
  ⟨statement, some command, none, .inl rfl⟩

def ofQuery (statement : String) (command : Option CatalogCommand) (query : QueryPlan) : Plan :=
  ⟨statement, command, some query, .inr rfl⟩

/-- The entries that the plan's query reads. -/
def sources (plan : Plan) : SortedSet SourceName :=
  match plan.query with
  | some query => query.sources
  | none => .empty

end Plan

end StreamSql
