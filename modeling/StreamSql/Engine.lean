import StreamSql.Catalog.Apply
import StreamSql.Config
import StreamSql.Engine.Registry
import StreamSql.Routing.Replica

/-!
# The engine

What a node of the engine keeps: its settings, the catalog with its interceptors, the registry of
running queries, the next number for query ids, and where the partitions of materializations are. A
backend starts the queries.
-/

namespace StreamSql

/-- Starts queries, or refuses to. -/
structure Backend where
  /--
  Starts a continuous query with the text of its statement, and gives the state that it will write,
  if it keeps any. -/
  start : QueryPlan → String → Settings → Except Diagnostic (Option Materialization)
  /--
  Starts a query that pushes changes to one client, with the text of its statement, the number of
  rows it is limited to, and whether tombstones are left out. -/
  startPush : QueryPlan → String → Option Nat → Bool → Except Diagnostic Unit

namespace Backend

/-- Keeps the rows of every sink that has key columns in memory. -/
def memory : Backend where
  start plan _ config :=
    let schema := plan.step.schema
    .ok <|
      if plan.sink.isSome && schema.isKeyed then
        some (.empty schema config.materializationPartitions)
      else none
  startPush _ _ _ _ := .ok ()

/-- Starts no query at all. -/
def failing : Backend where
  start plan _ _ := .error (.internal s!"cannot start query {plan.id.text}")
  startPush plan _ _ _ := .error (.internal s!"cannot start query {plan.id.text}")

end Backend

structure Engine where
  config : Settings
  catalog : Catalog := .empty
  interceptors : List Interceptor := []
  registry : Registry := .empty
  /-- The next number for generated query ids. -/
  nextNumber : UInt64 := 0
  /-- This node. -/
  home : Endpoint
  placement : Placement
  backend : Backend := .memory

namespace Engine

/-- An engine without entries and queries. Without a placement all partitions are on this node. -/
def new (config : Settings) (home : Endpoint) (placement : Option Placement) : Engine where
  config
  home
  placement := placement.getD (.singleNode home config.materializationPartitions)

/-- A session with the given overrides. -/
def session (engine : Engine) (overrides : SortedMap String String := .empty) : Session :=
  ⟨engine.config, overrides⟩

/-- Has a further interceptor look at every command. -/
def addInterceptor (engine : Engine) (interceptor : Interceptor) : Engine :=
  { engine with interceptors := engine.interceptors ++ [interceptor] }

end Engine

/-- The error of a statement is annotated with its text. -/
def annotated {α : Type} (text : String) : Except Diagnostic α → Except Diagnostic α
  | .ok a => .ok a
  | .error d => .error (d.withStatement text)

end StreamSql
