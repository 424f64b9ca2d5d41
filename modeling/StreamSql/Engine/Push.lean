import StreamSql.Engine.Planning

/-!
# Push queries

A query that keeps pushing changes to one client. It is planned and started like a continuous query,
but it is not registered and has no sink.
-/

namespace StreamSql

structure PushQuery where
  plan : QueryPlan
  statement : String
  limit : Option Nat
  excludeTombstones : Bool

namespace PushQuery

def id (q : PushQuery) : QueryId := q.plan.id

def schema (q : PushQuery) : Schema := q.plan.step.schema

def summary (q : PushQuery) : String := q.plan.step.summary q.id

end PushQuery

namespace Engine

/-- The plan of a push query. The token makes its id unique. -/
def planPush (engine : Engine) (config : Settings) (query : Query) (token : String) :
    Except Diagnostic (QueryPlan × Option Nat) := do
  if query.isPull then throw (diagnostic (EngineError.notExecutable "pull SELECT"))
  let logical ← reported (query.plan none engine.catalog config)
  match logical.sourceNames with
  | [] => throw (.internal "query planned without a source")
  | first :: _ =>
    let plan : QueryPlan := {
      sources := .ofList logical.sourceNames
      sink := none
      step := logical.lower
      id := .ofPush first token
      orReplace := false }
    return (plan, logical.limit?)

/-- Starts a push query. -/
def push (engine : Engine) (config : Settings) (query : Query) (text : String)
    (excludeTombstones : Bool) (token : String) : Except Diagnostic PushQuery :=
  annotated text do
    let (plan, limit) ← engine.planPush config query token
    engine.backend.startPush plan text limit excludeTombstones
    return { plan, statement := text, limit, excludeTombstones }

end Engine

end StreamSql
