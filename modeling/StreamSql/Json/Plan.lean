import StreamSql.Engine.Registry
import StreamSql.Json.Step

/-!
# JSON forms of plans and queries

A plan without a command and without a query is refused when it is read.
-/

namespace StreamSql

instance : JsonForm QueryPlan where
  toJson q := .object
    [("sources", toJson q.sources), ("sink", toJson q.sink), ("physical_plan", toJson q.step),
      ("query_id", toJson q.id), ("or_replace", toJson q.orReplace)]
  ofJson j := return {
    sources := ← j.fieldAt 0 "sources"
    sink := ← j.fieldAt 1 "sink"
    step := ← j.fieldAt 2 "physical_plan"
    id := ← j.fieldAt 3 "query_id"
    orReplace := ← j.fieldAt 4 "or_replace" }

instance : JsonForm Plan where
  toJson p := .object
    [("statement_text", toJson p.statement), ("ddl_command", toJson p.command),
      ("query_plan", toJson p.query)]
  ofJson j := do
    let statement ← j.fieldAt 0 "statement_text"
    let command : Option CatalogCommand ← j.fieldAt 1 "ddl_command"
    let query : Option QueryPlan ← j.fieldAt 2 "query_plan"
    if carries : command.isSome ∨ query.isSome then return ⟨statement, command, query, carries⟩
    else throw .emptyPlan

namespace QueryStatus

def tag : QueryStatus → String
  | running => "Running"
  | error => "Error"
  | terminated => "Terminated"

instance : JsonForm QueryStatus where
  toJson s := .text s.tag
  ofJson := Json.readName tag [running, error, terminated]

end QueryStatus

end StreamSql
