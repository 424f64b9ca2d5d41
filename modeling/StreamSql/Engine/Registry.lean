import StreamSql.Engine.Error
import StreamSql.Engine.Plan
import StreamSql.Materialization

/-!
# The registry of queries

The continuous queries that run, by id, and those that have been replaced or removed. Every launch
has a number of its own, by which a query can be followed after it has left the registry.
-/

namespace StreamSql

inductive QueryStatus where
  | running
  | error
  | terminated
  deriving DecidableEq

def QueryStatus.text : QueryStatus → String
  | running => "RUNNING"
  | error => "ERROR"
  | terminated => "TERMINATED"

/-- A continuous query that was launched. -/
structure RunningQuery where
  /-- The number of the launch. -/
  launch : Nat
  plan : QueryPlan
  statement : String
  status : QueryStatus
  /-- The state that the query writes, if it keeps any. -/
  materialization : Option Materialization

namespace RunningQuery

def id (q : RunningQuery) : QueryId := q.plan.id

def sink (q : RunningQuery) : Option SourceName := q.plan.sink

def schema (q : RunningQuery) : Schema := q.plan.step.schema

def summary (q : RunningQuery) : String := q.plan.step.summary q.id

/-- Stops the query. Its state stays. -/
def terminate (q : RunningQuery) : RunningQuery := { q with status := .terminated }

end RunningQuery

structure Registry where
  running : SortedMap QueryId RunningQuery
  /-- The queries that have left the registry, the last one first. -/
  retired : List RunningQuery
  launches : Nat

namespace Registry

def empty : Registry := ⟨.empty, [], 0⟩

instance : Inhabited Registry := ⟨empty⟩

def get? (r : Registry) (id : QueryId) : Option RunningQuery := r.running.get? id

def contains (r : Registry) (id : QueryId) : Bool := r.running.contains id

/-- All queries that run, by ascending id. -/
def queries (r : Registry) : List RunningQuery := r.running.values

/-- A query by the number of its launch, whether it still runs or not. -/
def launched? (r : Registry) (launch : Nat) : Option RunningQuery :=
  (r.queries ++ r.retired).find? (·.launch == launch)

/-- The queries that write an entry, by ascending id. -/
def writers (r : Registry) (sink : SourceName) : List RunningQuery :=
  r.queries.filter (·.sink == some sink)

/-- The only query that writes an entry, if there is one. -/
def materializing? (r : Registry) (name : SourceName) :
    Except EngineError (Option RunningQuery) :=
  match r.writers name with
  | [] => .ok none
  | [only] => .ok (some only)
  | writers => .error (.multipleMaterializations name (writers.map (·.id)))

/-! ## Changes -/

/-- Puts the query of an id among those that have left, if one runs. -/
def retire (r : Registry) (id : QueryId) : Registry :=
  match r.get? id with
  | some old => { r with running := r.running.erase id, retired := old.terminate :: r.retired }
  | none => r

/--
Registers a query as running. A running query with the same id is terminated if the plan may take
its place, and refuses the registration otherwise. -/
def register (r : Registry) (plan : QueryPlan) (statement : String)
    (materialization : Option Materialization) : Except EngineError (RunningQuery × Registry) :=
  if r.contains plan.id && !plan.orReplace then .error (.duplicateQueryId plan.id)
  else
    let query : RunningQuery := ⟨r.launches, plan, statement, .running, materialization⟩
    let rest := r.retire plan.id
    .ok (query,
      { rest with running := rest.running.insert plan.id query, launches := r.launches + 1 })

/-- Terminates a query and takes it out. -/
def remove (r : Registry) (id : QueryId) : Option RunningQuery × Registry :=
  ((r.get? id).map (·.terminate), r.retire id)

/-- Replaces what is known of a running query. -/
def update (r : Registry) (id : QueryId) (f : RunningQuery → RunningQuery) : Registry :=
  match r.get? id with
  | some query => { r with running := r.running.insert id (f query) }
  | none => r

def setStatus (r : Registry) (id : QueryId) (status : QueryStatus) : Registry :=
  r.update id fun q => { q with status }

def setMaterialization (r : Registry) (id : QueryId) (m : Materialization) : Registry :=
  r.update id fun q => { q with materialization := some m }

end Registry

end StreamSql
