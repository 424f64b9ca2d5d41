import StreamSql.Engine.Planning

/-!
# Executing plans

The catalog command of a plan is applied first, then its query is launched. A launch that fails
takes the command back.
-/

namespace StreamSql

/-- What the execution of a plan reports. -/
structure ExecutionReport where
  message : String
  /-- The query that was launched. -/
  query : Option RunningQuery

namespace Engine

/-- Starts a query and registers it. -/
def launch (engine : Engine) (config : Settings) (query : QueryPlan) (text : String) :
    Except Diagnostic (RunningQuery × Registry) := do
  let materialization ← engine.backend.start query text config
  reported (engine.registry.register query text materialization)

/-- Applies the command of a plan, if it has one. -/
def applyCommand (engine : Engine) (plan : Plan) : Except Diagnostic (Option Applied) × Catalog :=
  match plan.command with
  | none => (.ok none, engine.catalog)
  | some command =>
    let (result, catalog) :=
      engine.catalog.apply engine.interceptors command plan.statement plan.sources
    (result.map some, catalog)

/-- Launches the query of a plan whose command has been applied. -/
def launchAfter (engine : Engine) (config : Settings) (query : QueryPlan) (text : String)
    (applied : Option Applied) : Except Diagnostic ExecutionReport × Engine :=
  match engine.launch config query text with
  | .ok (running, registry) =>
    (.ok ⟨s!"Created query with ID {running.id.text}", some running⟩, { engine with registry })
  | .error d =>
    match applied with
    | some applied => (.error d, { engine with catalog := engine.catalog.revert applied })
    | none => (.error d, engine)

def executePlan (engine : Engine) (config : Settings) (plan : Plan) :
    Except Diagnostic ExecutionReport × Engine :=
  match engine.applyCommand plan with
  | (.error d, catalog) => (.error d, { engine with catalog })
  | (.ok applied, catalog) =>
    match plan.query with
    | none => (.ok ⟨(applied.map (·.message)).getD "", none⟩, { engine with catalog })
    | some query => { engine with catalog }.launchAfter config query plan.statement applied

/-- Executes a plan, under the settings that its session gives. -/
def execute (engine : Engine) (config : Settings) (plan : Plan) :
    Except Diagnostic ExecutionReport × Engine :=
  let (result, engine) := engine.executePlan config plan
  (annotated plan.statement result, engine)

/-- Executes a plan in a session. -/
def executeIn (engine : Engine) (session : Session) (plan : Plan) :
    Except Diagnostic ExecutionReport × Engine :=
  match reported session.effective with
  | .error d => (.error (d.withStatement plan.statement), engine)
  | .ok config => engine.execute config plan

/-- Plans a statement and executes the plan. -/
def run (engine : Engine) (config : Settings) (statement : Statement) (text : String) :
    Except Diagnostic ExecutionReport × Engine :=
  match engine.plan config statement text with
  | (.error d, engine) => (.error d, engine)
  | (.ok plan, engine) => engine.execute config plan

end Engine

end StreamSql
