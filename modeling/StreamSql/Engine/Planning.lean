import StreamSql.Engine
import StreamSql.Engine.Command
import StreamSql.Engine.QueryIds
import StreamSql.Plan.OfAnalysis
import StreamSql.Step

/-!
# Planning statements

The plan of a statement under the settings of a session. Planning changes nothing but the next
number for query ids, which stays used when a later check refuses the statement.
-/

namespace StreamSql.Engine

/-- Refuses key formats that are not enabled. -/
def checkKeyFormat (config : Settings) (format : Format) : Except Diagnostic Unit :=
  if config.isKeyFormatEnabled format then .ok ()
  else .error (diagnostic (EngineError.unsupportedKeyFormat format))

/-- Plans a statement that defines entries. -/
def planDefinition (config : Settings) (statement : DefinitionStatement) (text : String) :
    Except Diagnostic Plan := do
  match statement with
  | .create s => checkKeyFormat config (← reported (s.keyFormat config))
  | _ => pure ()
  return .ofCommand text (← reported (statement.command config))

/-- What is known of the query of a statement ahead of its id. -/
inductive Draft where
  /-- There is nothing to launch. -/
  | idle (command : CatalogCommand)
  | query (logical : LogicalPlan)

/-- Checks the key format that a `CREATE ... AS SELECT` asks for by name. -/
def checkAskedFormat (config : Settings) (s : CreateAsSelect) : Except Diagnostic Unit := do
  match s.properties.keyFormatName? with
  | some name => checkKeyFormat config (← reported (Format.ofName name))
  | none => pure ()

/-- Plans the query of a statement that writes. -/
def draftQuery (engine : Engine) (config : Settings) (statement : WriteStatement) :
    Except Diagnostic Draft := do
  let logical ← reported (statement.query.plan (some statement.sink) engine.catalog config)
  return .query logical

def draft (engine : Engine) (config : Settings) (statement : WriteStatement) :
    Except Diagnostic Draft := do
  match statement with
  | .createAsSelect s =>
    checkAskedFormat config s
    match engine.catalog.get? s.name with
    | some existing =>
      if s.ifNotExists then return .idle (s.idleCommand existing)
      else engine.draftQuery config statement
    | none => engine.draftQuery config statement
  | .insertInto _ => engine.draftQuery config statement

/-- Refuses an entry that the rows of a plan cannot be written into. -/
def checkSink (logical : LogicalPlan) (existing : Source) : Except EngineError Unit := do
  if existing.kind ≠ logical.kind then
    throw (.sinkKindMismatch existing.name existing.kind logical.kind)
  if !logical.schema.fitsInto existing.schema then
    throw (.sinkSchemaMismatch logical.schema existing.schema)

/-- The command that the sink of a query needs. The entry has to match if it is there, and has to be
there unless the statement creates it. -/
def sinkCommand (engine : Engine) (statement : WriteStatement) (logical : LogicalPlan)
    (sink : Destination) : Except EngineError (Option CatalogCommand) := do
  match engine.catalog.get? sink.into with
  | some existing => checkSink logical existing
  | none => if !sink.create then throw (.unknownSink sink.into)
  if sink.create then
    return some (sink.command logical.kind logical.schema statement.ifNotExists)
  else return none

/-- Refuses a `CREATE ... AS SELECT` whose query gives rows of the other kind. -/
def checkShape (statement : WriteStatement) (kind : SourceKind) : Except EngineError Unit :=
  match statement with
  | .createAsSelect s => if s.kind ≠ kind then .error (.statementShape kind) else .ok ()
  | .insertInto _ => .ok ()

/-- The plan of a statement that writes, once its query has an id. -/
def complete (engine : Engine) (statement : WriteStatement) (text : String)
    (logical : LogicalPlan) (id : QueryId) : Except Diagnostic Plan := do
  if statement.queryId?.isSome && !statement.orReplace && engine.registry.contains id then
    throw (diagnostic (EngineError.duplicateQueryId id))
  match logical.destination? with
  | none => throw (.internal "query container planned without a sink")
  | some sink =>
    let command ← reported (engine.sinkCommand statement logical sink)
    reported (checkShape statement logical.kind)
    return .ofQuery text command {
      sources := .ofList logical.sourceNames
      sink := some sink.into
      step := logical.lower
      id
      orReplace := statement.orReplace }

def planWrite (engine : Engine) (config : Settings) (statement : WriteStatement)
    (text : String) : Except Diagnostic Plan × Engine :=
  match engine.draft config statement with
  | .error d => (.error d, engine)
  | .ok (.idle command) => (.ok (.ofCommand text command), engine)
  | .ok (.query logical) =>
    let (id, next) := QueryId.allocate statement engine.registry config.createOrReplaceEnabled
      engine.nextNumber
    (reported id >>= engine.complete statement text logical, { engine with nextNumber := next })

/-- Plans a statement, under the settings that its session gives. -/
def plan (engine : Engine) (config : Settings) (statement : Statement) (text : String) :
    Except Diagnostic Plan × Engine :=
  let (result, engine) :=
    match statement with
    | .define s => (planDefinition config s text, engine)
    | .write c => engine.planWrite config c text
    | other => (.error (diagnostic (EngineError.notExecutable other.kindName)), engine)
  (annotated text result, engine)

end StreamSql.Engine
