import StreamSql.Catalog.Source

/-!
# Engine errors

Why a statement is not planned, a query is not launched, or a pull query finds nothing to read.
-/

namespace StreamSql

inductive EngineError where
  | notExecutable (kind : String)
  | statementShape (produced : SourceKind)
  | unsupportedKeyFormat (format : Format)
  | unknownSink (name : SourceName)
  | sinkKindMismatch (name : SourceName) (sink result : SourceKind)
  | sinkSchemaMismatch (result sink : Schema)
  | duplicateQueryId (id : QueryId)
  | invalidQueryId (id : String)
  | reservedQueryId (id reserved : String)
  | sinkAlreadyExists (name : SourceName) (kind : SourceKind)
  | multipleWriters (name : SourceName) (queries : List QueryId)
  | noMaterialization (name : SourceName)
  | multipleMaterializations (name : SourceName) (queries : List QueryId)
  | noQueryableState (name : SourceName) (query : QueryId)
  deriving DecidableEq

namespace EngineError

def summary : EngineError → String
  | notExecutable _ => "Statement not executable"
  | statementShape _ => "Invalid result type"
  | unsupportedKeyFormat format => s!"Unsupported key format {format.name}"
  | unknownSink name => s!"{name.text} does not exist"
  | sinkKindMismatch _ _ _ => "Incompatible data sink and query result"
  | sinkSchemaMismatch _ _ => "Incompatible schema between results and sink"
  | duplicateQueryId id => s!"Query ID {id.text} already exists"
  | invalidQueryId id => s!"Invalid query ID {id}"
  | reservedQueryId id _ => s!"Query ID {id} uses a reserved prefix"
  | sinkAlreadyExists name kind => s!"Cannot add {kind.text} {name.text}"
  | multipleWriters name _ => s!"{name.text} has more than one writer"
  | noMaterialization name => s!"{name.text} is not materialized"
  | multipleMaterializations name _ => s!"{name.text} is materialized more than once"
  | noQueryableState name _ => s!"{name.text} has no queryable state"

/-- The ids of queries, between commas. -/
def listed (queries : List QueryId) : String := Text.commaSeparated (queries.map (·.text))

instance : Reportable EngineError where
  diagnostic
    | notExecutable kind =>
      { code := "STMT_001"
        message := "Statement not executable"
        label := some s!"{kind} statements are not planned by the engine" }
    | statementShape produced =>
      { code := "STMT_002"
        message := s!"Invalid result type. Your SELECT query produces a {produced.text}. " ++
          s!"Please use CREATE {produced.text} AS SELECT statement instead." }
    | unsupportedKeyFormat format =>
      { code := "FORMAT_001"
        message := s!"The key format '{format.name}' is not currently supported."
        help := some "Enable the format with 'rill.key.formats.enabled'" }
    | unknownSink name => { code := "SINK_001", message := s!"{name.text} does not exist." }
    | sinkKindMismatch name sink result =>
      { code := "SINK_002"
        message := "Incompatible data sink and query result. " ++
          s!"Data sink ({name.text}) type is {sink.text} " ++
            s!"but select query result is {result.text}." }
    | sinkSchemaMismatch result sink =>
      { code := "SINK_003"
        message := "Incompatible schema between results and sink.\n" ++
          s!"Result schema is {result.text}\n" ++ s!"Sink schema is {sink.text}" }
    | duplicateQueryId id =>
      { code := "QUERY_001"
        message := s!"Query ID '{id.text}' already exists."
        help := some "Use CREATE OR REPLACE to replace the running query" }
    | invalidQueryId id =>
      { code := "QUERY_002"
        message := "Query IDs must only contain alphanumeric characters and underscores. " ++
          s!"Got: '{id}'" }
    | reservedQueryId id reserved =>
      { code := "QUERY_003"
        message := s!"Query IDs must not start with the reserved prefix '{reserved}'. " ++
          s!"Got: '{id}'" }
    | sinkAlreadyExists name kind =>
      { code := "QUERY_004"
        message := s!"Cannot add {kind.noun} '{name.text}': " ++
          s!"A {kind.noun} with the same name already exists" }
    | multipleWriters name queries =>
      { code := "QUERY_005"
        message := s!"REPLACE for sink {name.text} is not supported because " ++
          s!"there are multiple queries writing into it: {listed queries}" }
    | noMaterialization name =>
      { code := "PULL_001"
        message := s!"'{name.text}' is not materialized."
        help := some <| "Pull queries need a persistent query writing into the source, " ++
          "for example CREATE TABLE AS SELECT" }
    | multipleMaterializations name queries =>
      { code := "PULL_006"
        message := s!"'{name.text}' is materialized by more than one query: {listed queries}" }
    | noQueryableState name query =>
      { code := "PULL_007"
        message := s!"Query {query.text} writing into '{name.text}' has no queryable state."
        help := some "Only sources with key columns can be queried by key" }

end EngineError

end StreamSql
