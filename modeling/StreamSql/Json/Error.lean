import StreamSql.Catalog.Error
import StreamSql.Engine.Error
import StreamSql.Json.Catalog
import StreamSql.Json.Routing
import StreamSql.Query.Error

/-!
# Errors from JSON

An error is described by the name of its kind and an object of the details. A kind that does not
exist is told apart from details that do not fit.
-/

namespace StreamSql

/-- Reads an error of a kind from its details; none if there is no such kind. -/
def CatalogError.ofKind? (details : Json) : String → Option (Except DecodeError CatalogError)
  | "AlreadyExists" => some do
    return .alreadyExists (← details.field "name") (← details.field "kind")
  | "NotFound" => some do return .notFound (← details.field "name")
  | "KindMismatch" => some do
    return .kindMismatch (← details.field "name") (← details.field "actual")
      (← details.field "expected") (← details.field "operation")
  | "Referenced" => some do
    return .referenced (← details.field "name") (← details.field "referenced_by")
  | "ColumnAlreadyExists" => some do
    return .columnAlreadyExists (← details.field "name") (← details.field "column")
  | "AlterQuerySink" => some do return .alterQuerySink (← details.field "name")
  | _ => none

/-- Reads an error of a kind from its details; none if there is no such kind. -/
def QueryError.ofKind? (details : Json) : String → Option (Except DecodeError QueryError)
  | "SourceNotFound" => some do return .sourceNotFound (← details.field "name")
  | "ColumnNotFound" => some do return .columnNotFound (← details.field "column")
  | "AmbiguousColumn" => some do
    return .ambiguousColumn (← details.field "column") (← details.field "candidates")
  | "DuplicateAlias" => some do return .duplicateAlias (← details.field "alias")
  | "UnsupportedJoinCriteria" => some do
    return .unsupportedJoinCriteria (← details.field "criteria")
  | "InvalidJoinOrder" => some do
    return .invalidJoinOrder (← details.field "left") (← details.field "right")
  | "AggregateWithoutGroupBy" => some do return .aggregateWithoutGroupBy
  | "InvalidAggregateArgument" => some do
    return .invalidAggregateArgument (← details.field "function") (← details.field "argument")
  | "KeyMissingFromProjection" => some do return .keyMissingFromProjection (← details.field "keys")
  | "NonColumnGroupBy" => some do return .nonColumnGroupBy (← details.field "expression")
  | "NonAggregateColumn" => some do return .nonAggregateColumn (← details.field "column")
  | "DuplicateColumn" => some do return .duplicateColumn (← details.field "name")
  | "PullQueryJoin" => some do return .pullJoin
  | "PullQueryGroupBy" => some do return .pullGroupBy
  | "PullQueryLimit" => some do return .pullLimit
  | "PullQueryTableScanDisabled" => some do return .pullTableScanDisabled (← details.field "name")
  | "InvalidKeyValue" => some do
    return .invalidKeyValue (← details.field "column") (← details.field "value")
  | _ => none

/-- Reads an error of a kind from its details; none if there is no such kind. -/
def EngineError.ofKind? (details : Json) : String → Option (Except DecodeError EngineError)
  | "NotExecutable" => some do return .notExecutable (← details.field "kind")
  | "StatementShape" => some do return .statementShape (← details.field "produced")
  | "UnsupportedKeyFormat" => some do return .unsupportedKeyFormat (← details.field "format")
  | "UnknownSink" => some do return .unknownSink (← details.field "name")
  | "SinkKindMismatch" => some do
    return .sinkKindMismatch (← details.field "name") (← details.field "sink")
      (← details.field "result")
  | "SinkSchemaMismatch" => some do
    return .sinkSchemaMismatch (← details.fieldWith "result" none fun m _ => Schema.ofShort m)
      (← details.fieldWith "sink" none fun m _ => Schema.ofShort m)
  | "DuplicateQueryId" => some do return .duplicateQueryId (← details.field "id")
  | "InvalidQueryId" => some do return .invalidQueryId (← details.field "id")
  | "ReservedQueryIdPrefix" => some do
    return .reservedQueryId (← details.field "id") (← details.field "prefix")
  | "SinkAlreadyExists" => some do
    return .sinkAlreadyExists (← details.field "name") (← details.field "kind")
  | "MultipleWriters" => some do
    return .multipleWriters (← details.field "name") (← details.field "queries")
  | "NoMaterialization" => some do return .noMaterialization (← details.field "name")
  | "MultipleMaterializations" => some do
    return .multipleMaterializations (← details.field "name") (← details.field "queries")
  | "NoQueryableState" => some do
    return .noQueryableState (← details.field "name") (← details.field "query")
  | _ => none

/-- Reads an error of a kind from its details; none if there is no such kind. -/
def RouteError.ofKind? (details : Json) : String → Option (Except DecodeError RouteError)
  | "NoAvailableReplica" => some do
    return .noAvailableReplica (← details.field "partition") (← details.field "failures")
  | "Timeout" => some do
    return .timeout (← details.field "endpoint") (.ofMicros (← details.field "timeout_us"))
  | "Connection" => some do
    return .connection (← details.field "endpoint") (← details.field "reason")
  | "Rejected" => some do return .rejected (← details.field "endpoint") (← details.field "reason")
  | "LocalHostNotEligible" => some do return .localHostNotEligible (← details.field "partition")
  | _ => none

end StreamSql
