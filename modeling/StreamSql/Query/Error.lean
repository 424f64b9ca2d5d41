import StreamSql.Catalog.Source

/-!
# Query errors

Why a query is refused: its names do not resolve, or no plan exists for it.
-/

namespace StreamSql

inductive QueryError where
  | sourceNotFound (name : SourceName)
  | columnNotFound (column : String)
  | ambiguousColumn (column : String) (candidates : List String)
  | duplicateAlias (aliasName : String)
  | unsupportedJoinCriteria (criteria : String)
  | invalidJoinOrder (left right : SourceKind)
  | aggregateWithoutGroupBy
  | invalidAggregateArgument (function argument : String)
  | keyMissingFromProjection (keys : List String)
  | nonColumnGroupBy (expression : String)
  | nonAggregateColumn (column : String)
  | duplicateColumn (name : String)
  | pullJoin
  | pullGroupBy
  | pullLimit
  | pullTableScanDisabled (name : SourceName)
  | invalidKeyValue (column value : String)
  | format (error : UnknownFormat)
  deriving DecidableEq

namespace QueryError

def summary : QueryError → String
  | sourceNotFound name => s!"{name.text} does not exist"
  | columnNotFound column => s!"Column `{column}` cannot be resolved"
  | ambiguousColumn column _ => s!"Column `{column}` is ambiguous"
  | duplicateAlias aliasName => s!"Source alias `{aliasName}` is used more than once"
  | unsupportedJoinCriteria _ => "Unsupported join criteria"
  | invalidJoinOrder _ _ => "Invalid join order"
  | aggregateWithoutGroupBy => "Aggregate functions require GROUP BY"
  | invalidAggregateArgument function _ => s!"Invalid argument to {function}"
  | keyMissingFromProjection _ => "Key missing from projection"
  | nonColumnGroupBy _ => "GROUP BY supports column references only"
  | nonAggregateColumn _ => "Non-aggregate SELECT expression not part of GROUP BY"
  | duplicateColumn name => s!"Duplicate output column `{name}`"
  | pullJoin => "Pull queries do not support joins"
  | pullGroupBy => "Pull queries do not support GROUP BY"
  | pullLimit => "Pull queries do not support LIMIT"
  | pullTableScanDisabled _ => "Pull query requires a table scan"
  | invalidKeyValue _ _ => "Invalid key value"
  | format error => s!"Unknown format {error.name}"

instance : Reportable QueryError where
  diagnostic
    | sourceNotFound name =>
      { code := "ANALYSIS_001", message := s!"{name.text} does not exist." }
    | columnNotFound column =>
      { code := "ANALYSIS_002"
        message := s!"Column '{column}' cannot be resolved."
        label := some "unknown column" }
    | ambiguousColumn column candidates =>
      { code := "ANALYSIS_003"
        message := s!"Column '{column}' is ambiguous. " ++
          s!"Could be any of: {Text.commaSeparated candidates}"
        help := some "Qualify the column with the source name or alias" }
    | duplicateAlias aliasName =>
      { code := "ANALYSIS_004"
        message := s!"Alias '{aliasName}' is used by more than one source."
        help := some "Give each source in the FROM clause a distinct alias" }
    | unsupportedJoinCriteria criteria =>
      { code := "PLAN_001"
        message := s!"Unsupported join criteria: {criteria}"
        help := some <| "Joins must be an equality between a column of the left source " ++
          "and a column of the right source" }
    | invalidJoinOrder left right =>
      { code := "PLAN_002"
        message := "Join between invalid operands requested: " ++
          s!"left type: {left.text}, right type: {right.text}"
        help := some "A stream must appear on the left of a stream-table join" }
    | aggregateWithoutGroupBy =>
      { code := "PLAN_003"
        message := "Use of aggregate functions requires a GROUP BY clause." }
    | invalidAggregateArgument function argument =>
      { code := "PLAN_004"
        message := s!"Function '{function}' does not accept parameter '{argument}'." }
    | keyMissingFromProjection keys =>
      { code := "PLAN_005"
        message := "Key missing from projection. The query used to build a table must include " ++
          s!"the key columns {Text.commaSeparated keys} in its projection." }
    | nonColumnGroupBy expression =>
      { code := "PLAN_006"
        message := s!"GROUP BY expression {expression} is not a column reference."
        help := some "Group by source columns only" }
    | nonAggregateColumn column =>
      { code := "PLAN_007"
        message := s!"Non-aggregate SELECT expression(s) not part of GROUP BY: {column}"
        help := some "Either add the column to the GROUP BY or remove it from the SELECT" }
    | duplicateColumn name =>
      { code := "PLAN_008"
        message := s!"The projection contains the column name {name} more than once."
        help := some "Alias one of the columns with AS" }
    | pullJoin =>
      { code := "PULL_002", message := "Pull queries don't support JOIN clauses." }
    | pullGroupBy =>
      { code := "PULL_003"
        message := "Pull queries don't support GROUP BY clauses or aggregate functions." }
    | pullLimit =>
      { code := "PULL_004", message := "Pull queries don't support LIMIT clauses." }
    | pullTableScanDisabled name =>
      { code := "PULL_005"
        message := s!"Pull query against {name.text} requires a table scan, which is disabled. " ++
          "The WHERE clause must bind every key column with '=' or IN."
        help := some "Enable table scans with 'rill.query.pull.table.scan.enabled'" }
    | invalidKeyValue column value =>
      { code := "PULL_008"
        message := s!"Value {value} is not valid for key column {column}." }
    | format error => diagnostic error

end QueryError

end StreamSql
