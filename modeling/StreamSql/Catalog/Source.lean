import StreamSql.Format
import StreamSql.Schema

/-!
# Sources

What the catalog knows about a stream or a table.
-/

namespace StreamSql

inductive SourceKind where
  | stream
  | table
  deriving DecidableEq

namespace SourceKind

def text : SourceKind → String
  | stream => "STREAM"
  | table => "TABLE"

def noun : SourceKind → String
  | stream => "stream"
  | table => "table"

def capitalized : SourceKind → String
  | stream => "Stream"
  | table => "Table"

end SourceKind

structure Source where
  name : SourceName
  kind : SourceKind
  schema : Schema
  keyFormat : Format
  valueFormat : Format
  topic : String
  /-- The statement that created the entry. -/
  statement : String
  /-- Whether the entry was created to hold the result of a query. -/
  isQuerySink : Bool
  deriving DecidableEq

end StreamSql
