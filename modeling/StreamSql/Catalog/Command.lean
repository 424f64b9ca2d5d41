import StreamSql.Catalog.Source

/-!
# Catalog commands

The changes that can be asked of the catalog. Each names the one entry it is about.
-/

namespace StreamSql

structure CreateSource where
  name : SourceName
  kind : SourceKind
  schema : Schema
  keyFormat : Format
  valueFormat : Format
  topic : String
  orReplace : Bool
  ifNotExists : Bool
  isQuerySink : Bool
  deriving DecidableEq

structure DropSource where
  name : SourceName
  kind : SourceKind
  ifExists : Bool
  deriving DecidableEq

structure AlterSource where
  name : SourceName
  kind : SourceKind
  newColumns : List (String × DataType)
  deriving DecidableEq

inductive CatalogCommand where
  | create (command : CreateSource)
  | drop (command : DropSource)
  | alter (command : AlterSource)
  deriving DecidableEq

namespace CatalogCommand

/-- The entry that the command is about. -/
def name : CatalogCommand → SourceName
  | create command => command.name
  | drop command => command.name
  | alter command => command.name

end CatalogCommand

/-- The entry that a creation leaves in the catalog. -/
def CreateSource.source (c : CreateSource) (statement : String) : Source where
  name := c.name
  kind := c.kind
  schema := c.schema
  keyFormat := c.keyFormat
  valueFormat := c.valueFormat
  topic := c.topic
  statement := statement
  isQuerySink := c.isQuerySink

end StreamSql
