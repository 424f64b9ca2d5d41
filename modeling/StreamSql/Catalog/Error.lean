import StreamSql.Catalog.Source

/-!
# Catalog errors

Why a catalog command is refused.
-/

namespace StreamSql

inductive CatalogError where
  | alreadyExists (name : SourceName) (kind : SourceKind)
  | notFound (name : SourceName)
  | kindMismatch (name : SourceName) (actual expected : SourceKind) (operation : String)
  | referenced (name : SourceName) (readers : List SourceName)
  | columnAlreadyExists (name : SourceName) (column : String)
  | alterQuerySink (name : SourceName)
  deriving DecidableEq

namespace CatalogError

def summary : CatalogError → String
  | alreadyExists name kind => s!"{kind.text} `{name.text}` already exists"
  | notFound name => s!"Source `{name.text}` does not exist"
  | kindMismatch name actual expected _ =>
    s!"Source `{name.text}` is a {actual.text}, not a {expected.text}"
  | referenced name _ => s!"Source `{name.text}` is referenced by other sources"
  | columnAlreadyExists name column => s!"Column `{column}` already exists in `{name.text}`"
  | alterQuerySink name =>
    s!"Source `{name.text}` was created by a query and cannot be altered"

instance : Reportable CatalogError where
  diagnostic
    | alreadyExists name kind =>
      { code := "CATALOG_001"
        message := s!"Cannot add {kind.noun} '{name.text}': " ++
          s!"A {kind.noun} with the same name already exists"
        label := some "duplicate source"
        help := some "Use CREATE OR REPLACE to redefine it, or IF NOT EXISTS to skip creation" }
    | notFound name =>
      { code := "CATALOG_002", message := s!"Source {name.text} does not exist." }
    | kindMismatch name actual expected operation =>
      { code := "CATALOG_003"
        message := s!"Incompatible data source type is {actual.text}, " ++
          s!"but statement was {operation} {expected.text}"
        label := some s!"`{name.text}` is a {actual.noun}"
        help := some s!"Use {operation} {actual.text} instead" }
    | referenced name readers =>
      { code := "CATALOG_004"
        message := s!"Cannot drop {name.text}.\n" ++
          "The following streams and/or tables read from this source: " ++
          s!"[{Text.commaSeparated (readers.map SourceName.text)}].\n" ++
          s!"You need to drop them before dropping {name.text}." }
    | columnAlreadyExists name column =>
      { code := "CATALOG_005"
        message := s!"Cannot add column `{column}` to schema of `{name.text}`. " ++
          "A column with the same name already exists." }
    | alterQuerySink name =>
      { code := "CATALOG_006"
        message := "ALTER command is not supported for CREATE ... AS SELECT statements. " ++
          s!"`{name.text}` was created by a query." }

end CatalogError

end StreamSql
