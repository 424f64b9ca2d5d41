import StreamSql.Catalog.Command
import StreamSql.Config
import StreamSql.Plan.Logical
import StreamSql.Statement

/-!
# Commands of statements

The catalog commands that statements stand for: those that define entries, and those of the sinks
that `CREATE ... AS SELECT` creates.
-/

namespace StreamSql

namespace CreateSourceStatement

/-- The declared columns, the keys ahead. -/
def schema (s : CreateSourceStatement) : Schema :=
  s.elements.foldl (fun schema e => schema.add e.name e.type e.isKey) .empty

/-- The format of a name, or the default one if there is no name. -/
def formatOr (otherwise : Format) : Option String → Except UnknownFormat Format
  | some name => Format.ofName name
  | none => .ok otherwise

def keyFormat (s : CreateSourceStatement) (config : Settings) : Except UnknownFormat Format :=
  formatOr config.defaultKeyFormat (s.properties.keyFormat <|> s.properties.format)

def valueFormat (s : CreateSourceStatement) (config : Settings) :
    Except UnknownFormat Format :=
  formatOr config.defaultValueFormat (s.properties.valueFormat <|> s.properties.format)

def command (s : CreateSourceStatement) (config : Settings) :
    Except UnknownFormat CreateSource := return {
  name := s.name
  kind := s.kind
  schema := s.schema
  keyFormat := ← s.keyFormat config
  valueFormat := ← s.valueFormat config
  topic := s.properties.topic.getD s.name.text
  orReplace := s.orReplace
  ifNotExists := s.ifNotExists
  isQuerySink := false }

end CreateSourceStatement

/-- The command that a statement stands for. -/
def DefinitionStatement.command (config : Settings) :
    DefinitionStatement → Except UnknownFormat CatalogCommand
  | create s => .create <$> s.command config
  | drop s => return .drop ⟨s.name, s.kind, s.ifExists⟩
  | alter s => return .alter ⟨s.name, s.kind, s.addColumns.map fun e => (e.name, e.type)⟩

/-- The command that creates a sink for rows of a kind and a schema. -/
def Destination.command (sink : Destination) (kind : SourceKind) (schema : Schema)
    (ifNotExists : Bool) : CatalogCommand :=
  .create {
    name := sink.into
    kind
    schema
    keyFormat := sink.keyFormat
    valueFormat := sink.valueFormat
    topic := sink.topic
    orReplace := sink.orReplace
    ifNotExists
    isQuerySink := true }

/-- The command of a `CREATE ... AS SELECT IF NOT EXISTS` whose entry is there: it does nothing. -/
def CreateAsSelect.idleCommand (s : CreateAsSelect) (existing : Source) : CatalogCommand :=
  .create {
    name := s.name
    kind := s.kind
    schema := existing.schema
    keyFormat := existing.keyFormat
    valueFormat := existing.valueFormat
    topic := existing.topic
    orReplace := false
    ifNotExists := true
    isQuerySink := true }

end StreamSql
