import StreamSql.Catalog.Source
import StreamSql.Query

/-!
# Statements

Parsed statements. A statement that writes keeps a query running and writes its result into a
catalog entry: `CREATE ... AS SELECT` or `INSERT INTO`.
-/

namespace StreamSql

/-- A column as a `CREATE` or `ALTER` statement declares it. -/
structure ColumnDeclaration where
  name : String
  type : DataType
  isKey : Bool
  deriving DecidableEq

/-- The `WITH` clause of a `CREATE STREAM` or `CREATE TABLE`. -/
structure SourceProperties where
  topic : Option String := none
  keyFormat : Option String := none
  valueFormat : Option String := none
  /-- Sets both formats. -/
  format : Option String := none
  deriving DecidableEq

structure CreateSourceStatement where
  name : SourceName
  kind : SourceKind
  elements : List ColumnDeclaration
  properties : SourceProperties := {}
  orReplace : Bool := false
  ifNotExists : Bool := false
  deriving DecidableEq

structure DropSourceStatement where
  name : SourceName
  kind : SourceKind
  ifExists : Bool
  deriving DecidableEq

structure AlterSourceStatement where
  name : SourceName
  kind : SourceKind
  addColumns : List ColumnDeclaration
  deriving DecidableEq

/-- A statement that defines catalog entries. -/
inductive DefinitionStatement where
  | create (statement : CreateSourceStatement)
  | drop (statement : DropSourceStatement)
  | alter (statement : AlterSourceStatement)
  deriving DecidableEq

/-- The `WITH` clause of a `CREATE ... AS SELECT`. -/
structure SinkProperties where
  topic : Option String := none
  keyFormat : Option String := none
  valueFormat : Option String := none
  /-- Sets both formats. -/
  format : Option String := none
  queryId : Option String := none
  deriving DecidableEq

namespace SinkProperties

/-- The key format asked for, by name. -/
def keyFormatName? (p : SinkProperties) : Option String := p.keyFormat <|> p.format

/-- The value format asked for, by name. -/
def valueFormatName? (p : SinkProperties) : Option String := p.valueFormat <|> p.format

end SinkProperties

structure CreateAsSelect where
  name : SourceName
  kind : SourceKind
  query : Query
  properties : SinkProperties := {}
  orReplace : Bool := false
  ifNotExists : Bool := false

structure InsertInto where
  target : SourceName
  query : Query
  queryId : Option String := none

inductive WriteStatement where
  | createAsSelect (statement : CreateAsSelect)
  | insertInto (statement : InsertInto)

/-- Where a statement writes. -/
structure Sink where
  name : SourceName
  /-- Whether the statement creates the entry. -/
  create : Bool
  orReplace : Bool
  properties : SinkProperties
  deriving DecidableEq

namespace WriteStatement

def query : WriteStatement → Query
  | createAsSelect s => s.query
  | insertInto s => s.query

def sink : WriteStatement → Sink
  | createAsSelect s => ⟨s.name, true, s.orReplace, s.properties⟩
  | insertInto s => ⟨s.target, false, false, {}⟩

/-- The query id that the statement asks for. -/
def queryId? : WriteStatement → Option String
  | createAsSelect s => s.properties.queryId
  | insertInto s => s.queryId

def orReplace : WriteStatement → Bool
  | createAsSelect s => s.orReplace
  | insertInto _ => false

def ifNotExists : WriteStatement → Bool
  | createAsSelect s => s.ifNotExists
  | insertInto _ => false

end WriteStatement

inductive Statement where
  | define (statement : DefinitionStatement)
  | write (write : WriteStatement)
  | query (query : Query)
  | setProperty (property value : String)
  | unsetProperty (property : String)
  | listSources
  | describeSource (name : SourceName)
  | terminateQuery (id : QueryId)
  | explain (statement : Statement)

namespace Statement

/-- Whether the engine plans and executes the statement itself. -/
def isExecutable : Statement → Bool
  | define _ | write _ | query _ => true
  | _ => false

def kindName : Statement → String
  | define (.create s) => s!"CREATE {s.kind.text}"
  | define (.drop _) => "DROP"
  | define (.alter _) => "ALTER"
  | write (.createAsSelect s) => s!"CREATE {s.kind.text} AS SELECT"
  | write (.insertInto _) => "INSERT INTO"
  | query _ => "SELECT"
  | setProperty _ _ => "SET"
  | unsetProperty _ => "UNSET"
  | listSources => "LIST"
  | describeSource _ => "DESCRIBE"
  | terminateQuery _ => "TERMINATE"
  | explain _ => "EXPLAIN"

end Statement

end StreamSql
