import StreamSql.Engine.Registry
import StreamSql.Statement

/-!
# Query ids

The ids of continuous queries. An explicit id is put into upper case; it consists of letters, digits
and underscores and does not look like a generated one. A generated id names the kind of statement,
the sink of a `CREATE ... AS SELECT`, and a number that is used once.
-/

namespace StreamSql.QueryId

def insertStem : String := "INSERTQUERY_"

def tableStem : String := "CTAS_"

def streamStem : String := "CSAS_"

/-- What only generated ids start with. -/
def reservedStems : List String := [insertStem, tableStem, streamStem]

def ofInsert (number : UInt64) : QueryId := ⟨insertStem ++ toString number.toNat⟩

def ofSink (kind : SourceKind) (sink : SourceName) (number : UInt64) : QueryId :=
  let stem := match kind with
    | .stream => streamStem
    | .table => tableStem
  ⟨s!"{stem}{Text.upper sink.text}_{number.toNat}"⟩

/-- The id of a query that pushes changes of `source` to one client. -/
def ofPush (source : SourceName) (token : String) : QueryId := ⟨s!"transient_{source.text}_{token}"⟩

/-- The id of a pull query. -/
def ofPull (token : String) : QueryId := ⟨s!"query_{token}"⟩

def isIdChar (c : Char) : Bool := c.isAlphanum || c == '_'

/-- The id that a statement asks for. -/
def explicit (text : String) : Except EngineError QueryId :=
  let id := Text.upper (Text.trim text)
  if id.isEmpty || !id.toList.all isIdChar then .error (.invalidQueryId text)
  else
    match reservedStems.find? fun stem => stem.toList.isPrefixOf id.toList with
    | some stem => .error (.reservedQueryId text stem)
    | none => .ok ⟨id⟩

/--
The id of the query of a `CREATE ... AS SELECT` that asks for none, and the next number. If the sink
has a writer, the query has to be allowed to take the writer's place, and its id. -/
def ofCreate (s : CreateAsSelect) (registry : Registry) (replaces : Bool) (next : UInt64) :
    Except EngineError QueryId × UInt64 :=
  match (registry.writers s.name).map (·.id) with
  | [] => (.ok (ofSink s.kind s.name next), next + 1)
  | [writer] =>
    if s.orReplace && replaces then (.ok writer, next)
    else (.error (.sinkAlreadyExists s.name s.kind), next)
  | writers => (.error (.multipleWriters s.name writers), next)

/-- The id of the query of a statement, and the next number for generated ids. -/
def allocate (statement : WriteStatement) (registry : Registry) (replaces : Bool)
    (next : UInt64) : Except EngineError QueryId × UInt64 :=
  match statement.queryId?, statement with
  | some text, _ => (explicit text, next)
  | none, .insertInto _ => (.ok (ofInsert next), next + 1)
  | none, .createAsSelect s => ofCreate s registry replaces next

end StreamSql.QueryId
