import StreamSql.Json.Catalog
import StreamSql.Json.Expression
import StreamSql.Query.KeyLookup
import StreamSql.Statement

/-!
# JSON forms of queries and statements
-/

namespace StreamSql

/-! ## Queries -/

instance : JsonForm SelectItem where
  toJson
    | .star qualifier => .tagged "AllColumns" (.object [("qualifier", toJson qualifier)])
    | .expression e aliasName =>
      .tagged "Expression" (.object [("expression", toJson e), ("alias", toJson aliasName)])
  ofJson j :=
    match j.variant? with
    | some (.carrying "AllColumns" content _) => return .star (← content.field "qualifier")
    | some (.carrying "Expression" content _) =>
      return .expression (← content.field "expression") (← content.field "alias")
    | _ => throw .malformed

namespace JoinKind

def tag : JoinKind → String
  | inner => "Inner"
  | left => "Left"
  | outer => "Outer"

instance : JsonForm JoinKind where
  toJson kind := .text kind.tag
  ofJson := Json.readName tag [inner, left, outer]

end JoinKind

namespace Relation

def encode : Relation → Json
  | source name aliasName =>
    .tagged "Source" (.object [("name", toJson name), ("alias", toJson aliasName)])
  | join kind left right criteria =>
    .tagged "Join" <| .object
      [("kind", toJson kind), ("left", left.encode), ("right", right.encode),
        ("criteria", toJson criteria)]

def decode (j : Json) : Except DecodeError Relation := do
  match j.variant? with
  | some (.carrying "Source" content _) =>
    return source (← content.field "name") (← content.field "alias")
  | some (.carrying "Join" content _) =>
    let kind ← content.fieldAt 0 "kind"
    let left ← content.fieldAtWith 1 "left" none none fun m _ => decode m
    let right ← content.fieldAtWith 2 "right" none none fun m _ => decode m
    return join kind left right (← content.fieldAt 3 "criteria")
  | _ => throw .malformed
termination_by sizeOf j

end Relation

instance : JsonForm Relation where
  toJson := Relation.encode
  ofJson := Relation.decode

instance : JsonForm Query where
  toJson q := .object
    [("select", toJson q.select), ("from", toJson q.relation), ("filter", toJson q.filter),
      ("group_by", toJson q.groupBy), ("limit", toJson q.limit), ("pull", toJson q.isPull)]
  ofJson j := return {
    select := ← j.fieldAt 0 "select"
    relation := ← j.fieldAt 1 "from"
    filter := ← j.fieldAt 2 "filter"
    groupBy := ← j.fieldAt 3 "group_by"
    limit := ← j.fieldAt 4 "limit"
    isPull := ← j.fieldAt 5 "pull" }

instance : JsonForm KeyLookup where
  toJson
    | .keys keys => .tagged "Keys" (toJson keys)
    | .scan => .text "Scan"
  ofJson j :=
    match j.variant? with
    | some (.bare "Scan") => return .scan
    | some (.carrying "Keys" content _) => return .keys (← ofJson content)
    | _ => throw .malformed

/-! ## Statements that define entries -/

instance : JsonForm ColumnDeclaration where
  toJson e := .object [("name", toJson e.name), ("ty", toJson e.type), ("key", toJson e.isKey)]
  ofJson j := return {
    name := ← j.fieldAt 0 "name"
    type := ← j.fieldAt 1 "ty"
    isKey := ← j.fieldAt 2 "key" }

instance : JsonForm SourceProperties where
  toJson p := .object
    [("topic", toJson p.topic), ("key_format", toJson p.keyFormat),
      ("value_format", toJson p.valueFormat), ("format", toJson p.format)]
  ofJson j := return {
    topic := ← j.fieldAt 0 "topic"
    keyFormat := ← j.fieldAt 1 "key_format"
    valueFormat := ← j.fieldAt 2 "value_format"
    format := ← j.fieldAt 3 "format" }

instance : JsonForm CreateSourceStatement where
  toJson s := .object
    [("name", toJson s.name), ("kind", toJson s.kind), ("elements", toJson s.elements),
      ("properties", toJson s.properties), ("or_replace", toJson s.orReplace),
      ("if_not_exists", toJson s.ifNotExists)]
  ofJson j := return {
    name := ← j.fieldAt 0 "name"
    kind := ← j.fieldAt 1 "kind"
    elements := ← j.fieldAt 2 "elements"
    properties := ← j.fieldAt 3 "properties"
    orReplace := ← j.fieldAt 4 "or_replace"
    ifNotExists := ← j.fieldAt 5 "if_not_exists" }

instance : JsonForm DropSourceStatement where
  toJson s := .object
    [("name", toJson s.name), ("kind", toJson s.kind), ("if_exists", toJson s.ifExists)]
  ofJson j := return {
    name := ← j.fieldAt 0 "name"
    kind := ← j.fieldAt 1 "kind"
    ifExists := ← j.fieldAt 2 "if_exists" }

instance : JsonForm AlterSourceStatement where
  toJson s := .object
    [("name", toJson s.name), ("kind", toJson s.kind), ("add_columns", toJson s.addColumns)]
  ofJson j := return {
    name := ← j.fieldAt 0 "name"
    kind := ← j.fieldAt 1 "kind"
    addColumns := ← j.fieldAt 2 "add_columns" }

instance : JsonForm DefinitionStatement where
  toJson
    | .create s => .tagged "CreateSource" (toJson s)
    | .drop s => .tagged "DropSource" (toJson s)
    | .alter s => .tagged "AlterSource" (toJson s)
  ofJson j :=
    match j.variant? with
    | some (.carrying "CreateSource" content _) => return .create (← ofJson content)
    | some (.carrying "DropSource" content _) => return .drop (← ofJson content)
    | some (.carrying "AlterSource" content _) => return .alter (← ofJson content)
    | _ => throw .malformed

/-! ## Statements that write -/

instance : JsonForm SinkProperties where
  toJson p := .object
    [("topic", toJson p.topic), ("key_format", toJson p.keyFormat),
      ("value_format", toJson p.valueFormat), ("format", toJson p.format),
      ("query_id", toJson p.queryId)]
  ofJson j := return {
    topic := ← j.fieldAt 0 "topic"
    keyFormat := ← j.fieldAt 1 "key_format"
    valueFormat := ← j.fieldAt 2 "value_format"
    format := ← j.fieldAt 3 "format"
    queryId := ← j.fieldAt 4 "query_id" }

instance : JsonForm Sink where
  toJson s := .object
    [("name", toJson s.name), ("create", toJson s.create), ("or_replace", toJson s.orReplace),
      ("properties", toJson s.properties)]
  ofJson j := return {
    name := ← j.fieldAt 0 "name"
    create := ← j.fieldAt 1 "create"
    orReplace := ← j.fieldAt 2 "or_replace"
    properties := ← j.fieldAt 3 "properties" }

instance : JsonForm CreateAsSelect where
  toJson s := .object
    [("name", toJson s.name), ("kind", toJson s.kind), ("query", toJson s.query),
      ("properties", toJson s.properties), ("or_replace", toJson s.orReplace),
      ("if_not_exists", toJson s.ifNotExists)]
  ofJson j := return {
    name := ← j.fieldAt 0 "name"
    kind := ← j.fieldAt 1 "kind"
    query := ← j.fieldAt 2 "query"
    properties := ← j.fieldAt 3 "properties"
    orReplace := ← j.fieldAt 4 "or_replace"
    ifNotExists := ← j.fieldAt 5 "if_not_exists" }

instance : JsonForm InsertInto where
  toJson s := .object
    [("target", toJson s.target), ("query", toJson s.query), ("query_id", toJson s.queryId)]
  ofJson j := return {
    target := ← j.fieldAt 0 "target"
    query := ← j.fieldAt 1 "query"
    queryId := ← j.fieldAt 2 "query_id" }

instance : JsonForm WriteStatement where
  toJson
    | .createAsSelect s => .tagged "CreateAsSelect" (toJson s)
    | .insertInto s => .tagged "InsertInto" (toJson s)
  ofJson j :=
    match j.variant? with
    | some (.carrying "CreateAsSelect" content _) => return .createAsSelect (← ofJson content)
    | some (.carrying "InsertInto" content _) => return .insertInto (← ofJson content)
    | _ => throw .malformed

namespace Statement

def encode : Statement → Json
  | define s => .tagged "Ddl" (toJson s)
  | write s => .tagged "QueryContainer" (toJson s)
  | query q => .tagged "Query" (toJson q)
  | setProperty property value =>
    .tagged "SetProperty" (.object [("property", toJson property), ("value", toJson value)])
  | unsetProperty property => .tagged "UnsetProperty" (.object [("property", toJson property)])
  | listSources => .text "ListSources"
  | describeSource name => .tagged "DescribeSource" (toJson name)
  | terminateQuery id => .tagged "TerminateQuery" (toJson id)
  | explain s => .tagged "Explain" s.encode

def decode (j : Json) : Except DecodeError Statement := do
  match j.variant? with
  | some (.carrying "Ddl" content _) => return define (← ofJson content)
  | some (.carrying "QueryContainer" content _) => return write (← ofJson content)
  | some (.carrying "Query" content _) => return query (← ofJson content)
  | some (.carrying "SetProperty" content _) =>
    return setProperty (← content.field "property") (← content.field "value")
  | some (.carrying "UnsetProperty" content _) => return unsetProperty (← content.field "property")
  | some (.bare "ListSources") => return listSources
  | some (.carrying "DescribeSource" content _) => return describeSource (← ofJson content)
  | some (.carrying "TerminateQuery" content _) => return terminateQuery (← ofJson content)
  | some (.carrying "Explain" content _) => return explain (← decode content)
  | _ => throw .malformed
termination_by sizeOf j

end Statement

instance : JsonForm Statement where
  toJson := Statement.encode
  ofJson := Statement.decode

end StreamSql
