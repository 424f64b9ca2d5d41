import StreamSql.Catalog
import StreamSql.Json.Config

/-!
# JSON forms of catalogs and catalog commands

A catalog is written as two objects, the entries by name and the readers of each entry by its name.
-/

namespace StreamSql

instance : JsonForm SourceName where
  toJson name := .text name.text
  ofJson j := return ⟨← j.readText⟩

instance : JsonForm QueryId where
  toJson id := .text id.text
  ofJson j := return ⟨← j.readText⟩

/-- A map by names: an object with a member for every entry. -/
instance {α : Type} [JsonForm α] : JsonForm (SortedMap SourceName α) where
  toJson m := .object (m.entries.map fun (name, a) => (name.text, toJson a))
  ofJson
    | .object members => do
      return .ofList (← members.mapM fun (name, m) => return (⟨name⟩, ← ofJson m))
    | _ => .error .malformed

namespace SourceKind

def tag : SourceKind → String
  | stream => "Stream"
  | table => "Table"

instance : JsonForm SourceKind where
  toJson kind := .text kind.tag
  ofJson := Json.readName tag [stream, table]

end SourceKind

instance : JsonForm Source where
  toJson s := .object
    [("name", toJson s.name), ("kind", toJson s.kind), ("schema", toJson s.schema),
      ("key_format", toJson s.keyFormat), ("value_format", toJson s.valueFormat),
      ("topic", toJson s.topic), ("sql", toJson s.statement), ("cas_target", toJson s.isQuerySink)]
  ofJson j := return {
    name := ← j.fieldAt 0 "name"
    kind := ← j.fieldAt 1 "kind"
    schema := ← j.fieldAt 2 "schema"
    keyFormat := ← j.fieldAt 3 "key_format"
    valueFormat := ← j.fieldAt 4 "value_format"
    topic := ← j.fieldAt 5 "topic"
    statement := ← j.fieldAt 6 "sql"
    isQuerySink := ← j.fieldAt 7 "cas_target" }

instance : JsonForm Catalog where
  toJson c := .object [("sources", toJson c.sources), ("references", toJson c.readers)]
  ofJson j := return { sources := ← j.fieldAt 0 "sources", readers := ← j.fieldAt 1 "references" }

/-! ## Commands -/

instance : JsonForm CreateSource where
  toJson c := .object
    [("name", toJson c.name), ("kind", toJson c.kind), ("schema", toJson c.schema),
      ("key_format", toJson c.keyFormat), ("value_format", toJson c.valueFormat),
      ("topic", toJson c.topic), ("or_replace", toJson c.orReplace),
      ("if_not_exists", toJson c.ifNotExists), ("cas_target", toJson c.isQuerySink)]
  ofJson j := return {
    name := ← j.fieldAt 0 "name"
    kind := ← j.fieldAt 1 "kind"
    schema := ← j.fieldAt 2 "schema"
    keyFormat := ← j.fieldAt 3 "key_format"
    valueFormat := ← j.fieldAt 4 "value_format"
    topic := ← j.fieldAt 5 "topic"
    orReplace := ← j.fieldAt 6 "or_replace"
    ifNotExists := ← j.fieldAt 7 "if_not_exists"
    isQuerySink := ← j.fieldAt 8 "cas_target" }

instance : JsonForm DropSource where
  toJson c := .object
    [("name", toJson c.name), ("kind", toJson c.kind), ("if_exists", toJson c.ifExists)]
  ofJson j := return {
    name := ← j.fieldAt 0 "name"
    kind := ← j.fieldAt 1 "kind"
    ifExists := ← j.fieldAt 2 "if_exists" }

instance : JsonForm AlterSource where
  toJson c := .object
    [("name", toJson c.name), ("kind", toJson c.kind), ("new_columns", toJson c.newColumns)]
  ofJson j := return {
    name := ← j.fieldAt 0 "name"
    kind := ← j.fieldAt 1 "kind"
    newColumns := ← j.fieldAt 2 "new_columns" }

instance : JsonForm CatalogCommand where
  toJson
    | .create c => .tagged "CreateSource" (toJson c)
    | .drop c => .tagged "DropSource" (toJson c)
    | .alter c => .tagged "AlterSource" (toJson c)
  ofJson j :=
    match j.variant? with
    | some (.carrying "CreateSource" content _) => return .create (← ofJson content)
    | some (.carrying "DropSource" content _) => return .drop (← ofJson content)
    | some (.carrying "AlterSource" content _) => return .alter (← ofJson content)
    | _ => throw .malformed

end StreamSql
