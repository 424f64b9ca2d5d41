import StreamSql.Json.Statement
import StreamSql.Step

/-!
# JSON forms of execution steps
-/

namespace StreamSql

instance : JsonForm StepHeading where
  toJson c := .object [("id", toJson c.id), ("schema", toJson c.schema)]
  ofJson j := return { id := ← j.fieldAt 0 "id", schema := ← j.fieldAt 1 "schema" }

instance : JsonForm Projection where
  toJson s := .object [("name", toJson s.name), ("expression", toJson s.expression)]
  ofJson j := return { name := ← j.fieldAt 0 "name", expression := ← j.fieldAt 1 "expression" }

instance : JsonForm AggregateCall where
  toJson a := .object
    [("name", toJson a.name), ("function", toJson a.function), ("argument", toJson a.argument)]
  ofJson j := return {
    name := ← j.fieldAt 0 "name"
    function := ← j.fieldAt 1 "function"
    argument := ← j.fieldAt 2 "argument" }

namespace Step

def encode : Step → Json
  | source heading kind name aliasName topic keyFormat valueFormat =>
    .tagged "Source" <| .object
      [("ctx", toJson heading), ("kind", toJson kind), ("source", toJson name),
        ("alias", toJson aliasName), ("topic", toJson topic), ("key_format", toJson keyFormat),
        ("value_format", toJson valueFormat)]
  | filter heading input predicate =>
    .tagged "Filter" <| .object
      [("ctx", toJson heading), ("input", input.encode), ("predicate", toJson predicate)]
  | select heading input expressions =>
    .tagged "Select" <| .object
      [("ctx", toJson heading), ("input", input.encode), ("expressions", toJson expressions)]
  | aggregate heading input groupBy aggregates =>
    .tagged "Aggregate" <| .object
      [("ctx", toJson heading), ("input", input.encode), ("group_by", toJson groupBy),
        ("aggregates", toJson aggregates)]
  | join heading kind output left right leftKey rightKey =>
    .tagged "Join" <| .object
      [("ctx", toJson heading), ("kind", toJson kind), ("output", toJson output),
        ("left", left.encode), ("right", right.encode), ("left_key", toJson leftKey),
        ("right_key", toJson rightKey)]
  | sink heading input kind name topic keyFormat valueFormat =>
    .tagged "Sink" <| .object
      [("ctx", toJson heading), ("input", input.encode), ("kind", toJson kind),
        ("sink", toJson name), ("topic", toJson topic), ("key_format", toJson keyFormat),
        ("value_format", toJson valueFormat)]

def decode (j : Json) : Except DecodeError Step := do
  match j.variant? with
  | some (.carrying "Source" content _) =>
    return source (← content.field "ctx") (← content.field "kind") (← content.field "source")
      (← content.field "alias") (← content.field "topic") (← content.field "key_format")
      (← content.field "value_format")
  | some (.carrying "Filter" content _) =>
    let input ← content.fieldWith "input" none fun m _ => decode m
    return filter (← content.field "ctx") input (← content.field "predicate")
  | some (.carrying "Select" content _) =>
    let input ← content.fieldWith "input" none fun m _ => decode m
    return select (← content.field "ctx") input (← content.field "expressions")
  | some (.carrying "Aggregate" content _) =>
    let input ← content.fieldWith "input" none fun m _ => decode m
    return aggregate (← content.field "ctx") input (← content.field "group_by")
      (← content.field "aggregates")
  | some (.carrying "Join" content _) =>
    let left ← content.fieldWith "left" none fun m _ => decode m
    let right ← content.fieldWith "right" none fun m _ => decode m
    return join (← content.field "ctx") (← content.field "kind") (← content.field "output")
      left right (← content.field "left_key") (← content.field "right_key")
  | some (.carrying "Sink" content _) =>
    let input ← content.fieldWith "input" none fun m _ => decode m
    return sink (← content.field "ctx") input (← content.field "kind") (← content.field "sink")
      (← content.field "topic") (← content.field "key_format") (← content.field "value_format")
  | _ => throw .malformed
termination_by sizeOf j

end Step

instance : JsonForm Step where
  toJson := Step.encode
  ofJson := Step.decode

end StreamSql
