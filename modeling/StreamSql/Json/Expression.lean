import StreamSql.Expression
import StreamSql.Json.Value

/-!
# JSON forms of expressions
-/

namespace StreamSql

instance : JsonForm ColumnReference where
  toJson c := .object [("qualifier", toJson c.qualifier), ("name", toJson c.name)]
  ofJson j := return { qualifier := ← j.fieldAt 0 "qualifier", name := ← j.fieldAt 1 "name" }

namespace ComparisonOperator

def all : List ComparisonOperator :=
  [equal, notEqual, lessThan, lessThanOrEqual, greaterThan, greaterThanOrEqual]

def tag : ComparisonOperator → String
  | equal => "Equal"
  | notEqual => "NotEqual"
  | lessThan => "LessThan"
  | lessThanOrEqual => "LessThanOrEqual"
  | greaterThan => "GreaterThan"
  | greaterThanOrEqual => "GreaterThanOrEqual"

instance : JsonForm ComparisonOperator where
  toJson o := .text o.tag
  ofJson := Json.readName tag all

end ComparisonOperator

namespace AggregateFunction

def all : List AggregateFunction := [count, sum, min, max, latestByOffset]

def tag : AggregateFunction → String
  | count => "Count"
  | sum => "Sum"
  | min => "Min"
  | max => "Max"
  | latestByOffset => "LatestByOffset"

instance : JsonForm AggregateFunction where
  toJson f := .text f.tag
  ofJson := Json.readName tag all

end AggregateFunction

namespace Expression

mutual

def encode : Expression → Json
  | column reference => .tagged "Column" (toJson reference)
  | literal value => .tagged "Literal" (toJson value)
  | comparison operator left right =>
    .tagged "Comparison" <| .object
      [("operator", toJson operator), ("left", encode left), ("right", encode right)]
  | and left right => .tagged "And" (.array [encode left, encode right])
  | or left right => .tagged "Or" (.array [encode left, encode right])
  | not operand => .tagged "Not" (encode operand)
  | inList operand list =>
    .tagged "InList" <| .object [("expression", encode operand), ("list", .array (encodeList list))]
  | aggregate function argument =>
    .tagged "Aggregate" <| .object
      [("function", toJson function), ("argument", encode argument)]
  | aggregateRows function =>
    .tagged "Aggregate" <| .object [("function", toJson function), ("argument", .null)]

def encodeList : List Expression → List Json
  | [] => []
  | e :: rest => encode e :: encodeList rest

end

/-- Reads the two operands of a connective. -/
def readOperands (j : Json)
    (read : (m : Json) → sizeOf m < sizeOf j → Except DecodeError Expression) :
    Except DecodeError (Expression × Expression) := do
  match ← j.itemsWith read with
  | [left, right] => return (left, right)
  | _ => throw .malformed

def decode (j : Json) : Except DecodeError Expression := do
  match j.variant? with
  | some (.carrying "Column" content _) => return column (← ofJson content)
  | some (.carrying "Literal" content _) => return literal (← ofJson content)
  | some (.carrying "Comparison" content _) =>
    let operator ← content.field "operator"
    let left ← content.fieldWith "left" none fun m _ => decode m
    let right ← content.fieldWith "right" none fun m _ => decode m
    return comparison operator left right
  | some (.carrying "And" content _) =>
    let (left, right) ← readOperands content fun m _ => decode m
    return and left right
  | some (.carrying "Or" content _) =>
    let (left, right) ← readOperands content fun m _ => decode m
    return or left right
  | some (.carrying "Not" content _) => return not (← decode content)
  | some (.carrying "InList" content _) =>
    let operand ← content.fieldWith "expression" none fun m _ => decode m
    let list ← content.fieldWith "list" none fun m _ => m.itemsWith fun item _ => decode item
    return inList operand list
  | some (.carrying "Aggregate" content _) =>
    let function ← content.field "function"
    let argument ← content.fieldWith "argument" (some none) fun m _ =>
      match m with
      | .null => return none
      | m => return some (← decode m)
    match argument with
    | some argument => return aggregate function argument
    | none => return aggregateRows function
  | _ => throw .malformed
termination_by sizeOf j

end Expression

instance : JsonForm Expression where
  toJson := Expression.encode
  ofJson := Expression.decode

end StreamSql
