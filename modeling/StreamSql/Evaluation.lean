import StreamSql.Diagnostic
import StreamSql.Query
import StreamSql.Schema

/-!
# Evaluation

The value of an expression on one row, with nulls as unknowns: a comparison with a null is null, and
the connectives take null for the truth value that is not known. Membership in a list is false where
no member compares equal, whatever nulls the list has.
-/

namespace StreamSql

/-- Why an expression has no value on a row. -/
inductive EvaluationError where
  | missingColumn (column : String)
  | aggregate (function : String)
  deriving DecidableEq

instance : Reportable EvaluationError where
  diagnostic
    | .missingColumn column => .internal s!"column {column} missing from materialized row"
    | .aggregate function => .internal s!"aggregate {function} cannot be evaluated per row"

/-- The truth value of a value; only booleans have one. -/
def Value.truth? : Value → Option Bool
  | .boolean b => some b
  | _ => none

/-- The value of a truth value, null if it is not known. -/
def Value.ofTruth : Option Bool → Value
  | some b => .boolean b
  | none => .null

/-! ## Three-valued logic -/

namespace Truth

def and : Option Bool → Option Bool → Option Bool
  | some false, _ | _, some false => some false
  | some true, some true => some true
  | _, _ => none

def or : Option Bool → Option Bool → Option Bool
  | some true, _ | _, some true => some true
  | some false, some false => some false
  | _, _ => none

def not (t : Option Bool) : Option Bool := t.map (!·)

end Truth

namespace Expression

/-- Whether two values compare in the way an operator asks for. -/
def compareValues (operator : ComparisonOperator) (left right : Value) : Option Bool :=
  (left.compare? right).map operator.accepts

mutual

def evaluate (schema : Schema) (row : Row) : Expression → Except EvaluationError Value
  | column reference =>
    match schema.position? reference.name with
    | some position => return (row.get? position).getD .null
    | none => throw (.missingColumn reference.text)
  | literal value => return value
  | comparison operator left right => do
    let left ← evaluate schema row left
    let right ← evaluate schema row right
    return .ofTruth (compareValues operator left right)
  | and left right => do
    let left ← evaluate schema row left
    let right ← evaluate schema row right
    return .ofTruth (Truth.and left.truth? right.truth?)
  | or left right => do
    let left ← evaluate schema row left
    let right ← evaluate schema row right
    return .ofTruth (Truth.or left.truth? right.truth?)
  | not operand => do
    let operand ← evaluate schema row operand
    return .ofTruth (Truth.not operand.truth?)
  | inList operand list => do
    let value ← evaluate schema row operand
    if value.isNull then return .null
    return .boolean (← evaluateMember schema row value list)
  | aggregate function _ | aggregateRows function => throw (.aggregate function.name)

/-- Whether a value equals a member of a list. The members after the first such go unread. -/
def evaluateMember (schema : Schema) (row : Row) (value : Value) :
    List Expression → Except EvaluationError Bool
  | [] => return false
  | e :: rest => do
    let member ← evaluate schema row e
    if value.compare? member = some .eq then return true
    evaluateMember schema row value rest

end

/-- Whether a row passes a predicate. A row on which the predicate is null does not. -/
def passes (predicate : Expression) (schema : Schema) (row : Row) : Except EvaluationError Bool :=
  return (← predicate.evaluate schema row).truth? = some true

end Expression

end StreamSql
