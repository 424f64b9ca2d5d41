import StreamSql.Query
import StreamSql.Query.Error

/-!
# Scopes

The columns that expressions may refer to at one point of a plan, the types that expressions have
there, and the schema of the rows there.
-/

namespace StreamSql

structure VisibleColumn where
  /-- The alias of the source that the column comes from, while that is known. -/
  qualifier : Option String
  /-- The name that the column is referred to by. -/
  name : String
  /-- The name that the column has in the schema. -/
  output : String
  type : DataType
  isKey : Bool
  deriving DecidableEq

namespace VisibleColumn

/-- A column that goes by one name only. -/
def named (name : String) (type : DataType) (isKey : Bool) : VisibleColumn :=
  ⟨none, name, name, type, isKey⟩

/-- The reference that denotes the column. -/
def reference (c : VisibleColumn) : ColumnReference := ⟨c.qualifier, c.name⟩

def isDenotedBy (c : VisibleColumn) (reference : ColumnReference) : Bool :=
  c.name == reference.name && (reference.qualifier.isNone || c.qualifier == reference.qualifier)

end VisibleColumn

structure Scope where
  columns : List VisibleColumn
  deriving DecidableEq

namespace Scope

/-- The columns of a schema, under an alias or without. -/
def ofSchema (qualifier : Option String) (schema : Schema) : Scope :=
  ⟨schema.columns.map fun c => ⟨qualifier, c.name, c.name, c.type, c.isKey⟩⟩

/-- The only column that a reference denotes. -/
def resolve (scope : Scope) (reference : ColumnReference) : Except QueryError VisibleColumn :=
  match scope.columns.filter (·.isDenotedBy reference) with
  | [] => .error (.columnNotFound reference.text)
  | [only] => .ok only
  | candidates =>
    .error <| .ambiguousColumn reference.name <| candidates.map fun c => c.reference.text

/-- The schema of the rows in this scope. -/
def schema (scope : Scope) : Schema :=
  scope.columns.foldl (fun schema c => schema.add c.output c.type c.isKey) .empty

/-- The names of the key columns. -/
def keyNames (scope : Scope) : List String :=
  (scope.columns.filter (·.isKey)).map (·.name)

/-! ## Types of expressions -/

/-- The type of an aggregate call on an argument of a given type, if it takes such arguments. -/
def aggregateType? : AggregateFunction → DataType → Option DataType
  | .count, _ => some .int8
  | .sum, type => if type.isNumber then some type else none
  | .min, type | .max, type => if type = .boolean then none else some type
  | .latestByOffset, type => some type

mutual

/-- The type of an expression. A null by itself counts as a text. -/
def typeOf (scope : Scope) : Expression → Except QueryError DataType
  | .column reference => return (← scope.resolve reference).type
  | .literal value => return value.type?.getD .utf8
  | .comparison _ left right | .and left right | .or left right => do
    discard (typeOf scope left)
    discard (typeOf scope right)
    return .boolean
  | .not operand => do
    discard (typeOf scope operand)
    return .boolean
  | .inList operand list => do
    discard (typeOf scope operand)
    checkTypes scope list
    return .boolean
  | .aggregate function argument => do
    let invalid := QueryError.invalidAggregateArgument function.name argument.text
    if argument.isAggregate then throw invalid
    match aggregateType? function (← typeOf scope argument) with
    | some type => return type
    | none => throw invalid
  | .aggregateRows .count => return .int8
  | .aggregateRows function => throw (.invalidAggregateArgument function.name "*")

/-- Checks that every expression of a list has a type. -/
def checkTypes (scope : Scope) : List Expression → Except QueryError Unit
  | [] => return
  | e :: rest => do
    discard (typeOf scope e)
    checkTypes scope rest

end

end Scope

end StreamSql
