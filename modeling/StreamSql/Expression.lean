import StreamSql.Text
import StreamSql.Value

/-!
# Expressions

The expressions of queries: column references, literals, comparisons, three-valued logic, lists and
aggregate calls. The functions on them come in pairs, one for an expression and one for a list of
expressions, so that each is a plain recursion on the syntax.
-/

namespace StreamSql

/-- A reference to a column, such as `O.ID` or `ID`. -/
structure ColumnReference where
  qualifier : Option String
  name : String
  deriving DecidableEq

def ColumnReference.text (c : ColumnReference) : String :=
  match c.qualifier with
  | some qualifier => s!"{qualifier}.{c.name}"
  | none => c.name

inductive ComparisonOperator where
  | equal
  | notEqual
  | lessThan
  | lessThanOrEqual
  | greaterThan
  | greaterThanOrEqual
  deriving DecidableEq

namespace ComparisonOperator

def symbol : ComparisonOperator → String
  | equal => "="
  | notEqual => "<>"
  | lessThan => "<"
  | lessThanOrEqual => "<="
  | greaterThan => ">"
  | greaterThanOrEqual => ">="

/-- Whether operands that compare so satisfy the operator. -/
def accepts : ComparisonOperator → Ordering → Bool
  | equal, o => o.isEq
  | notEqual, o => o.isNe
  | lessThan, o => o.isLT
  | lessThanOrEqual, o => o.isLE
  | greaterThan, o => o.isGT
  | greaterThanOrEqual, o => o.isGE

end ComparisonOperator

inductive AggregateFunction where
  | count
  | sum
  | min
  | max
  | latestByOffset
  deriving DecidableEq

def AggregateFunction.name : AggregateFunction → String
  | count => "COUNT"
  | sum => "SUM"
  | min => "MIN"
  | max => "MAX"
  | latestByOffset => "LATEST_BY_OFFSET"

inductive Expression where
  | column (reference : ColumnReference)
  | literal (value : Value)
  | comparison (operator : ComparisonOperator) (left right : Expression)
  | and (left right : Expression)
  | or (left right : Expression)
  | not (operand : Expression)
  | inList (operand : Expression) (list : List Expression)
  | aggregate (function : AggregateFunction) (argument : Expression)
  /-- An aggregate call on the rows themselves, such as `COUNT(*)`. -/
  | aggregateRows (function : AggregateFunction)

namespace Expression

instance : Inhabited Expression := ⟨literal .null⟩

/-- The column of a name, in whatever source it is. -/
def named (name : String) : Expression := column ⟨none, name⟩

def equal (left right : Expression) : Expression := comparison .equal left right

/-! ## Written form -/

mutual

def text : Expression → String
  | column reference => reference.text
  | literal (.utf8 s) => s!"'{s}'"
  | literal value => value.text
  | comparison operator left right => s!"({text left} {operator.symbol} {text right})"
  | and left right => s!"({text left} AND {text right})"
  | or left right => s!"({text left} OR {text right})"
  | not operand => s!"(NOT {text operand})"
  | inList operand list => s!"({text operand} IN ({Text.commaSeparated (texts list)}))"
  | aggregate function argument => s!"{function.name}({text argument})"
  | aggregateRows function => s!"{function.name}(*)"

def texts : List Expression → List String
  | [] => []
  | e :: rest => text e :: texts rest

end

/-! ## Parts -/

mutual

/-- Whether an aggregate call occurs. -/
def isAggregate : Expression → Bool
  | column _ | literal _ => false
  | comparison _ left right | and left right | or left right =>
    isAggregate left || isAggregate right
  | not operand => isAggregate operand
  | inList operand list => isAggregate operand || anyAggregate list
  | aggregate _ _ | aggregateRows _ => true

def anyAggregate : List Expression → Bool
  | [] => false
  | e :: rest => isAggregate e || anyAggregate rest

end

mutual

/-- The column references, from left to right. -/
def columns : Expression → List ColumnReference
  | column reference => [reference]
  | literal _ | aggregateRows _ => []
  | comparison _ left right | and left right | or left right => columns left ++ columns right
  | not operand => columns operand
  | inList operand list => columns operand ++ listColumns list
  | aggregate _ argument => columns argument

def listColumns : List Expression → List ColumnReference
  | [] => []
  | e :: rest => columns e ++ listColumns rest

end

/-- The terms of a conjunction, from left to right. -/
def conjuncts : Expression → List Expression
  | and left right => conjuncts left ++ conjuncts right
  | e => [e]

/-! ## Columns without qualifiers, and comparison -/

mutual

/-- The expression with every qualifier dropped, for use where there is a single source. -/
def unqualified : Expression → Expression
  | column reference => named reference.name
  | literal value => literal value
  | comparison operator left right => comparison operator (unqualified left) (unqualified right)
  | and left right => and (unqualified left) (unqualified right)
  | or left right => or (unqualified left) (unqualified right)
  | not operand => not (unqualified operand)
  | inList operand list => inList (unqualified operand) (listUnqualified list)
  | aggregate function argument => aggregate function (unqualified argument)
  | aggregateRows function => aggregateRows function

def listUnqualified : List Expression → List Expression
  | [] => []
  | e :: rest => unqualified e :: listUnqualified rest

end

mutual

/-- The same expression, with literals compared as values: one with a NaN differs from itself. -/
def equals : Expression → Expression → Bool
  | column a, column b => a == b
  | literal a, literal b => a.equals b
  | comparison o a b, comparison p c d => o == p && equals a c && equals b d
  | and a b, and c d | or a b, or c d => equals a c && equals b d
  | not a, not b => equals a b
  | inList a xs, inList b ys => equals a b && listEquals xs ys
  | aggregate f a, aggregate g b => f == g && equals a b
  | aggregateRows f, aggregateRows g => f == g
  | _, _ => false

def listEquals : List Expression → List Expression → Bool
  | [], [] => true
  | x :: xs, y :: ys => equals x y && listEquals xs ys
  | _, _ => false

end

/-! ## The list companions -/

theorem anyAggregate_eq_any (list : List Expression) :
    anyAggregate list = list.any isAggregate := by
  induction list with
  | nil => rfl
  | cons e rest ih => rw [anyAggregate, ih, List.any_cons]

theorem listColumns_eq_flatMap (list : List Expression) :
    listColumns list = list.flatMap columns := by
  induction list with
  | nil => rfl
  | cons e rest ih => rw [listColumns, ih, List.flatMap_cons]

theorem listUnqualified_eq_map (list : List Expression) :
    listUnqualified list = list.map unqualified := by
  induction list with
  | nil => rfl
  | cons e rest ih => rw [listUnqualified, ih, List.map_cons]

end Expression

end StreamSql
