import StreamSql.Plan.Join

/-!
# Plans of aggregations

`GROUP BY` splits a selection in two: the aggregate calls, each computed once under a name of its
own, and the selected expressions with every call replaced by a reference to that name. What is left
may refer to the grouping columns and to the computed aggregates only.
-/

namespace StreamSql

/-- The aggregates found so far, and the columns of the aggregated rows. -/
structure Aggregation where
  calls : List AggregateCall := []
  columns : List VisibleColumn := []

namespace Aggregation

def sameArgument : Option Expression → Option Expression → Bool
  | none, none => true
  | some a, some b => a.equals b
  | _, _ => false

/-- The name of a call: that of the same call found before, or else a new one. -/
def addCall (a : Aggregation) (function : AggregateFunction) (argument : Option Expression)
    (type : DataType) : String × Aggregation :=
  match a.calls.find? fun c => c.function == function && sameArgument c.argument argument with
  | some call => (call.name, a)
  | none =>
    let name := s!"AGG_{a.calls.length}"
    (name, ⟨a.calls ++ [⟨name, function, argument⟩], a.columns ++ [.named name type false]⟩)

mutual

/-- Replaces the aggregate calls of an expression over the rows of `scope`. -/
def extract (scope : Scope) (a : Aggregation) :
    Expression → Except QueryError (Expression × Aggregation)
  | .aggregate function argument => do
    let type ← scope.typeOf (.aggregate function argument)
    let (name, a) := a.addCall function (some argument) type
    return (.named name, a)
  | .aggregateRows function => do
    let type ← scope.typeOf (.aggregateRows function)
    let (name, a) := a.addCall function none type
    return (.named name, a)
  | .column reference => return (.column reference, a)
  | .literal value => return (.literal value, a)
  | .comparison operator left right => do
    let (left, a) ← extract scope a left
    let (right, a) ← extract scope a right
    return (.comparison operator left right, a)
  | .and left right => do
    let (left, a) ← extract scope a left
    let (right, a) ← extract scope a right
    return (.and left right, a)
  | .or left right => do
    let (left, a) ← extract scope a left
    let (right, a) ← extract scope a right
    return (.or left right, a)
  | .not operand => do
    let (operand, a) ← extract scope a operand
    return (.not operand, a)
  | .inList operand list => do
    let (operand, a) ← extract scope a operand
    let (list, a) ← extractList scope a list
    return (.inList operand list, a)

def extractList (scope : Scope) (a : Aggregation) :
    List Expression → Except QueryError (List Expression × Aggregation)
  | [] => return ([], a)
  | e :: rest => do
    let (e, a) ← extract scope a e
    let (rest, a) ← extractList scope a rest
    return (e :: rest, a)

end

/-- Replaces the aggregate calls of a selection. -/
def extractItems (scope : Scope) (a : Aggregation) :
    List SelectItem → Except QueryError (List SelectItem × Aggregation)
  | [] => return ([], a)
  | .star _ :: _ => throw (.nonAggregateColumn "*")
  | .expression e aliasName :: rest => do
    let (e, a) ← extract scope a e
    let (rest, a) ← extractItems scope a rest
    return (.expression e aliasName :: rest, a)

/-- The grouping column that an expression of the `GROUP BY` clause denotes. -/
def groupingColumn (scope : Scope) :
    Expression → Except QueryError (ColumnReference × VisibleColumn)
  | .column reference => do
    let c ← scope.resolve reference
    return (reference, { c with output := c.name, isKey := true })
  | e => throw (.nonColumnGroupBy e.text)

/-- Refuses a reference that denotes no column of the aggregated rows. -/
def checkReference (scope : Scope) (reference : ColumnReference) : Except QueryError Unit :=
  match scope.resolve reference with
  | .ok _ => .ok ()
  | .error _ => .error (.nonAggregateColumn reference.text)

/-- Refuses a selected expression that needs more than the aggregated rows. -/
def checkItem (scope : Scope) : SelectItem → Except QueryError Unit
  | .expression e _ => e.columns.forM (checkReference scope)
  | .star _ => .ok ()

end Aggregation

/-- Groups and aggregates the rows of a plan, and gives what is left of the selection. -/
def ScopedPlan.aggregate (input : ScopedPlan) (groupBy : List Expression)
    (select : List SelectItem) : Except QueryError (ScopedPlan × List SelectItem) := do
  let grouping ← groupBy.mapM (Aggregation.groupingColumn input.scope)
  let start : Aggregation := { columns := grouping.map (·.2) }
  let (select, found) ← Aggregation.extractItems input.scope start select
  let scope : Scope := ⟨found.columns⟩
  select.forM (Aggregation.checkItem scope)
  return (⟨.aggregate input.node (grouping.map (·.1)) found.calls scope.schema, scope⟩, select)

end StreamSql
