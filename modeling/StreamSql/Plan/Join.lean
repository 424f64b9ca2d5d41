import StreamSql.Plan.Logical
import StreamSql.Query.Analysis
import StreamSql.Query.Scope

/-!
# Plans of joins

The sources of an analysed query, joined one after the other. The rows of a join are keyed by the
left column of its criterion alone, and name their columns after the alias that each comes from.
-/

namespace StreamSql

/-- A plan so far, with what can be referred to in its rows. -/
structure ScopedPlan where
  node : PlanNode
  scope : Scope

namespace ScopedPlan

def ofSource (source : QuerySource) : ScopedPlan :=
  ⟨.source source.source source.aliasName, .ofSchema (some source.aliasName) source.source.schema⟩

/-- The kind of rows that a join emits. A table does not join a stream on its right. -/
def joinedKind (left right : SourceKind) : Except QueryError SourceKind :=
  match left, right with
  | .stream, _ => .ok .stream
  | .table, .table => .ok .table
  | .table, .stream => .error (.invalidJoinOrder left right)

/-- A column as it appears in the rows of a join. -/
def joinedColumn (isKey : Bool) (c : VisibleColumn) : VisibleColumn :=
  { c with
    output := match c.qualifier with
      | some qualifier => s!"{qualifier}_{c.name}"
      | none => c.name
    isKey }

/-- The scope of a join: the key, then the other columns of the left, then those of the right. -/
def joinedScope (left right : Scope) (key : VisibleColumn) : Scope :=
  ⟨joinedColumn true key :: (left.columns.filter (· ≠ key)).map (joinedColumn false) ++
    right.columns.map (joinedColumn false)⟩

/-- Joins one more source. -/
def join (left : ScopedPlan) (info : JoinClause) (added : QuerySource) :
    Except QueryError ScopedPlan := do
  let output ← joinedKind left.node.outputKind added.source.kind
  let right := ofSource added
  let leftKey ← left.scope.resolve info.left
  let rightKey ← right.scope.resolve info.right
  if !leftKey.type.widensTo rightKey.type && !rightKey.type.widensTo leftKey.type then
    throw (.unsupportedJoinCriteria s!"{info.left.text} = {info.right.text}")
  let scope := joinedScope left.scope right.scope leftKey
  return ⟨.join info.kind left.node right.node info.left info.right scope.schema output, scope⟩

/-- Makes the joins of a query in turn, each with the next source. -/
def joinAll (left : ScopedPlan) (sources : List QuerySource) :
    List JoinClause → Except QueryError ScopedPlan
  | [] => .ok left
  | info :: rest =>
    match sources[info.rightSource]? with
    | some added => do (← left.join info added).joinAll sources rest
    | none => .error (.unsupportedJoinCriteria s!"{info.left.text} = {info.right.text}")

end ScopedPlan

end StreamSql
