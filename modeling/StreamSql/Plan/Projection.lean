import StreamSql.Plan.Join

/-!
# Plans of projections

The columns that a selection makes out of the rows of a plan. Each has a name of its own: the alias
given to it, or the name of the column it repeats, or a generated one.
-/

namespace StreamSql

/-- The columns made so far, with the number of generated names. -/
structure ProjectionList where
  projections : List Projection := []
  columns : List VisibleColumn := []
  generated : Nat := 0

namespace ProjectionList

/-- Makes one more column, under a name not yet taken. -/
def push (list : ProjectionList) (name : String) (e : Expression) (type : DataType)
    (isKey : Bool) : Except QueryError ProjectionList :=
  if list.columns.any (·.name == name) then .error (.duplicateColumn name)
  else .ok { list with
    projections := list.projections ++ [⟨name, e⟩]
    columns := list.columns ++ [.named name type isKey] }

/-- Repeats a column of the input. -/
def pushColumn (list : ProjectionList) (c : VisibleColumn) : Except QueryError ProjectionList :=
  list.push c.output (.column c.reference) c.type c.isKey

/-- Whether a star, qualified or not, stands for a column. -/
def isSelectedBy (qualifier : Option String) (c : VisibleColumn) : Bool :=
  qualifier.isNone || c.qualifier == qualifier

/-- Makes the columns of one selected item. -/
def pushItem (scope : Scope) (list : ProjectionList) :
    SelectItem → Except QueryError ProjectionList
  | .star qualifier => (scope.columns.filter (isSelectedBy qualifier)).foldlM pushColumn list
  | .expression e aliasName => do
    let type ← scope.typeOf e
    match e with
    | .column reference =>
      let c ← scope.resolve reference
      list.push (aliasName.getD c.output) e type c.isKey
    | _ =>
      let next := { list with generated := list.generated + 1 }
      next.push (aliasName.getD s!"COL{list.generated}") e type false

end ProjectionList

/-- Projects the rows of a plan onto a selection. -/
def ScopedPlan.project (input : ScopedPlan) (select : List SelectItem) :
    Except QueryError ScopedPlan := do
  let list ← select.foldlM (ProjectionList.pushItem input.scope) {}
  let scope : Scope := ⟨list.columns⟩
  return ⟨.project input.node list.projections scope.schema, scope⟩

end StreamSql
