import StreamSql.Query
import StreamSql.Query.Error

/-!
# Key lookups

How a pull query reaches the rows of its materialization. Where the filter's conjunction binds every
key column to literals, by `K = v` or `K IN (v, ...)`, only the rows under the combinations of these
values need to be looked at; otherwise every row has to be.
-/

namespace StreamSql

inductive KeyLookup where
  /-- The keys to look up, each with one value per key column. -/
  | keys (keys : List (List Value))
  | scan
  deriving DecidableEq

namespace KeyLookup

def isScan : KeyLookup → Bool
  | scan => true
  | keys _ => false

def literal? : Expression → Option Value
  | .literal value => some value
  | _ => none

/-- The literals that a term of the filter binds a column to. -/
def boundValues? (column : String) : Expression → Option (List Value)
  | .comparison .equal (.column c) (.literal v) | .comparison .equal (.literal v) (.column c) =>
    if c.name = column then some [v] else none
  | .inList (.column c) list => if c.name = column then list.mapM literal? else none
  | _ => none

/-- A literal as a value of a key column's type. -/
def keyValue (column : Column) (value : Value) : Except QueryError Value :=
  match value.coerce? column.type with
  | some coerced =>
    if coerced.isNull then .error (.invalidKeyValue column.name value.text) else .ok coerced
  | none => .error (.invalidKeyValue column.name value.text)

/-- The values without those that equal an earlier one. -/
def distinct (values : List Value) : List Value :=
  values.foldl (fun seen v => if seen.any (·.equals v) then seen else seen ++ [v]) []

/-- One value of each column in every way, the first column varying slowest. -/
def combinations : List (List Value) → List (List Value)
  | [] => [[]]
  | values :: rest => values.flatMap fun v => (combinations rest).map (v :: ·)

/--
The values that each of the key columns is bound to, or nothing if some column is not bound. The
first term that binds a column decides. -/
def bindings (terms : List Expression) :
    List Column → Except QueryError (Option (List (List Value)))
  | [] => return some []
  | column :: rest =>
    match terms.findSome? (boundValues? column.name) with
    | none => return none
    | some literals => do
      let values ← literals.mapM (keyValue column)
      let others ← bindings terms rest
      return others.map (distinct values :: ·)

/-- The lookup that answers a filter over rows of a schema. -/
def ofFilter (filter : Option Expression) (schema : Schema) : Except QueryError KeyLookup :=
  match filter with
  | none => return scan
  | some filter =>
    if schema.keyColumns.isEmpty then return scan
    else do
      match ← bindings filter.conjuncts schema.keyColumns with
      | some values => return keys (combinations values)
      | none => return scan

end KeyLookup

end StreamSql
