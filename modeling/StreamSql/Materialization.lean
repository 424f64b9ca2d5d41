import StreamSql.Key
import StreamSql.Schema
import StreamSql.Sorted.Map

/-!
# Materializations

The queryable state of a running query: the latest row of every key, spread over partitions by the
hash of the key. Key values are widened to the types of the key columns before they are encoded.
-/

namespace StreamSql

/-- A row that does not have one value for every column of its schema. -/
structure RowWidthError where
  expected : Nat
  actual : Nat
  deriving DecidableEq

instance : Reportable RowWidthError where
  diagnostic e :=
    { code := "ROW_001"
      message := s!"Row has {e.actual} values but the schema has {e.expected} columns" }

/-- Why a row cannot be stored. -/
inductive PutError where
  | width (error : RowWidthError)
  | key (error : KeyError)
  deriving DecidableEq

instance : Reportable PutError where
  diagnostic
    | .width e => diagnostic e
    | .key e => diagnostic e

/-- The rows of one partition by key. -/
abbrev Partition := SortedMap EncodedKey Row

structure Materialization where
  schema : Schema
  partitions : List Partition
  deriving DecidableEq

namespace Materialization

/-- A materialization without rows. It has at least one partition. -/
def empty (schema : Schema) (count : Nat) : Materialization :=
  ⟨schema, List.replicate (max count 1) .empty⟩

def partitionCount (m : Materialization) : Nat := m.partitions.length

def partitionIds (m : Materialization) : List PartitionId :=
  (List.range m.partitionCount).map .mk

/-- The rows of a partition by key; a partition that does not exist has none. -/
def partition (m : Materialization) (id : PartitionId) : Partition :=
  m.partitions.getD id.number .empty

/-- The values in the key columns of a row. -/
def keyValues (m : Materialization) (row : Row) : List Value :=
  ((m.schema.columns.zip row.values).filter (·.1.isKey)).map (·.2)

/-- Widens key values to the types of the key columns. -/
def coerceKey : List Column → List Value → Except KeyError (List Value)
  | column :: columns, value :: values =>
    match value.coerce? column.type with
    | some coerced => do return coerced :: (← coerceKey columns values)
    | none => .error (.badValue value column.type)
  | _, _ => .ok []

/-- The key that values stand for. -/
def encode (m : Materialization) (values : List Value) : Except KeyError EncodedKey :=
  let columns := m.schema.keyColumns
  if values.length ≠ columns.length then .error (.wrongCount columns.length values.length)
  else return .encode (← coerceKey columns values)

def home (m : Materialization) (key : EncodedKey) : PartitionId := key.partition m.partitionCount

/-- The partition that the rows of a key are in. -/
def partitionOf (m : Materialization) (values : List Value) : Except KeyError PartitionId :=
  return m.home (← m.encode values)

/-- Replaces the rows of one partition. -/
def setPartition (m : Materialization) (id : PartitionId) (rows : Partition) : Materialization :=
  { m with partitions := m.partitions.set id.number rows }

/-- Stores a row, in the stead of an earlier one of the same key, and says in which partition. -/
def put (m : Materialization) (row : Row) : Except PutError (PartitionId × Materialization) :=
  if row.width ≠ m.schema.size then .error (.width ⟨m.schema.size, row.width⟩)
  else
    match m.encode (m.keyValues row) with
    | .error e => .error (.key e)
    | .ok key =>
      let home := m.home key
      .ok (home, m.setPartition home ((m.partition home).insert key row))

/-- Removes the row of a key, and says whether there was one. -/
def delete (m : Materialization) (values : List Value) :
    Except KeyError (Bool × Materialization) := do
  let key ← m.encode values
  let rows := m.partition (m.home key)
  return (rows.contains key, m.setPartition (m.home key) (rows.erase key))

/-- The row of a key within one partition. -/
def getIn (m : Materialization) (id : PartitionId) (key : EncodedKey) : Option Row :=
  (m.partition id).get? key

/-- The row of a key. -/
def get (m : Materialization) (values : List Value) : Except KeyError (Option Row) := do
  let key ← m.encode values
  return m.getIn (m.home key) key

/-- The rows of a partition, in the order of their keys. -/
def scan (m : Materialization) (id : PartitionId) : List Row := (m.partition id).values

def size (m : Materialization) : Nat := m.partitions.foldl (· + ·.size) 0

end Materialization

end StreamSql
