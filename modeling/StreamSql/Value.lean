import StreamSql.Binary64.Decimal

/-!
# Values and their types

The types of SQL columns and the widenings between them.

A SQL value is null or a value of one of the data types. Two notions of sameness live side by side:
`=` tells apart everything that can be told apart, down to the bits of a float, while
`Value.equals` is equality within a type as numbers and texts see it. `Value.compare?` also
compares across the numeric types.
-/

namespace StreamSql

/-! ## Data types -/

inductive DataType where
  | boolean
  | int4
  | int8
  | float8
  | utf8
  deriving DecidableEq

namespace DataType

def all : List DataType := [.boolean, .int4, .int8, .float8, .utf8]

/-- The place of a type in `all`. -/
def place : DataType → Nat
  | boolean => 0
  | int4 => 1
  | int8 => 2
  | float8 => 3
  | utf8 => 4

instance : Ord DataType := ⟨compareOn place⟩

def text : DataType → String
  | boolean => "BOOLEAN"
  | int4 => "INTEGER"
  | int8 => "BIGINT"
  | float8 => "DOUBLE"
  | utf8 => "STRING"

def isNumber : DataType → Bool
  | int4 | int8 | float8 => true
  | boolean | utf8 => false

/-- Whether a value of this type may be written into a column of type `target` without a cast. -/
def widensTo (type target : DataType) : Bool :=
  type == target ||
    match type, target with
    | int4, int8 | int4, float8 | int8, float8 => true
    | _, _ => false

/-- The wider of two numeric types. -/
def promote? (a b : DataType) : Option DataType :=
  if a.isNumber && b.isNumber then some (if a.widensTo b then b else a) else none

end DataType

/-! ## Values -/

inductive Value where
  | null
  | boolean (b : Bool)
  | int4 (n : Int32)
  | int8 (n : Int64)
  | float8 (x : Binary64)
  | utf8 (s : String)
  deriving DecidableEq

namespace Value

instance : Inhabited Value := ⟨null⟩

def isNull : Value → Bool
  | null => true
  | _ => false

/-- The type of a value; null has none. -/
def type? : Value → Option DataType
  | null => none
  | boolean _ => some .boolean
  | int4 _ => some .int4
  | int8 _ => some .int8
  | float8 _ => some .float8
  | utf8 _ => some .utf8

def text : Value → String
  | null => "null"
  | boolean true => "true"
  | boolean false => "false"
  | int4 n => toString n.toInt
  | int8 n => toString n.toInt
  | float8 x => x.text
  | utf8 s => s

/-- The value as one of type `target`, where it has that type or widens to it. Null has every
type. -/
def coerce? (value : Value) (target : DataType) : Option Value :=
  match value, target with
  | null, _ => some null
  | int4 n, .int8 => some (int8 n.toInt64)
  | int4 n, .float8 => some (float8 (.ofInt n.toInt))
  | int8 n, .float8 => some (float8 (.ofInt n.toInt))
  | v, t => if v.type? = some t then some v else none

/-- Same type and same content; floats by their numbers, so a NaN differs from itself. -/
def equals : Value → Value → Bool
  | null, null => true
  | boolean a, boolean b => a == b
  | int4 a, int4 b => a == b
  | int8 a, int8 b => a == b
  | float8 a, float8 b => a.equals b
  | utf8 a, utf8 b => a == b
  | _, _ => false

/-- An integer of either width. -/
def asInt? : Value → Option Int
  | int4 n => some n.toInt
  | int8 n => some n.toInt
  | _ => none

/-- A number of any numeric type as a float. -/
def asFloat? : Value → Option Binary64
  | int4 n => some (.ofInt n.toInt)
  | int8 n => some (.ofInt n.toInt)
  | float8 x => some x
  | _ => none

/--
The SQL comparison: integers exactly, other pairs of numbers as floats, booleans and texts among
themselves. `none` where a null takes part or the types do not compare. -/
def compare? : Value → Value → Option Ordering
  | boolean a, boolean b => some (compare a b)
  | utf8 a, utf8 b => some (compare a b)
  | a, b =>
    match a.asInt?, b.asInt? with
    | some m, some n => some (compare m n)
    | _, _ =>
      match a.asFloat?, b.asFloat? with
      | some x, some y => x.compare? y
      | _, _ => none

end Value

/-- The values of one row, in the order of its schema. -/
structure Row where
  values : List Value
  deriving DecidableEq

namespace Row

instance : Inhabited Row := ⟨⟨[]⟩⟩

def width (row : Row) : Nat := row.values.length

def get? (row : Row) (position : Nat) : Option Value := row.values[position]?

def text (row : Row) : String := "[" ++ String.intercalate ", " (row.values.map Value.text) ++ "]"

end Row

end StreamSql
