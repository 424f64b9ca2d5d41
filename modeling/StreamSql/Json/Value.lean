import StreamSql.Config
import StreamSql.Json
import StreamSql.Key
import StreamSql.Schema

/-!
# JSON forms of values and schemas

A float is the text of its bits in hexadecimal, so that every float, a NaN too, reads back bit for
bit. Hexadecimal digits stand with the highest first; they are written in lower case and read in
either case.
-/

namespace StreamSql

/-! ## Hexadecimal text -/

namespace Hex

def digit (n : Nat) : Char := "0123456789abcdef".toList.getD n '0'

def digit? (c : Char) : Option Nat :=
  let n := c.toNat
  if '0'.toNat ≤ n && n ≤ '9'.toNat then some (n - '0'.toNat)
  else if 'a'.toNat ≤ n && n ≤ 'f'.toNat then some (n - 'a'.toNat + 10)
  else if 'A'.toNat ≤ n && n ≤ 'F'.toNat then some (n - 'A'.toNat + 10)
  else none

/-- The lowest `width` digits of `n`. -/
def digits : Nat → Nat → List Char
  | 0, _ => []
  | width + 1, n => digits width (n / 16) ++ [digit (n % 16)]

/-- The number that digits denote. -/
def ofDigits? (cs : List Char) : Option Nat :=
  cs.foldlM (fun n c => (digit? c).map (16 * n + ·)) 0

/-- A number written with exactly `width` digits. -/
def text (width n : Nat) : String := .ofList (digits width n)

/-- Reads a number written with exactly `width` digits. -/
def read? (width : Nat) (s : String) : Option Nat :=
  if s.toList.length = width then ofDigits? s.toList else none

/-- Two digits for every byte. -/
def ofBytes (bytes : List UInt8) : String := .ofList (bytes.flatMap fun b => digits 2 b.toNat)

def readBytes : List Char → Option (List UInt8)
  | [] => some []
  | high :: low :: rest => do
    let n ← ofDigits? [high, low]
    return n.toUInt8 :: (← readBytes rest)
  | _ => none

/-- Reads bytes written with two digits each. -/
def bytes? (s : String) : Option (List UInt8) := readBytes s.toList

end Hex

/-! ## Values -/

namespace DataType

/-- The name of a type as a JSON variant. -/
def tag : DataType → String
  | boolean => "Boolean"
  | int4 => "Int4"
  | int8 => "Int8"
  | float8 => "Float8"
  | utf8 => "Utf8"

instance : JsonForm DataType where
  toJson t := .text t.tag
  ofJson := Json.readName tag all

end DataType

instance : JsonForm Binary64 where
  toJson x := .text (Hex.text 16 x.bits.toNat)
  ofJson j := do
    match Hex.read? 16 (← j.readText) with
    | some bits => return ⟨.ofNat bits⟩
    | none => throw .malformed

instance : JsonForm Value where
  toJson
    | .null => .text "Null"
    | .boolean b => .tagged "Boolean" (toJson b)
    | .int4 n => .tagged "Int4" (.integer n.toInt)
    | .int8 n => .tagged "Int8" (.integer n.toInt)
    | .float8 x => .tagged "Float8" (toJson x)
    | .utf8 s => .tagged "Utf8" (toJson s)
  ofJson j :=
    match j.variant? with
    | some (.bare "Null") => return .null
    | some (.carrying "Boolean" content _) => return .boolean (← ofJson content)
    | some (.carrying "Int4" content _) => return .int4 (.ofInt (← content.readSigned 32))
    | some (.carrying "Int8" content _) => return .int8 (.ofInt (← content.readSigned 64))
    | some (.carrying "Float8" content _) => return .float8 (← ofJson content)
    | some (.carrying "Utf8" content _) => return .utf8 (← ofJson content)
    | _ => throw .malformed

instance : JsonForm Row where
  toJson row := .object [("values", toJson row.values)]
  ofJson j := return ⟨← j.fieldAt 0 "values"⟩

instance : JsonForm PartitionId where
  toJson p := .integer p.number
  ofJson j := return ⟨← j.readWord 32⟩

/-- Whole seconds, and the nanoseconds beyond them, without any other member. -/
instance : JsonForm Duration where
  toJson d := .object [("secs", .integer d.seconds), ("nanos", .integer d.subsecond)]
  ofJson j := do
    unless j.hasOnly ["secs", "nanos"] do throw .malformed
    let seconds ← j.fieldAtWith 0 "secs" none none fun m _ => m.readWord 64
    let nanos ← j.fieldAtWith 1 "nanos" none none fun m _ => m.readWord 32
    let d : Duration := ⟨seconds * 1_000_000_000 + nanos⟩
    if d.seconds < UInt64.size then return d else throw .malformed

/-! ## Schemas -/

namespace ColumnRole

def tag : ColumnRole → String
  | key => "Key"
  | value => "Value"

instance : JsonForm ColumnRole where
  toJson role := .text role.tag
  ofJson := Json.readName tag [key, value]

end ColumnRole

instance : JsonForm Column where
  toJson c := .object
    [("name", toJson c.name), ("ty", toJson c.type), ("namespace", toJson c.role),
      ("index", toJson c.index)]
  ofJson j := return {
    name := ← j.fieldAt 0 "name"
    type := ← j.fieldAt 1 "ty"
    role := ← j.fieldAt 2 "namespace"
    index := ← j.fieldAt 3 "index" }

instance : JsonForm Schema where
  toJson s := .object [("columns", toJson s.columns)]
  ofJson j := return ⟨← j.fieldAt 0 "columns"⟩

namespace Schema

/-- Reads the columns of a schema in short: the name, the type and whether it is a key. -/
def shortColumns (j : Json) : Except DecodeError (List (String × DataType × Bool)) :=
  j.itemsWith fun
    | .array (name :: type :: isKey :: _), _ =>
      return (← ofJson name, ← ofJson type, ← ofJson isKey)
    | _, _ => throw .malformed

/-- Reads a schema whose columns are given in short, in the order of the columns. -/
def ofShort (j : Json) : Except DecodeError Schema :=
  return (← shortColumns j).foldl (fun s (name, type, isKey) => s.add name type isKey) .empty

end Schema

end StreamSql
