import StreamSql.Diagnostic
import StreamSql.Key.Xxh3
import StreamSql.Value

/-!
# Row keys

The binary form of a row's key: the number of values, then each value as the number of its variant
and its content. Integers are varints, signed ones folded first; a float is its eight bytes, the
lowest first; a text is its length in bytes and its bytes. Keys are ordered by their bytes, and the
hash of the bytes chooses the partition.

A varint is a number as bytes of seven bits each, the lowest first, every byte but the last with its
high bit set. Signed numbers are first folded onto the unsigned ones, in the order `0, -1, 1, …`.
-/

namespace StreamSql

/-! ## Varints -/

namespace Varint

/-- What stops a reader. -/
inductive Failure where
  | endOfBytes
  | overlong
  deriving DecidableEq

def encode (n : Nat) : List UInt8 :=
  if n < 128 then [n.toUInt8] else (n % 128 + 128).toUInt8 :: encode (n / 128)
termination_by n

/-- Reads a number of at most `width` bits, and gives it with the bytes after it. No more bytes are
taken than the width needs, and no bit beyond it. -/
def decode (width : Nat) : List UInt8 → Except Failure (Nat × List UInt8)
  | [] => .error .endOfBytes
  | byte :: rest =>
    if byte < 128 then
      if byte.toNat < Nat.pow 2 width then .ok (byte.toNat, rest) else .error .overlong
    else if width ≤ 7 then .error .overlong
    else
      match decode (width - 7) rest with
      | .ok (high, rest) => .ok (byte.toNat - 128 + 128 * high, rest)
      | .error e => .error e

/-- Folds the integers onto the naturals. -/
def zigzag (n : Int) : Nat := if 0 ≤ n then 2 * n.toNat else 2 * (-n - 1).toNat + 1

/-- The integer folded onto `n`. -/
def unzigzag (n : Nat) : Int := if n % 2 = 0 then (n / 2 : Nat) else -(n / 2 : Nat) - 1

end Varint

/-! ## Keys -/

/-- A partition of a materialization. -/
structure PartitionId where
  number : Nat
  deriving DecidableEq

namespace PartitionId

instance : Ord PartitionId := ⟨compareOn number⟩

instance : Std.TransOrd PartitionId := inferInstanceAs (Std.TransCmp (compareOn number))

instance : Std.LawfulEqOrd PartitionId where
  eq_of_compare {a b} h := by
    obtain ⟨a⟩ := a
    obtain ⟨b⟩ := b
    exact congrArg PartitionId.mk (Std.LawfulEqOrd.eq_of_compare h)

end PartitionId

/-- Why values have no key, or bytes are no key. -/
inductive KeyError where
  | endOfBytes
  | overlongNumber
  | badBoolean
  | badText
  | unknownVariant
  | wrongCount (expected actual : Nat)
  | badValue (value : Value) (type : DataType)
  deriving DecidableEq

namespace KeyError

def reason : KeyError → String
  | endOfBytes => "Hit the end of buffer, expected more data"
  | overlongNumber =>
    "Found a varint that didn't terminate. Is the usize too big for this platform?"
  | badBoolean => "Found a bool that wasn't 0 or 1"
  | badText => "Tried to parse invalid utf-8"
  | unknownVariant => "Serde Deserialization Error"
  | wrongCount expected actual => s!"expected {expected} key values, got {actual}"
  | badValue value type => s!"{value.text} is not a valid {type.text} key"

instance : Reportable KeyError where
  diagnostic e := { code := "KEY_001", message := s!"Failed to encode key: {e.reason}" }

end KeyError

structure EncodedKey where
  bytes : List UInt8
  deriving DecidableEq

namespace EncodedKey

instance : Ord EncodedKey := ⟨compareOn bytes⟩

instance : Std.TransOrd EncodedKey := inferInstanceAs (Std.TransCmp (compareOn bytes))

instance : Std.LawfulEqOrd EncodedKey where
  eq_of_compare {a b} h := by
    obtain ⟨a⟩ := a
    obtain ⟨b⟩ := b
    exact congrArg EncodedKey.mk (Std.LawfulEqOrd.eq_of_compare h)

/-! ## Encoding -/

/-- The lowest `count` bytes of `n`, the lowest first. -/
def littleEndian : Nat → Nat → List UInt8
  | 0, _ => []
  | count + 1, n => n.toUInt8 :: littleEndian count (n / 256)

def encodeValue : Value → List UInt8
  | .null => Varint.encode 0
  | .boolean b => Varint.encode 1 ++ [if b then 1 else 0]
  | .int4 n => Varint.encode 2 ++ Varint.encode (Varint.zigzag n.toInt)
  | .int8 n => Varint.encode 3 ++ Varint.encode (Varint.zigzag n.toInt)
  | .float8 x => Varint.encode 4 ++ littleEndian 8 x.bits.toNat
  | .utf8 s => Varint.encode 5 ++ Varint.encode s.utf8ByteSize ++ s.toUTF8.data.toList

def encode (values : List Value) : EncodedKey :=
  ⟨Varint.encode values.length ++ values.flatMap encodeValue⟩

/-! ## Decoding -/

/-- A number of at most `width` bits. -/
def takeNumber (width : Nat) (bytes : List UInt8) : Except KeyError (Nat × List UInt8) :=
  match Varint.decode width bytes with
  | .ok result => .ok result
  | .error .endOfBytes => .error .endOfBytes
  | .error .overlong => .error .overlongNumber

def takeBytes (count : Nat) (bytes : List UInt8) : Except KeyError (List UInt8 × List UInt8) :=
  if bytes.length < count then .error .endOfBytes
  else .ok (bytes.take count, bytes.drop count)

def ofLittleEndian (bytes : List UInt8) : Nat :=
  bytes.foldr (fun byte high => byte.toNat + 256 * high) 0

def decodeValue (bytes : List UInt8) : Except KeyError (Value × List UInt8) := do
  let (variant, bytes) ← takeNumber 32 bytes
  match variant with
  | 0 => return (.null, bytes)
  | 1 =>
    let (content, bytes) ← takeBytes 1 bytes
    match content with
    | [0] => return (.boolean false, bytes)
    | [1] => return (.boolean true, bytes)
    | _ => throw .badBoolean
  | 2 =>
    let (n, bytes) ← takeNumber 32 bytes
    return (.int4 (.ofInt (Varint.unzigzag n)), bytes)
  | 3 =>
    let (n, bytes) ← takeNumber 64 bytes
    return (.int8 (.ofInt (Varint.unzigzag n)), bytes)
  | 4 =>
    let (content, bytes) ← takeBytes 8 bytes
    return (.float8 ⟨.ofNat (ofLittleEndian content)⟩, bytes)
  | 5 =>
    let (length, bytes) ← takeNumber 64 bytes
    let (content, bytes) ← takeBytes length bytes
    match String.fromUTF8? ⟨content.toArray⟩ with
    | some s => return (.utf8 s, bytes)
    | none => throw .badText
  | _ => throw .unknownVariant

def decodeValues : Nat → List UInt8 → Except KeyError (List Value × List UInt8)
  | 0, bytes => .ok ([], bytes)
  | count + 1, bytes => do
    let (value, bytes) ← decodeValue bytes
    let (values, bytes) ← decodeValues count bytes
    return (value :: values, bytes)

/-- The values of a key. Bytes after the last value are not looked at. -/
def decode (key : EncodedKey) : Except KeyError (List Value) := do
  let (count, bytes) ← takeNumber 64 key.bytes
  let (values, _) ← decodeValues count bytes
  return values

/-! ## Partitions -/

/-- The partition out of `count` that the bytes of a key are in. -/
def partitionOf (bytes : List UInt8) (count : Nat) : PartitionId :=
  if count ≤ 1 then ⟨0⟩ else ⟨(Xxh3.hash bytes).toNat % count⟩

def partition (key : EncodedKey) (count : Nat) : PartitionId := partitionOf key.bytes count

end EncodedKey

end StreamSql
