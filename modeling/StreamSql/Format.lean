import StreamSql.Diagnostic

/-!
# Formats

The serialization formats of key and value columns, and their names.
-/

namespace StreamSql

inductive Format where
  | kafka
  | json
  | avro
  | protobuf
  | delimited
  | none
  deriving DecidableEq

/-- A format name that names no format. -/
structure UnknownFormat where
  name : String
  deriving DecidableEq

instance : Reportable UnknownFormat where
  diagnostic e :=
    { code := "FORMAT_002"
      message := s!"Unknown format: {e.name}"
      help := some "Known formats are KAFKA, JSON, AVRO, PROTOBUF, DELIMITED and NONE" }

namespace Format

def all : List Format := [.kafka, .json, .avro, .protobuf, .delimited, .none]

/-- The place of a format in `all`. -/
def place : Format → Nat
  | kafka => 0
  | json => 1
  | avro => 2
  | protobuf => 3
  | delimited => 4
  | none => 5

instance : Ord Format := ⟨compareOn place⟩

instance : Std.TransOrd Format := inferInstanceAs (Std.TransCmp (compareOn place))

instance : Std.LawfulEqOrd Format where
  eq_of_compare {a b} h := by cases a <;> cases b <;> first | rfl | cases h

def name : Format → String
  | kafka => "KAFKA"
  | json => "JSON"
  | avro => "AVRO"
  | protobuf => "PROTOBUF"
  | delimited => "DELIMITED"
  | none => "NONE"

/-- The format of a name in any case, blanks around it aside. -/
def ofName (name : String) : Except UnknownFormat Format :=
  match all.find? fun format => format.name == Text.upper (Text.trim name) with
  | some format => .ok format
  | Option.none => .error ⟨name⟩

end Format

end StreamSql
