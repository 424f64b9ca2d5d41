import StreamSql.Text
import StreamSql.Value

/-!
# Schemas

The columns of a source or of a query's result. A schema put together with `Schema.addKey` and
`Schema.addValue` has its key columns ahead of its value columns, each group in the order of the
calls, and numbers the columns of each group from zero.
-/

namespace StreamSql

/-- What a column is part of: the key of a row or its value. -/
inductive ColumnRole where
  | key
  | value
  deriving DecidableEq

structure Column where
  name : String
  type : DataType
  role : ColumnRole
  /-- The place among the columns of the same role. -/
  index : UInt64
  deriving DecidableEq

namespace Column

def isKey (c : Column) : Bool := c.role == .key

/-- Whether two columns agree in name and role. -/
def matchesIgnoringType (a b : Column) : Bool := a.name == b.name && a.role == b.role

/-- Whether a value of column `a` may be written into column `b`. -/
def fitsInto (a b : Column) : Bool := a.matchesIgnoringType b && a.type.widensTo b.type

def text (c : Column) : String :=
  if c.isKey then s!"{c.name} {c.type.text} KEY" else s!"{c.name} {c.type.text}"

end Column

structure Schema where
  columns : List Column
  deriving DecidableEq

namespace Schema

def empty : Schema := ⟨[]⟩

instance : Inhabited Schema := ⟨empty⟩

def keyColumns (s : Schema) : List Column := s.columns.filter (·.isKey)

def valueColumns (s : Schema) : List Column := s.columns.filter (!·.isKey)

def size (s : Schema) : Nat := s.columns.length

/-- Whether rows of the schema have a key. -/
def isKeyed (s : Schema) : Bool := s.columns.any (·.isKey)

/-- The first column of a name. -/
def find? (s : Schema) (name : String) : Option Column := s.columns.find? (·.name == name)

/-- The position of the first column of a name. -/
def position? (s : Schema) (name : String) : Option Nat := s.columns.findIdx? (·.name == name)

/-- Adds a key column, behind the keys and ahead of the values. -/
def addKey (s : Schema) (name : String) (type : DataType) : Schema :=
  let column : Column := ⟨name, type, .key, s.keyColumns.length.toUInt64⟩
  ⟨s.columns.takeWhile (·.isKey) ++ column :: s.columns.dropWhile (·.isKey)⟩

/-- Adds a value column at the end. -/
def addValue (s : Schema) (name : String) (type : DataType) : Schema :=
  ⟨s.columns ++ [⟨name, type, .value, s.valueColumns.length.toUInt64⟩]⟩

/-- Adds a key column or a value column. -/
def add (s : Schema) (name : String) (type : DataType) (isKey : Bool) : Schema :=
  if isKey then s.addKey name type else s.addValue name type

/-- Adds value columns, keeping the present columns as they are. -/
def addValues (s : Schema) (extra : List (String × DataType)) : Schema :=
  extra.foldl (fun s (name, type) => s.addValue name type) s

/--
Whether rows of schema `s` can be written into a sink of schema `sink`: column for column the names
and roles agree and the type widens. -/
def fitsInto (s sink : Schema) : Bool :=
  s.columns.length == sink.columns.length &&
    (s.columns.zip sink.columns).all fun (ours, theirs) => ours.fitsInto theirs

def text (s : Schema) : String := Text.commaSeparated (s.columns.map (·.text))

end Schema

end StreamSql
