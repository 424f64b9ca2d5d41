import StreamSql.Expression

/-!
# Queries

The parts of a `SELECT`: what it selects, the tree of joins it selects from, its filter, grouping
and limit, and whether it pulls the present state once or keeps pushing changes.
-/

namespace StreamSql

inductive SelectItem where
  /-- All columns, or those of one source: `*` or `O.*`. -/
  | star (qualifier : Option String)
  | expression (expression : Expression) (aliasName : Option String)

def SelectItem.text : SelectItem → String
  | star none => "*"
  | star (some qualifier) => s!"{qualifier}.*"
  | expression e none => e.text
  | expression e (some aliasName) => s!"{e.text} AS {aliasName}"

inductive JoinKind where
  | inner
  | left
  | outer
  deriving DecidableEq

def JoinKind.name : JoinKind → String
  | inner => "INNER"
  | left => "LEFT"
  | outer => "OUTER"

inductive Relation where
  | source (name : SourceName) (aliasName : Option String)
  | join (kind : JoinKind) (left right : Relation) (criteria : Expression)

structure Query where
  select : List SelectItem
  relation : Relation
  filter : Option Expression
  groupBy : List Expression
  limit : Option Nat
  isPull : Bool

/-- `SELECT * FROM relation`, pushing changes. -/
def Query.selectAll (relation : Relation) : Query where
  select := [.star none]
  relation
  filter := none
  groupBy := []
  limit := none
  isPull := false

end StreamSql
