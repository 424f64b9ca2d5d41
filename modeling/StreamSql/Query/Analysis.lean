import StreamSql.Catalog
import StreamSql.Query.Error
import StreamSql.Statement

/-!
# Analysis of queries

A query with the sources of its `FROM` clause looked up in the catalog, its joins flattened, and all
its column references known to resolve. The tree of joins has to lean to the left: every join adds
one source to those joined before it, on an equality between a column of the new source and a column
of the others.
-/

namespace StreamSql

/-- A source with the alias that the query refers to it by. -/
structure QuerySource where
  aliasName : String
  source : Source
  deriving DecidableEq

/-- An equality join. The left column is of the sources joined so far, the right one of the source
that the join adds. -/
structure JoinClause where
  kind : JoinKind
  left : ColumnReference
  right : ColumnReference
  /-- The place of the added source among the sources. -/
  rightSource : Nat
  deriving DecidableEq

/-- The sources of a query from left to right, and the joins in the order in which they are made. -/
structure FromClause where
  sources : List QuerySource := []
  joins : List JoinClause := []
  deriving DecidableEq

/-- A column reference with the column it denotes and the source that owns it. -/
structure FoundColumn where
  source : QuerySource
  column : Column
  deriving DecidableEq

namespace FromClause

/-- The source that a qualifier denotes: the one of that alias, or else the only one of that
name. -/
def findSource? (f : FromClause) (qualifier : String) : Option QuerySource :=
  match f.sources.find? (·.aliasName == qualifier) with
  | some source => some source
  | none =>
    match f.sources.filter (·.source.name.text == qualifier) with
    | [only] => some only
    | _ => none

/-- The column of a name in one source. -/
def columnIn (reference : ColumnReference) (source : QuerySource) : Option FoundColumn :=
  (source.source.schema.find? reference.name).map (⟨source, ·⟩)

/-- The column that a reference denotes. Without a qualifier it must be in one source only. -/
def resolve (f : FromClause) (reference : ColumnReference) : Except QueryError FoundColumn :=
  match reference.qualifier with
  | some qualifier =>
    match (f.findSource? qualifier).bind (columnIn reference) with
    | some resolved => .ok resolved
    | none => .error (.columnNotFound reference.text)
  | none =>
    match f.sources.filterMap (columnIn reference) with
    | [] => .error (.columnNotFound reference.text)
    | [only] => .ok only
    | candidates => .error <| .ambiguousColumn reference.name <|
        candidates.map fun c => s!"{c.source.aliasName}.{c.column.name}"

/-- Resolves every column reference of an expression. -/
def checkColumns (f : FromClause) (e : Expression) : Except QueryError Unit :=
  e.columns.forM fun reference => discard (f.resolve reference)

/--
The two columns of a join criterion, the one of the sources joined so far first. The criterion must
equate a column of the source called `added` with a column of another. -/
def orient (f : FromClause) (added : String) (criteria : Expression) :
    Except QueryError (ColumnReference × ColumnReference) :=
  let unsupported := QueryError.unsupportedJoinCriteria criteria.text
  match criteria with
  | .comparison .equal (.column a) (.column b) => do
    let aIsAdded := (← f.resolve a).source.aliasName == added
    let bIsAdded := (← f.resolve b).source.aliasName == added
    match aIsAdded, bIsAdded with
    | false, true => return (a, b)
    | true, false => return (b, a)
    | _, _ => throw unsupported
  | _ => .error unsupported

/-- Adds one source from the catalog. -/
def addSource (catalog : Catalog) (f : FromClause) (name : SourceName) (aliasName : Option String) :
    Except QueryError FromClause :=
  match catalog.get? name with
  | none => .error (.sourceNotFound name)
  | some source =>
    let aliasName := aliasName.getD name.text
    if f.sources.any (·.aliasName == aliasName) then .error (.duplicateAlias aliasName)
    else .ok { f with sources := f.sources ++ [⟨aliasName, source⟩] }

/-- Adds the sources and the joins of a relation. -/
def addRelation (catalog : Catalog) (f : FromClause) : Relation → Except QueryError FromClause
  | .source name aliasName => f.addSource catalog name aliasName
  | .join kind left right criteria => do
    let before ← f.addRelation catalog left
    let after ← before.addRelation catalog right
    match after.sources.drop before.sources.length with
    | [added] =>
      let (left, right) ← after.orient added.aliasName criteria
      let join := { kind, left, right, rightSource := before.sources.length }
      return { after with joins := after.joins ++ [join] }
    | _ => throw (.unsupportedJoinCriteria criteria.text)

end FromClause

structure Analysis extends FromClause where
  select : List SelectItem
  filter : Option Expression
  groupBy : List Expression
  limit : Option Nat
  isPull : Bool
  into : Option Sink

namespace Analysis

def sourceNames (a : Analysis) : List SourceName := a.sources.map (·.source.name)

def isJoin (a : Analysis) : Bool := !a.joins.isEmpty

/-- Whether the selection has an aggregate call. -/
def hasAggregates (a : Analysis) : Bool :=
  a.select.any fun
    | .expression e _ => e.isAggregate
    | .star _ => false

/-- Checks that the names in a selected item mean something. -/
def checkItem (f : FromClause) : SelectItem → Except QueryError Unit
  | .star none => .ok ()
  | .star (some qualifier) =>
    if (f.findSource? qualifier).isSome then .ok () else .error (.sourceNotFound ⟨qualifier⟩)
  | .expression e _ => f.checkColumns e

/-- Looks the names of a query up. -/
def ofQuery (catalog : Catalog) (query : Query) (into : Option Sink) :
    Except QueryError Analysis := do
  let clause ← FromClause.addRelation catalog {} query.relation
  query.select.forM (checkItem clause)
  query.filter.toList.forM clause.checkColumns
  query.groupBy.forM clause.checkColumns
  return {
    clause with
    select := query.select
    filter := query.filter
    groupBy := query.groupBy
    limit := query.limit
    isPull := query.isPull
    into }

/-- The analysis with every qualifier in an expression dropped, for a query over a single source. -/
def unqualified (a : Analysis) : Analysis :=
  { a with
    select := a.select.map fun
      | .expression e aliasName => .expression e.unqualified aliasName
      | .star qualifier => .star qualifier
    filter := a.filter.map (·.unqualified)
    groupBy := a.groupBy.map (·.unqualified) }

end Analysis

end StreamSql
