import StreamSql.Catalog

/-!
# Applying catalog commands

A command is checked against the catalog, carried out, and shown to the interceptors with the entry
as it then stands. If one of them objects, the command is undone and the objection is the answer.

What one command did is kept in enough detail to take it back. `Change.undo` takes back only what
the command itself did: it restores the entry only while the entry still is what the command left,
and then it removes the links that the command added and restores those that it removed, as far as
both ends exist.
-/

namespace StreamSql

/-! ## Changes -/

structure Change where
  name : SourceName
  before : Option Source
  after : Option Source
  /-- The entries that `name` was made a reader of. -/
  linked : List SourceName := []
  /-- The entries that `name` ceased to be a reader of. -/
  unlinked : List SourceName := []
  deriving DecidableEq

namespace Change

/-- Restores the link from `feed` if its ends are there. -/
def relink (reader : SourceName) (catalog : Catalog) (feed : SourceName) : Catalog :=
  if catalog.contains feed && catalog.contains reader then catalog.addLink reader feed
  else catalog

def undo (change : Change) (catalog : Catalog) : Catalog :=
  if catalog.get? change.name = change.after then
    let restored := catalog.set change.name change.before
    let pruned := change.linked.foldl (Catalog.removeLink change.name) restored
    change.unlinked.foldl (relink change.name) pruned
  else catalog

end Change

/-- What an accepted command reports, with the change to the catalog if there was one. -/
structure Applied where
  message : String
  change : Option Change
  deriving DecidableEq

namespace Applied

/-- Whether the command left the catalog as it was. -/
def isNoop (applied : Applied) : Bool := applied.change.isNone

end Applied

/-- Takes back what an accepted command did. Entries that were changed since keep their changes. -/
def Catalog.revert (catalog : Catalog) (applied : Applied) : Catalog :=
  match applied.change with
  | some change => change.undo catalog
  | none => catalog

/-! ## Commands -/

/--
Looks at a command after it has been carried out, together with the entry it has left, and may
object to it. -/
abbrev Interceptor := CatalogCommand → Option Source → Option Diagnostic

namespace Catalog

/-- An accepted command: the report on it and the catalog it leaves. -/
structure Outcome where
  applied : Applied
  catalog : Catalog

/-- A command that is accepted but has nothing to do. -/
def Outcome.noop (message : String) (catalog : Catalog) : Outcome := ⟨⟨message, none⟩, catalog⟩

/--
Creates or replaces an entry, filled by a query that reads `feeds`. The entry never counts as
its own reader. -/
def create (catalog : Catalog) (c : CreateSource) (statement : String)
    (feeds : SortedSet SourceName) : Except CatalogError Outcome := do
  match catalog.get? c.name with
  | some existing =>
    if c.ifNotExists then
      return .noop (s!"Cannot add {c.kind.noun} '{c.name.text}': " ++
        s!"A {existing.kind.noun} with the same name already exists") catalog
    if !c.orReplace then throw (.alreadyExists c.name existing.kind)
    if existing.kind ≠ c.kind then
      throw (.kindMismatch c.name existing.kind c.kind "CREATE OR REPLACE")
  | none => pure ()
  let source := c.source statement
  let linked := feeds.toList.filter fun feed =>
    feed ≠ c.name && !catalog.hasLink feed c.name
  let change := { name := c.name, before := catalog.get? c.name, after := some source, linked }
  return ⟨⟨s!"{c.kind.capitalized} created", some change⟩,
    linked.foldl (addLink c.name) (catalog.set c.name (some source))⟩

/-- Removes an entry that nothing reads, and its own reading of others. -/
def drop (catalog : Catalog) (c : DropSource) : Except CatalogError Outcome := do
  match catalog.get? c.name with
  | none =>
    if c.ifExists then return .noop s!"Source {c.name.text} does not exist." catalog
    throw (.notFound c.name)
  | some existing =>
    if existing.kind ≠ c.kind then throw (.kindMismatch c.name existing.kind c.kind "DROP")
    let readers := catalog.readersOf c.name
    if !readers.isEmpty then throw (.referenced c.name readers.toList)
    let unlinked := catalog.feedsOf c.name
    let change := { name := c.name, before := some existing, after := none, unlinked }
    return ⟨⟨s!"Source `{c.name.text}` (topic: {existing.topic}) was dropped.", some change⟩,
      (unlinked.foldl (removeLink c.name) (catalog.set c.name none)).forgetFeed c.name⟩

/-- Adds value columns to an entry that no query created. -/
def alter (catalog : Catalog) (c : AlterSource) : Except CatalogError Outcome := do
  let existing ← catalog.find c.name
  if existing.kind ≠ c.kind then throw (.kindMismatch c.name existing.kind c.kind "ALTER")
  if existing.isQuerySink then throw (.alterQuerySink c.name)
  match c.newColumns.find? fun column => (existing.schema.find? column.1).isSome with
  | some column => throw (.columnAlreadyExists c.name column.1)
  | none =>
    let altered := { existing with schema := existing.schema.addValues c.newColumns }
    let change := { name := c.name, before := some existing, after := some altered }
    return ⟨⟨s!"{c.kind.capitalized} altered", some change⟩, catalog.set c.name (some altered)⟩

/-- Checks a command and carries it out. -/
def run (catalog : Catalog) (command : CatalogCommand) (statement : String)
    (feeds : SortedSet SourceName) : Except CatalogError Outcome :=
  match command with
  | .create c => catalog.create c statement feeds
  | .drop c => catalog.drop c
  | .alter c => catalog.alter c

/--
Applies a command for the statement it came from. `feeds` are the entries read by the query that
fills the created entry, none if there is no query. -/
def apply (catalog : Catalog) (interceptors : List Interceptor) (command : CatalogCommand)
    (statement : String) (feeds : SortedSet SourceName := .empty) :
    Except Diagnostic Applied × Catalog :=
  match catalog.run command statement feeds with
  | .error e => (.error (diagnostic e), catalog)
  | .ok outcome =>
    match interceptors.findSome? (· command (outcome.catalog.get? command.name)) with
    | some objection => (.error objection, outcome.catalog.revert outcome.applied)
    | none => (.ok outcome.applied, outcome.catalog)

end Catalog

end StreamSql
