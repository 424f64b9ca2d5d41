import StreamSql.Catalog.Command
import StreamSql.Catalog.Error
import StreamSql.Sorted.Map
import StreamSql.Sorted.Set

/-!
# The catalog

The entries by name, and for every entry that queries read, the names of the entries that they
write: a link from a feed to a reader says that the reader is filled by a query that reads the feed.
No entry without readers is listed among the links.
-/

namespace StreamSql

structure Catalog where
  sources : SortedMap SourceName Source
  readers : SortedMap SourceName (SortedSet SourceName)
  deriving DecidableEq

namespace Catalog

def empty : Catalog := ⟨.empty, .empty⟩

instance : Inhabited Catalog := ⟨empty⟩

def get? (catalog : Catalog) (name : SourceName) : Option Source := catalog.sources.get? name

def contains (catalog : Catalog) (name : SourceName) : Bool := catalog.sources.contains name

/-- The entry of a name that has to exist. -/
def find (catalog : Catalog) (name : SourceName) : Except CatalogError Source :=
  match catalog.get? name with
  | some source => .ok source
  | none => .error (.notFound name)

/-- The names of all entries, ascending. -/
def names (catalog : Catalog) : List SourceName := catalog.sources.values.map Source.name

/-- The entries that read from `name`. -/
def readersOf (catalog : Catalog) (name : SourceName) : SortedSet SourceName :=
  (catalog.readers.get? name).getD .empty

def hasLink (catalog : Catalog) (feed reader : SourceName) : Bool :=
  (catalog.readersOf feed).contains reader

/-- The entries that `reader` reads from. -/
def feedsOf (catalog : Catalog) (reader : SourceName) : List SourceName :=
  catalog.readers.keys.filter fun feed => catalog.hasLink feed reader

/-! ## Elementary changes -/

/-- Writes an entry, or removes it. -/
def set (catalog : Catalog) (name : SourceName) (source : Option Source) : Catalog :=
  { catalog with sources := catalog.sources.set name source }

def addLink (reader : SourceName) (catalog : Catalog) (feed : SourceName) : Catalog :=
  { catalog with
    readers := catalog.readers.insert feed ((catalog.readersOf feed).insert reader) }

/-- Removes a link, and with its last reader the feed's place among the links. -/
def removeLink (reader : SourceName) (catalog : Catalog) (feed : SourceName) : Catalog :=
  let remaining := (catalog.readersOf feed).erase reader
  { catalog with
    readers :=
      if remaining.isEmpty then catalog.readers.erase feed
      else catalog.readers.insert feed remaining }

/-- Gives up the place of `feed` among the links. -/
def forgetFeed (catalog : Catalog) (feed : SourceName) : Catalog :=
  { catalog with readers := catalog.readers.erase feed }

end Catalog

end StreamSql
