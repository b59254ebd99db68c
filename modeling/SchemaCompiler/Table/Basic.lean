import SchemaCompiler.Column.Basic
import SchemaCompiler.Json.Value

/-
Tables.

A table has columns in order, and beside them indexes, declared relationships,
seed rows and what its list view needs.  Names are looked up by their first
occurrence.
-/

namespace SchemaCompiler

/-- An index over columns of a table. -/
structure Index where
  /-- The name. -/
  name : String
  /-- The columns, in order. -/
  columns : List String
  /-- Whether no two rows share the indexed values. -/
  unique : Bool
deriving DecidableEq, Repr

/-- How many rows stand on the two sides of a relationship. -/
inductive RelationshipKind where
  /-- One row on either side. -/
  | oneToOne
  /-- One row on this side and any number on the other. -/
  | oneToMany
  /-- Any number on both sides. -/
  | manyToMany
deriving DecidableEq, Repr

namespace RelationshipKind

/-- The name of a kind, in camelCase. -/
def keyword : RelationshipKind → String
  | .oneToOne => "oneToOne"
  | .oneToMany => "oneToMany"
  | .manyToMany => "manyToMany"

/-- The letters of a spelling, without underscores and hyphens and in lower
case. -/
def letters (spelling : String) : List Char :=
  (spelling.toList.filter fun c => !(c == '_' || c == '-')).map Char.toLower

/-- The kind that a spelling names; word separators and case do not matter. -/
def ofSpelling? (spelling : String) : Option RelationshipKind :=
  [oneToOne, oneToMany, manyToMany].find? fun kind =>
    letters spelling == letters kind.keyword

example : ofSpelling? "one-to-many" = some oneToMany := by decide
example : ofSpelling? "one to many" = none := by decide

end RelationshipKind

/-- A relationship that a table declares. -/
structure Relationship where
  /-- The name. -/
  name : String
  /-- The number of rows on each side. -/
  kind : RelationshipKind
  /-- The table on the other side. -/
  target : String
  /-- The table whose rows pair the two sides. -/
  through : Option String
deriving DecidableEq, Repr

/-- The direction of a sort. -/
inductive SortDirection where
  /-- The least value first. -/
  | ascending
  /-- The greatest value first. -/
  | descending
deriving DecidableEq, Repr

/-- The keyword of a direction. -/
def SortDirection.keyword : SortDirection → String
  | .ascending => "asc"
  | .descending => "desc"

/-- The direction that a keyword names, in lower or in upper case. -/
def SortDirection.ofSpelling? (spelling : String) : Option SortDirection :=
  if spelling = "asc" ∨ spelling = "ASC" then some .ascending
  else if spelling = "desc" ∨ spelling = "DESC" then some .descending
  else none

/-- The order of a list view. -/
structure SortOrder where
  /-- The column to sort by. -/
  field : String
  /-- The direction. -/
  direction : SortDirection
deriving DecidableEq, Repr

/-- What the list view of a table needs. -/
structure ListView where
  /-- The columns shown. -/
  listColumns : List String
  /-- The columns that a search covers. -/
  searchable : List String
  /-- The columns to sort by. -/
  sortable : List String
  /-- The columns to filter by; when nothing is said, every column that is not
  hidden. -/
  filterable : Option (List String)
  /-- The order when none is asked for. -/
  defaultSort : Option SortOrder
  /-- The number of rows of a page. -/
  pageSize : Option Nat
deriving DecidableEq, Repr

/-- A list view about which nothing is said. -/
def ListView.unspecified : ListView :=
  ⟨[], [], [], none, none, none⟩

/-- A row of seed data: values under column names, in order. -/
abbrev SeedRow := Json.Fields

/-- A table. -/
structure Table where
  /-- The name in the database. -/
  name : String
  /-- The name shown. -/
  displayName : Option String
  /-- The icon shown. -/
  icon : Option String
  /-- What the table is for. -/
  description : Option String
  /-- The columns, in order. -/
  columns : List Column
  /-- The indexes. -/
  indexes : List Index
  /-- The declared relationships. -/
  relationships : List Relationship
  /-- The seed rows. -/
  seed : List SeedRow
  /-- What the list view needs. -/
  listView : ListView
deriving Repr

namespace Table

/-- A table with a name and nothing else said. -/
def plain (name : String) : Table where
  name := name
  displayName := none
  icon := none
  description := none
  columns := []
  indexes := []
  relationships := []
  seed := []
  listView := .unspecified

/-- The first column of a name. -/
def column? (table : Table) (name : String) : Option Column :=
  table.columns.find? fun column => column.name == name

/-- The columns that are declared to be part of the primary key. -/
def declaredKey (table : Table) : List Column :=
  table.columns.filter Column.primaryKey

/-- The columns of a primary key with more than one declared column. -/
def compositeKey? (table : Table) : Option (List Column) :=
  if 1 < table.declaredKey.length then some table.declaredKey else none

/-- The columns of the primary key: the declared ones, or where there are none
those that count up. -/
def keyColumns (table : Table) : List Column :=
  if table.declaredKey.isEmpty then
    table.columns.filter fun column => column.type.isAutoIncrement
  else
    table.declaredKey

/-- Whether a column of that name is part of the primary key. -/
def isKey (table : Table) (name : String) : Bool :=
  table.keyColumns.any fun column => column.name == name

/-- The columns with a reference, each with it, in order. -/
def references (table : Table) : List (Column × ForeignKey) :=
  table.columns.filterMap fun column => column.reference.map (column, ·)

end Table

end SchemaCompiler
