import SchemaCompiler.Column.Storage
import SchemaCompiler.Column.Surface
import SchemaCompiler.Column.Validation
import SchemaCompiler.Schema.Fault
import SchemaCompiler.Table.Relation

/-
Tables with everything worked out that artifacts need.

A table is resolved once, against the schema it stands in, and only when nothing
is at fault with it.  The resolved table holds the derived names, the three
mappings of each column, the relations in both directions, and which fields the
schemas of new and changed rows treat in a special way.  Artifacts are written
from it alone.
-/

namespace SchemaCompiler

/-- A column with its three mappings. -/
structure ResolvedColumn where
  /-- The column. -/
  column : Column
  /-- The property of generated code. -/
  property : String
  /-- The column as the storage layer defines it. -/
  storage : StorageColumn
  /-- The column as input is validated. -/
  validation : ValidationChain
  /-- The column as seen from outside. -/
  surface : Surface
deriving Repr

/-- A relation of either direction. -/
structure ResolvedRelation where
  /-- The name. -/
  name : String
  /-- The property of generated code. -/
  property : String
  /-- How many rows the relation leads to. -/
  cardinality : Cardinality
  /-- The names of the table on the other side. -/
  related : TableNames
  /-- The property of the column with the reference. -/
  foreignKey : String
  /-- The property of the column referred to. -/
  references : String
  /-- Whether the column with the reference, being one of this table, accepts
  null. -/
  nullable : Bool
deriving DecidableEq, Repr

/-- A declared relationship. -/
structure ResolvedRelationship where
  /-- The name. -/
  name : String
  /-- The property of generated code. -/
  property : String
  /-- The number of rows on each side. -/
  kind : RelationshipKind
  /-- The names of the table on the other side. -/
  target : TableNames
  /-- The names of the table between the two sides. -/
  through : Option TableNames
  /-- The properties of the column that refers to the other side and of the column
  referred to, for a relationship of one row with one. -/
  link : Option (String × String)
deriving DecidableEq, Repr

/-- An index. -/
structure ResolvedIndex where
  /-- The name in the database. -/
  name : String
  /-- The property of generated code. -/
  property : String
  /-- The properties of the columns. -/
  columns : List String
  /-- Whether no two rows share the indexed values. -/
  unique : Bool
deriving DecidableEq, Repr

/-- The fields that the schemas of a table treat in a special way. -/
structure FieldSets where
  /-- All fields. -/
  base : List String
  /-- The fields that a new row leaves to the database. -/
  omitted : List String
  /-- The fields that a new row may leave out although the base schema does not
  say so. -/
  widened : List String
  /-- The fields of the primary key, which a changed row must name. -/
  primaryKey : List String
deriving DecidableEq, Repr

/-- A list view by properties and places of columns. -/
structure ResolvedListView where
  /-- The properties that a search covers. -/
  searchable : List String
  /-- The properties to sort by. -/
  sortable : List String
  /-- The places of the columns to filter by. -/
  filterable : List Nat
  /-- The order when none is asked for. -/
  defaultSort : Option (String × SortDirection)
  /-- The number of rows of a page. -/
  pageSize : Option Nat
deriving DecidableEq, Repr

/-- A table with everything worked out that artifacts need. -/
structure ResolvedTable where
  /-- The derived names. -/
  names : TableNames
  /-- The columns. -/
  columns : List ResolvedColumn
  /-- The properties of a primary key of several columns. -/
  compositeKey : Option (List String)
  /-- The indexes. -/
  indexes : List ResolvedIndex
  /-- The relations to rows referred to. -/
  outgoing : List ResolvedRelation
  /-- The relations to rows that refer to the table. -/
  incoming : List ResolvedRelation
  /-- The declared relationships. -/
  relationships : List ResolvedRelationship
  /-- The fields that schemas treat in a special way. -/
  fields : FieldSets
  /-- The list view. -/
  listView : ResolvedListView
  /-- The seed rows: the places of columns with their values, in column order. -/
  seed : List (List (Nat × Json.Value))
deriving Repr

namespace Column

/-- A column with its three mappings. -/
def resolve (column : Column) (table : Table) (enumerations : List Enumeration) :
    ResolvedColumn where
  column := column
  property := Name.camel column.name
  storage := column.storage table enumerations
  validation := column.validation enumerations
  surface := column.surface

/-- Whether a new row may leave the column out although the base schema does not
say so. -/
def isWidened (column : Column) (enumerations : List Enumeration) : Bool :=
  !column.isAutoGenerated && !(column.validation enumerations).isOptional
    && (column.isNullable || column.hasDefault || !column.isRequired)

end Column

namespace Table

/-- An outgoing relation of a table, resolved. -/
def resolveOutgoing (table : Table) (relation : OutgoingRelation) : ResolvedRelation where
  name := relation.name
  property := Name.camel relation.name
  cardinality := .one
  related := .ofTable relation.targetTable
  foreignKey := Name.camel relation.column
  references := Name.camel relation.targetColumn
  nullable := (table.column? relation.column).any Column.isNullable

/-- The property that an incoming relation refers to, as the first table and
column of the names of its source say. -/
def referencedProperty (tables : List Table) (relation : IncomingRelation) : String :=
  let reference :=
    (Schema.tableIn? relation.sourceTable tables).bind fun source =>
      (source.column? relation.sourceColumn).bind Column.reference
  match reference with
  | some reference => Name.camel reference.column
  | none => ForeignKey.usualColumn

/-- An incoming relation, resolved. -/
def resolveIncoming (tables : List Table) (relation : IncomingRelation) :
    ResolvedRelation where
  name := relation.name
  property := Name.camel relation.name
  cardinality := .many
  related := .ofTable relation.sourceTable
  foreignKey := Name.camel relation.sourceColumn
  references := referencedProperty tables relation
  nullable := false

/-- The first reference of a table to a target, as properties of both columns. -/
def linkTo? (table : Table) (target : String) : Option (String × String) :=
  (table.references.find? fun entry => entry.2.table == target).map fun entry =>
    (Name.camel entry.1.name, Name.camel entry.2.column)

/-- A declared relationship, resolved. -/
def resolveRelationship (table : Table) (relationship : Relationship) :
    ResolvedRelationship where
  name := relationship.name
  property := Name.camel relationship.name
  kind := relationship.kind
  target := .ofTable relationship.target
  through := relationship.through.map .ofTable
  link := if relationship.kind = .oneToOne then table.linkTo? relationship.target else none

/-- An index, resolved. -/
def resolveIndex (index : Index) : ResolvedIndex where
  name := index.name
  property := Name.camel index.name
  columns := index.columns.map Name.camel
  unique := index.unique

/-- The fields that the schemas of a table treat in a special way. -/
def fieldSets (table : Table) (enumerations : List Enumeration) : FieldSets where
  base := table.columnProperties
  omitted :=
    (table.columns.filter Column.isAutoGenerated).map fun column => Name.camel column.name
  widened :=
    (table.columns.filter fun column => column.isWidened enumerations).map fun column =>
      Name.camel column.name
  primaryKey := table.keyColumns.map fun column => Name.camel column.name

/-- The places, counted from `place`, of the columns that satisfy a condition. -/
def placesFrom (holds : Column → Bool) (place : Nat) : List Column → List Nat
  | [] => []
  | column :: rest =>
      if holds column then place :: placesFrom holds (place + 1) rest
      else placesFrom holds (place + 1) rest

/-- Whether a column can be filtered by. -/
def isFilterable (table : Table) (column : Column) : Bool :=
  match table.listView.filterable with
  | some names => names.contains column.name
  | none => !column.form.hidden

/-- The list view, resolved. -/
def resolveListView (table : Table) : ResolvedListView where
  searchable := table.listView.searchable.map Name.camel
  sortable := table.listView.sortable.map Name.camel
  filterable := placesFrom table.isFilterable 0 table.columns
  defaultSort :=
    table.listView.defaultSort.map fun order => (Name.camel order.field, order.direction)
  pageSize := table.listView.pageSize

/-- The cells of a seed row for columns whose places count from `place`, in
column order. -/
def cellsFrom (row : SeedRow) (place : Nat) : List Column → List (Nat × Json.Value)
  | [] => []
  | column :: rest =>
      match Json.Fields.get? column.name row with
      | some value => (place, value) :: cellsFrom row (place + 1) rest
      | none => cellsFrom row (place + 1) rest

/-- Everything that artifacts need of a table, whatever may be at fault with it. -/
def resolved (table : Table) (others : List Table) (schema : Schema) : ResolvedTable where
  names := .ofTable table.name
  columns := table.columns.map fun column => column.resolve table schema.enumerations
  compositeKey := table.compositeKey?.map fun key => key.map fun c => Name.camel c.name
  indexes := table.indexes.map resolveIndex
  outgoing := table.outgoing.map table.resolveOutgoing
  incoming := (table.incoming others).map (resolveIncoming schema.tables)
  relationships := table.relationships.map table.resolveRelationship
  fields := table.fieldSets schema.enumerations
  listView := table.resolveListView
  seed := table.seed.map fun row => cellsFrom row 0 table.columns

/-- Resolves a table of a schema, given all other tables, or reports everything
that is at fault with it. -/
def resolve (table : Table) (others : List Table) (schema : Schema) :
    Except (List Fault) ResolvedTable :=
  match table.faults schema.tables with
  | [] => .ok (table.resolved others schema)
  | faults => .error faults

end Table

namespace ResolvedTable

/-- The first column of a name. -/
def column? (table : ResolvedTable) (name : String) : Option ResolvedColumn :=
  table.columns.find? fun resolved => resolved.column.name == name

/-- Whether the table has relations in either direction. -/
def hasRelations (table : ResolvedTable) : Bool :=
  !table.outgoing.isEmpty || !table.incoming.isEmpty

end ResolvedTable

end SchemaCompiler
