import SchemaCompiler.Schema.Basic

/-
What stands in the way of generating code for a table.

A fault names the table it was found in and, where there is one, the column.
Faults of different tables are independent: each table is checked whatever was
found in the others.
-/

namespace SchemaCompiler

/-- Where a table names one of its columns. -/
inductive Mention where
  /-- In an index. -/
  | index (name : String)
  /-- Among the columns that a search covers. -/
  | searchable
  /-- Among the columns to sort by. -/
  | sortable
  /-- Among the columns to filter by. -/
  | filterable
  /-- In the order of the list view. -/
  | defaultSort
  /-- In a seed row, counted from one. -/
  | seedRow (number : Nat)
deriving DecidableEq, Repr

/-- The wording of a mention. -/
def Mention.text : Mention → String
  | .index name => "index '" ++ name ++ "'"
  | .searchable => "searchable list"
  | .sortable => "sortable list"
  | .filterable => "filterable list"
  | .defaultSort => "default sort"
  | .seedRow number => "seed row " ++ Decimal.natText number

/-- What a derived name is used for.  Names for one use must differ. -/
inductive NameUse where
  /-- The file of a table. -/
  | module
  /-- A constant of the storage directory. -/
  | storageConstant
  /-- The stem of type names. -/
  | typeStem
deriving DecidableEq, Repr

/-- The wording of a use. -/
def NameUse.text : NameUse → String
  | .module => "module"
  | .storageConstant => "storage constant"
  | .typeStem => "type stem"

/-- What stands in the way of generating code for a table. -/
inductive Fault where
  /-- A foreign key refers to a table that the schema lacks. -/
  | danglingTable (table column target : String)
  /-- A foreign key refers to a column that its target lacks. -/
  | danglingColumn (table column target targetColumn : String)
  /-- A relationship leads to or through a table that the schema lacks. -/
  | unknownTarget (table relationship target : String)
  /-- A column is named that the table lacks. -/
  | unknownColumn (table column : String) (mention : Mention)
  /-- A seed row sets a column that the database fills. -/
  | generatedColumn (table column : String) (mention : Mention)
  /-- A derived name is already in use by an earlier owner. -/
  | nameCollision (owner : String) (use : NameUse) (name earlier : String)
deriving DecidableEq, Repr

namespace Fault

/-- The table or enumeration that the fault was found in. -/
def table : Fault → String
  | danglingTable table _ _ => table
  | danglingColumn table _ _ _ => table
  | unknownTarget table _ _ => table
  | unknownColumn table _ _ => table
  | generatedColumn table _ _ => table
  | nameCollision owner _ _ _ => owner

/-- The column at fault, if there is one. -/
def column? : Fault → Option String
  | danglingTable _ column _ => some column
  | danglingColumn _ column _ _ => some column
  | unknownTarget _ _ _ => none
  | unknownColumn _ column _ => some column
  | generatedColumn _ column _ => some column
  | nameCollision _ _ _ _ => none

/-- What is wrong, without the place. -/
def message : Fault → String
  | danglingTable _ _ target => "references unknown table '" ++ target ++ "'"
  | danglingColumn _ _ target targetColumn =>
      "references unknown column '" ++ targetColumn ++ "' on table '" ++ target ++ "'"
  | unknownTarget _ relationship target =>
      "relationship '" ++ relationship ++ "' targets unknown table '" ++ target ++ "'"
  | unknownColumn _ _ mention =>
      mention.text ++ " refers to a column the table does not declare"
  | generatedColumn _ _ mention => mention.text ++ " sets a column the database generates"
  | nameCollision _ use name earlier =>
      use.text ++ " '" ++ name ++ "' is already derived from '" ++ earlier ++ "'"

/-- The wording of a fault. -/
def text (fault : Fault) : String :=
  let place :=
    match fault.column? with
    | some column => " column '" ++ column ++ "'"
    | none => ""
  "table '" ++ fault.table ++ "'" ++ place ++ ": " ++ fault.message

end Fault

/-- The tables that a relationship leads to and through. -/
def Relationship.tables (relationship : Relationship) : List String :=
  relationship.target :: relationship.through.toList

namespace Table

/-- The fault of one foreign key, if it leads nowhere. -/
def referenceFault? (table : Table) (tables : List Table) (column : Column)
    (reference : ForeignKey) : Option Fault :=
  match Schema.tableIn? reference.table tables with
  | none => some (.danglingTable table.name column.name reference.table)
  | some target =>
      match target.column? reference.column with
      | none =>
          some (.danglingColumn table.name column.name reference.table reference.column)
      | some _ => none

/-- The faults of one relationship: its target first, then the table between. -/
def relationshipFaults (table : Table) (tables : List Table) (relationship : Relationship) :
    List Fault :=
  (relationship.tables.filter fun name => (Schema.tableIn? name tables).isNone).map fun name =>
    .unknownTarget table.name relationship.name name

/-- The faults of the foreign keys, in column order, and then of the declared
relationships. -/
def referenceFaults (table : Table) (tables : List Table) : List Fault :=
  (table.references.filterMap fun entry => table.referenceFault? tables entry.1 entry.2)
    ++ table.relationships.flatMap (table.relationshipFaults tables)

/-- The columns that indexes and the list view name, each with its mention. -/
def mentions (table : Table) : List (String × Mention) :=
  (table.indexes.flatMap fun index => index.columns.map (·, Mention.index index.name))
    ++ table.listView.searchable.map (·, Mention.searchable)
    ++ table.listView.sortable.map (·, Mention.sortable)
    ++ (table.listView.filterable.getD []).map (·, Mention.filterable)
    ++ (table.listView.defaultSort.toList.map fun order => (order.field, Mention.defaultSort))

/-- The faults of one seed row, in the order of its keys. -/
def seedRowFaults (table : Table) (number : Nat) (row : SeedRow) : List Fault :=
  row.filterMap fun cell =>
    match table.column? cell.1 with
    | none => some (.unknownColumn table.name cell.1 (.seedRow number))
    | some column =>
        if column.isAutoGenerated then
          some (.generatedColumn table.name cell.1 (.seedRow number))
        else
          none

/-- The faults of seed rows that are numbered from `number` on. -/
def seedFaultsFrom (table : Table) (number : Nat) : List SeedRow → List Fault
  | [] => []
  | row :: rest => table.seedRowFaults number row ++ table.seedFaultsFrom (number + 1) rest

/-- The faults of columns named by indexes, the list view and seed rows. -/
def columnFaults (table : Table) : List Fault :=
  (table.mentions.filterMap fun entry =>
      match table.column? entry.1 with
      | none => some (.unknownColumn table.name entry.1 entry.2)
      | some _ => none)
    ++ table.seedFaultsFrom 1 table.seed

/-- Everything that stands in the way of generating code for a table. -/
def faults (table : Table) (tables : List Table) : List Fault :=
  table.referenceFaults tables ++ table.columnFaults

end Table

/-- The faults of the references of every table, in table order. -/
def Schema.referenceFaults (schema : Schema) : List Fault :=
  schema.tables.flatMap fun table => table.referenceFaults schema.tables

end SchemaCompiler
