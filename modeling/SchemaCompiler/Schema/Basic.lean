import SchemaCompiler.Schema.Enumeration
import SchemaCompiler.Table.Issue

/-
Schemas.

A schema holds the enumerations and tables of one compilation, in the order in
which they were loaded.  That order is the order of everything generated.
-/

namespace SchemaCompiler

/-- The enumerations and tables of one compilation. -/
structure Schema where
  /-- The enumerations, in order. -/
  enumerations : List Enumeration
  /-- The tables, in order. -/
  tables : List Table
deriving Repr

namespace Schema

/-- The schema without enumerations and tables. -/
def empty : Schema := ⟨[], []⟩

/-- The first table of a name, in a list of tables. -/
def tableIn? (name : String) (tables : List Table) : Option Table :=
  tables.find? fun table => table.name == name

/-- The first table of a name. -/
def table? (schema : Schema) (name : String) : Option Table :=
  tableIn? name schema.tables

/-- Each table, in order, with all others. -/
def tablesWithOthers (schema : Schema) : List (Table × List Table) :=
  schema.tables.mapIdx fun number table => (table, schema.tables.eraseIdx number)

/-- The first table with issues, and its issues. -/
def firstIssues? (schema : Schema) : Option (String × List Issue) :=
  (schema.tables.find? fun table => !table.issues.isEmpty).map fun table =>
    (table.name, table.issues)

end Schema

end SchemaCompiler
