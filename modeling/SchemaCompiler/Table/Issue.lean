import SchemaCompiler.Table.Basic
import SchemaCompiler.Text.Blank

/-
What is wrong with a table on its own.

A table needs a name, columns and a primary key.  Issues come in that order, and
a table without columns is not also told that it has no key.
-/

namespace SchemaCompiler

/-- What is wrong with a table on its own. -/
inductive Issue where
  /-- The name is empty or blank. -/
  | missingName
  /-- There are no columns. -/
  | noColumns
  /-- No column is part of a primary key. -/
  | noPrimaryKey
deriving DecidableEq, Repr

/-- The wording of an issue. -/
def Issue.message : Issue → String
  | .missingName => "table has no name"
  | .noColumns => "table declares no columns"
  | .noPrimaryKey => "table has no primary key or auto-increment column"

/-- What is wrong with a table. -/
def Table.issues (table : Table) : List Issue :=
  (if Text.isBlankText table.name then [.missingName] else [])
    ++ if table.columns.isEmpty then [.noColumns]
      else if table.keyColumns.isEmpty then [.noPrimaryKey]
      else []

end SchemaCompiler
