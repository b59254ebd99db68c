import SchemaCompiler.Table.Basic
import SchemaCompiler.Name.Case
import SchemaCompiler.Name.Inflection
import SchemaCompiler.Text.Pieces

/-
Relations between tables.

Relations are derived from foreign keys.  Each foreign key gives its own table
an outgoing relation to one row, and the table referred to an incoming relation
to many rows, unless both tables are the same.

Names are chosen so that no two relations of a table, and no relation and column
of it, have one camelCase property.
-/

namespace SchemaCompiler

/-- The relation from a row to the row that one of its columns refers to. -/
structure OutgoingRelation where
  /-- The name. -/
  name : String
  /-- The column with the reference. -/
  column : String
  /-- The table referred to. -/
  targetTable : String
  /-- The column referred to. -/
  targetColumn : String
  /-- What becomes of the row when the row referred to is deleted. -/
  onDelete : DeletePolicy
deriving DecidableEq, Repr

/-- The relation from a row to the rows of another table that refer to it. -/
structure IncomingRelation where
  /-- The name. -/
  name : String
  /-- The table with the reference. -/
  sourceTable : String
  /-- The column with the reference. -/
  sourceColumn : String
deriving DecidableEq, Repr

/-- How many rows a relation leads to. -/
inductive Cardinality where
  /-- One row. -/
  | one
  /-- Any number of rows. -/
  | many
deriving DecidableEq, Repr

/-- Whether no taken property is that of the name. -/
def isFree (taken : List String) (name : String) : Bool :=
  !taken.contains (Name.camel name)

/-- The name with the number `n` after it. -/
def numbered (name : String) (n : Nat) : String :=
  name ++ "_" ++ Decimal.natText n

/-- The first free numbered name from number `n` on, when `tries` more are tried
before the last. -/
def freeNumbered (taken : List String) (name : String) : (tries n : Nat) → String
  | 0, n => numbered name n
  | tries + 1, n =>
      if isFree taken (numbered name n) then numbered name n
      else freeNumbered taken name tries (n + 1)

/-- The first free name among the preferred one, the qualified one, and the
qualified one with the numbers from two on.

Distinct numbers give distinct properties, so when as many numbers as there are
taken properties have failed, the next one is free. -/
def freeName (taken : List String) (preferred qualified : String) : String :=
  if isFree taken preferred then preferred
  else if isFree taken qualified then qualified
  else freeNumbered taken qualified taken.length 2

/-- The relation name that a column with a reference suggests: its own name
without `_id`, or else the singular of the table referred to. -/
def ForeignKey.relationName (reference : ForeignKey) (column : String) : String :=
  match Text.beforeEnding? ['_', 'i', 'd'] column.toList with
  | some (c :: rest) => String.ofList (c :: rest)
  | _ => Name.singular reference.table

/-- The relation name that a column suggests, if it has a reference. -/
def Column.relationName? (column : Column) : Option String :=
  column.reference.map fun reference => reference.relationName column.name

namespace Table

/-- The properties of the columns. -/
def columnProperties (table : Table) : List String :=
  table.columns.map fun column => Name.camel column.name

/-- The outgoing relations for columns with references, in order, when some
properties are taken. -/
def outgoingFrom (taken : List String) : List (Column × ForeignKey) → List OutgoingRelation
  | [] => []
  | (column, reference) :: rest =>
      let preferred := reference.relationName column.name
      let qualified :=
        if preferred = column.name then preferred ++ "_record"
        else preferred ++ "_by_" ++ column.name
      let name := freeName taken preferred qualified
      ⟨name, column.name, reference.table, reference.column, reference.onDelete⟩
        :: outgoingFrom (taken ++ [Name.camel name]) rest

/-- The outgoing relations of a table, in column order. -/
def outgoing (table : Table) : List OutgoingRelation :=
  outgoingFrom table.columnProperties table.references

/-- The references that the columns of `sources` make to a table, each with the
name of its table, in table and column order. -/
def referencesTo (target : String) (sources : List Table) :
    List (String × Column × ForeignKey) :=
  sources.flatMap fun source =>
    (source.references.filter fun entry => entry.2.table == target).map (source.name, ·)

/-- The incoming relations for references from other tables, in order, when some
properties are taken. -/
def incomingFrom (taken : List String) :
    List (String × Column × ForeignKey) → List IncomingRelation
  | [] => []
  | (source, column, reference) :: rest =>
      let preferred := Name.plural source
      let qualified := preferred ++ "_by_" ++ reference.relationName column.name
      let name := freeName taken preferred qualified
      ⟨name, source, column.name⟩ :: incomingFrom (taken ++ [Name.camel name]) rest

/-- The incoming relations of a table from all others.  Their names avoid the
columns and the outgoing relations. -/
def incoming (table : Table) (others : List Table) : List IncomingRelation :=
  incomingFrom
    (table.columnProperties ++ table.outgoing.map fun relation => Name.camel relation.name)
    (referencesTo table.name others)

end Table

end SchemaCompiler
