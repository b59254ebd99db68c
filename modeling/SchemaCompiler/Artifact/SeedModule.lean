import SchemaCompiler.Artifact.StorageModule

/-
Seed rows.

The file of a table lists its seed rows, typed as new rows.  Each value is
written the way the schema of a new row accepts it: decimals as text, and texts
in columns of dates as dates.
-/

namespace SchemaCompiler
namespace SeedModule

open TypeScript (Expr Import Statement Module)

/-- The expression for a seed value in a column of a type. -/
def cellExpr (type : ColumnType) (value : Json.Value) : Expr :=
  match type, value with
  | .decimal, .number number => .string number.text
  | .date, .string text => .verbatim ("new Date(" ++ TypeScript.quote text ++ ")")
  | .dateTime, .string text => .verbatim ("new Date(" ++ TypeScript.quote text ++ ")")
  | _, value => .json value

/-- The expression for a seed row. -/
def rowExpr (columns : List ResolvedColumn) (row : List (Nat × Json.Value)) : Expr :=
  .object <| row.filterMap fun cell =>
    columns[cell.1]?.map fun column => (column.property, cellExpr column.column.type cell.2)

/-- The list of seed rows. -/
def seedConstant (table : ResolvedTable) : Statement :=
  .constant none table.names.seedConst (some (table.names.insertType ++ "[]")) <|
    .listBlock (table.seed.map (rowExpr table.columns))

/-- The file of a table, if it has seed rows. -/
def ofTable? (settings : Settings) (table : ResolvedTable) : Option Module :=
  if table.seed.isEmpty then none
  else
    some
      { banner := settings.banner
        imports :=
          [.type
            (relativeModule settings.seedsDirectory settings.validationDirectory
              table.names.stem)
            table.names.insertType]
        paragraphs := [[seedConstant table]] }

end SeedModule
end SchemaCompiler
