import SchemaCompiler.Artifact.StorageModule

/-
Validation schemas.

The file of a table has one schema for a row, one for a new row and one for a
changed row, and the types of what each accepts.  The schema of a new row leaves
out what the database fills and lets go what has a default or may be absent; the
schema of a changed row lets go everything but the key.
-/

namespace SchemaCompiler
namespace ValidationModule

open TypeScript (Entry Expr Import Statement Module)

/-- The schema of a row. -/
def baseConstant (table : ResolvedTable) : Statement :=
  .constant none table.names.baseSchema none <|
    (Expr.name "z").method "object"
      [.objectBlock (table.columns.map fun column =>
        .field column.property column.validation.expr)]

/-- The schema of one field of a row. -/
def fieldSchema (names : TableNames) (field : String) : Expr :=
  .member (.access names.baseSchema "shape") field

/-- The schema of a row without some fields. -/
def omitting (owner : Expr) (fields : List String) : Expr :=
  if fields.isEmpty then owner
  else .callBelow owner "omit" [.object (fields.map fun field => (field, .verbatim "true"))]

/-- The schema of a row with some fields that may be left out. -/
def widening (names : TableNames) (owner : Expr) (fields : List String) : Expr :=
  if fields.isEmpty then owner
  else
    .callBelow owner "extend"
      [.objectBlock (fields.map fun field =>
        .field field ((fieldSchema names field).method "optional" []))]

/-- The schema of a new row. -/
def insertConstant (table : ResolvedTable) : Statement :=
  .constant none table.names.insertSchema none <|
    widening table.names (omitting (.name table.names.baseSchema) table.fields.omitted)
      table.fields.widened

/-- The schema of a changed row. -/
def updateConstant (table : ResolvedTable) : Statement :=
  let everythingOptional := (Expr.name table.names.insertSchema).method "partial" []
  .constant none table.names.updateSchema none <|
    if table.fields.primaryKey.isEmpty then everythingOptional
    else
      everythingOptional.method "extend"
        [.objectBlock (table.fields.primaryKey.map fun key =>
          .field key (fieldSchema table.names key))]

/-- The type of what a schema accepts. -/
def acceptedType (name schema : String) : Statement :=
  .typeAlias name ("z.infer<typeof " ++ schema ++ ">")

/-- The types of what the three schemas accept. -/
def acceptedTypes (names : TableNames) : List Statement :=
  [acceptedType names.selectType names.baseSchema,
    acceptedType names.insertType names.insertSchema,
    acceptedType names.updateType names.updateSchema]

/-- The file of a table. -/
def ofTable (settings : Settings) (table : ResolvedTable) : Module where
  banner := settings.banner
  imports :=
    .value settings.validationImport "z"
      :: table.columns.flatMap fun column =>
        column.validation.base.enumSchema?.toList.map (.value StorageModule.enumsSource)
  paragraphs :=
    [[baseConstant table], [insertConstant table], [updateConstant table],
      acceptedTypes table.names]

end ValidationModule
end SchemaCompiler
