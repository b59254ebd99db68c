import SchemaCompiler.Artifact.Settings
import SchemaCompiler.Schema.Collision
import SchemaCompiler.Table.Resolved
import SchemaCompiler.TypeScript.Module

/-
Storage definitions.

The file of a table defines the table with its columns, its composite key and
its indexes, and then the relationships it declares.  A relationship of many rows
with many is only noted in a comment.
-/

namespace SchemaCompiler
namespace StorageModule

open TypeScript (Entry Expr Import Statement Module)

/-- The specifier of the file of enumerations, from its own directory. -/
def enumsSource : String := "./" ++ enumsStem

/-- The import of another table's constant; a table does not import itself. -/
def tableImport (own related : TableNames) : List Import :=
  if related.table = own.table then []
  else [.value ("./" ++ related.stem) related.tableConst]

/-- The imports that a column needs. -/
def columnImports (settings : Settings) (column : ResolvedColumn) : List Import :=
  let source :=
    if column.storage.type.isEnumeration then enumsSource else settings.storageImport
  .value source column.storage.type.symbol
    :: if column.storage.isSelfReference then [.type settings.storageImport "AnyPgColumn"]
      else []

/-- The entry of a composite key. -/
def keyEntry (properties : List String) : Entry Expr :=
  .field "pk" <|
    .apply "primaryKey" [.object [("columns", .list (properties.map (Expr.access "table")))]]

/-- The function that makes an index. -/
def indexFunction (index : ResolvedIndex) : String :=
  if index.unique then "uniqueIndex" else "index"

/-- The entry of an index. -/
def indexEntry (index : ResolvedIndex) : Entry Expr :=
  .field index.property <|
    (Expr.apply (indexFunction index) [.string index.name]).method "on"
      (index.columns.map (Expr.access "table"))

/-- The entries for the composite key and the indexes. -/
def extraEntries (table : ResolvedTable) : List (Entry Expr) :=
  table.compositeKey.toList.map keyEntry ++ table.indexes.map indexEntry

/-- The imports for the composite key and the indexes. -/
def extraImports (settings : Settings) (table : ResolvedTable) : List Import :=
  (table.compositeKey.toList.map fun _ => .value settings.storageImport "primaryKey")
    ++ table.indexes.map fun index => .value settings.storageImport (indexFunction index)

/-- The entries for the columns. -/
def columnEntries (table : ResolvedTable) : List (Entry Expr) :=
  table.columns.map fun column =>
    .field column.property (column.storage.expr column.column.name)

/-- The definition of the table. -/
def tableConstant (table : ResolvedTable) : Statement :=
  let extras :=
    if (extraEntries table).isEmpty then []
    else [Expr.arrow "(table)" (.grouped (.objectBlock (extraEntries table)))]
  .constant none table.names.tableConst none <|
    .apply "pgTable" <|
      .string table.names.table :: .objectBlock (columnEntries table) :: extras

/-- The entry of a declared relationship. -/
def relationshipEntry (own : TableNames) (relationship : ResolvedRelationship) :
    Entry Expr :=
  let target := relationship.target.tableConst
  match relationship.kind with
  | .oneToOne =>
      .field relationship.property <|
        .apply "one" <|
          .name target :: relationship.link.toList.map fun link =>
            .objectBlock
              [.field "fields" (.list [.access own.tableConst link.1]),
                .field "references" (.list [.access target link.2])]
  | .oneToMany => .field relationship.property (.apply "many" [.name target])
  | .manyToMany =>
      .remark <|
        relationship.property ++ ": many-to-many with " ++ relationship.target.table
          ++ " through " ++ (relationship.through.elim "?" TableNames.table)
          ++ " (not expanded)"

/-- The imports that a declared relationship needs. -/
def relationshipImports (own : TableNames) (relationship : ResolvedRelationship) :
    List Import :=
  match relationship.kind with
  | .manyToMany => []
  | _ => tableImport own relationship.target

/-- The parameters of the function that builds the relationships: the helpers
that are in use. -/
def relationshipParameters (relationships : List ResolvedRelationship) : String :=
  let uses (kind : RelationshipKind) : Bool :=
    relationships.any fun relationship => relationship.kind == kind
  let helpers :=
    (if uses .oneToOne then ["one"] else []) ++ if uses .oneToMany then ["many"] else []
  if helpers.isEmpty then "()"
  else "(\x7b " ++ Text.separated ", " helpers ++ " \x7d)"

/-- The definition of the declared relationships, if there are any. -/
def relationsConstant (table : ResolvedTable) : List Statement :=
  if table.relationships.isEmpty then []
  else
    [.constant none table.names.relationsConst none <|
      .apply "relations"
        [.name table.names.tableConst,
          .arrow (relationshipParameters table.relationships)
            (.grouped
              (.objectBlock (table.relationships.map (relationshipEntry table.names))))]]

/-- The imports for the declared relationships. -/
def relationsImports (settings : Settings) (table : ResolvedTable) : List Import :=
  if table.relationships.isEmpty then []
  else
    .value settings.ormImport "relations"
      :: table.relationships.flatMap (relationshipImports table.names)

/-- The file of a table. -/
def ofTable (settings : Settings) (table : ResolvedTable) : Module where
  banner := settings.banner
  imports :=
    .value settings.storageImport "pgTable"
      :: table.columns.flatMap (columnImports settings)
      ++ (table.outgoing.flatMap fun relation => tableImport table.names relation.related)
      ++ extraImports settings table
      ++ relationsImports settings table
  paragraphs := [tableConstant table] :: (relationsConstant table).map fun s => [s]

end StorageModule
end SchemaCompiler
