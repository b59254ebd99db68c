import SchemaCompiler.Artifact.StorageModule

/-
Types.

The file of a table exports the three types of its rows again, from the file of
validation schemas, and then the types of requests and answers, of the
parameters of a list, and of rows with what they are related to.
-/

namespace SchemaCompiler
namespace TypesModule

open TypeScript (Entry Expr Import InterfaceItem Property Statement Module)

/-- A property that is always present. -/
def present (name type : String) : InterfaceItem :=
  .property ⟨name, false, type⟩

/-- A property that may be left out. -/
def absentable (name type : String) : InterfaceItem :=
  .property ⟨name, true, type⟩

/-- An interface that extends no other. -/
def plainInterface (name : String) (items : List InterfaceItem) : Statement :=
  .interface name none none items

/-- The types of requests and answers. -/
def envelopes (names : TableNames) : List Statement :=
  [plainInterface names.listResponse
      [present "data" (names.selectType ++ "[]"), present "total" "number",
        present "page" "number", present "pageSize" "number",
        present "totalPages" "number"],
    plainInterface names.response [present "data" names.selectType],
    plainInterface names.createRequest [present "data" names.insertType],
    plainInterface names.updateRequest [present "data" names.updateType],
    plainInterface names.deleteResponse
      [present "success" "boolean", absentable "message" "string"]]

/-- The type of the property to sort by. -/
def sortType (table : ResolvedTable) : String :=
  if table.listView.sortable.isEmpty then "keyof " ++ table.names.selectType
  else Text.separated " | " (table.listView.sortable.map TypeScript.quote)

/-- The columns to filter by, as optional properties. -/
def filterProperties (table : ResolvedTable) : List Property :=
  table.listView.filterable.filterMap fun place =>
    table.columns[place]?.map fun column => ⟨column.property, true, column.surface.type.text⟩

/-- The type of the parameters of a list. -/
def listParams (table : ResolvedTable) : Statement :=
  plainInterface table.names.listParams <|
    [absentable "page" "number", absentable "pageSize" "number"]
      ++ (if table.listView.searchable.isEmpty then [] else [absentable "search" "string"])
      ++ [absentable "sortBy" (sortType table), absentable "sortOrder" "'asc' | 'desc'"]
      ++ if (filterProperties table).isEmpty then []
        else [.nested "filters" (filterProperties table)]

/-- The entries of the usual parameters of a list. -/
def listDefaultEntries (table : ResolvedTable) : List (Entry Expr) :=
  (table.listView.defaultSort.toList.flatMap fun order =>
      [.field "sortBy" (.string order.1), .field "sortOrder" (.string order.2.keyword)])
    ++ table.listView.pageSize.toList.map fun size =>
      .field "pageSize" (.verbatim (Decimal.natText size))

/-- The usual parameters of a list, if there are any. -/
def listDefaults (table : ResolvedTable) : List Statement :=
  if (listDefaultEntries table).isEmpty then []
  else
    [.constant none table.names.listDefaults none
      (.asConst (.objectBlock (listDefaultEntries table)))]

/-- The type of what a relation leads to. -/
def relationType (relation : ResolvedRelation) : String :=
  match relation.cardinality with
  | .many => relation.related.selectType ++ "[]"
  | .one =>
      if relation.nullable then relation.related.selectType ++ " | null"
      else relation.related.selectType

/-- The relations of both directions. -/
def relations (table : ResolvedTable) : List ResolvedRelation :=
  table.outgoing ++ table.incoming

/-- The type of a row with everything it is related to. -/
def withRelations (table : ResolvedTable) : Statement :=
  if table.hasRelations then
    .interface table.names.withRelations none (some table.names.selectType) <|
      (relations table).map fun relation =>
        absentable relation.property (relationType relation)
  else
    .typeAlias table.names.withRelations table.names.selectType

/-- The type of a row with one row that it refers to. -/
def withRelation (names : TableNames) (relation : ResolvedRelation) : Statement :=
  .interface (names.withRelation relation.name) none (some names.selectType)
    [present relation.property (relationType relation)]

/-- The types of rows with what they are related to. -/
def relationTypes (table : ResolvedTable) : List Statement :=
  withRelations table :: table.outgoing.map (withRelation table.names)

/-- The names of the three types of rows. -/
def rowTypes (names : TableNames) : List String :=
  [names.selectType, names.insertType, names.updateType]

/-- The imports of row types: the table's own from the validation schemas, and
those of related tables from beside. -/
def imports (settings : Settings) (table : ResolvedTable) : List Import :=
  let validation :=
    relativeModule settings.typesDirectory settings.validationDirectory table.names.stem
  (rowTypes table.names).map (.type validation)
    ++ (relations table).flatMap fun relation =>
      if relation.related.table = table.names.table then []
      else [.type ("./" ++ relation.related.stem) relation.related.selectType]

/-- The file of a table. -/
def ofTable (settings : Settings) (table : ResolvedTable) : Module where
  banner := settings.banner
  imports := imports settings table
  paragraphs :=
    (.types (rowTypes table.names)
      :: envelopes table.names ++ listParams table :: listDefaults table
      ++ relationTypes table).map fun statement => [statement]

end TypesModule
end SchemaCompiler
