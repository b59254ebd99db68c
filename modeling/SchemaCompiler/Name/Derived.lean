import SchemaCompiler.Name.Case
import SchemaCompiler.Name.Inflection
import SchemaCompiler.Schema.Enumeration

/-
Names derived for generated code.

Every name that generated code gives to something is derived here from the name
of a table or of an enumeration.  The writers of artifacts take these names as
they are, so that what one file exports is what another imports.
-/

namespace SchemaCompiler

/-- The names derived from the name of a table. -/
structure TableNames where
  /-- The table name itself (`booking_items`). -/
  table : String
  /-- The file stem, which is the singular of the name (`booking_item`). -/
  stem : String
  /-- The constant of the table (`bookingItems`). -/
  tableConst : String
  /-- The constant of its relations (`bookingItemsRelations`). -/
  relationsConst : String
  /-- The stem of type names (`BookingItem`). -/
  pascal : String
  /-- The schema of a row (`bookingItemSchema`). -/
  baseSchema : String
  /-- The schema of a new row (`insertBookingItemSchema`). -/
  insertSchema : String
  /-- The schema of a changed row (`updateBookingItemSchema`). -/
  updateSchema : String
  /-- The type of a row (`BookingItem`). -/
  selectType : String
  /-- The type of a new row (`NewBookingItem`). -/
  insertType : String
  /-- The type of a changed row (`UpdateBookingItem`). -/
  updateType : String
  /-- The constant of the seed rows (`bookingItemSeed`). -/
  seedConst : String
deriving DecidableEq, Repr

namespace TableNames

/-- The names derived from the name of a table. -/
def ofTable (table : String) : TableNames :=
  let stem := Name.singular table
  let pascal := Name.pascal stem
  let camel := Name.camel stem
  let tableConst := Name.camel table
  { table := table
    stem := stem
    tableConst := tableConst
    relationsConst := tableConst ++ "Relations"
    pascal := pascal
    baseSchema := camel ++ "Schema"
    insertSchema := "insert" ++ pascal ++ "Schema"
    updateSchema := "update" ++ pascal ++ "Schema"
    selectType := pascal
    insertType := "New" ++ pascal
    updateType := "Update" ++ pascal
    seedConst := camel ++ "Seed" }

/-- The type of a page of rows. -/
def listResponse (names : TableNames) : String := names.pascal ++ "ListResponse"

/-- The type of an answer with one row. -/
def response (names : TableNames) : String := names.pascal ++ "Response"

/-- The type of a request to insert a row. -/
def createRequest (names : TableNames) : String := "Create" ++ names.pascal ++ "Request"

/-- The type of a request to change a row. -/
def updateRequest (names : TableNames) : String := "Update" ++ names.pascal ++ "Request"

/-- The type of an answer to a deletion. -/
def deleteResponse (names : TableNames) : String := "Delete" ++ names.pascal ++ "Response"

/-- The type of the parameters of a list request. -/
def listParams (names : TableNames) : String := names.pascal ++ "ListParams"

/-- The constant of the usual parameters of a list request. -/
def listDefaults (names : TableNames) : String := Name.camel names.stem ++ "ListDefaults"

/-- The type of a row with everything it is related to. -/
def withRelations (names : TableNames) : String := names.pascal ++ "WithRelations"

/-- The type of a row with one related row. -/
def withRelation (names : TableNames) (relation : String) : String :=
  names.pascal ++ "With" ++ Name.pascal relation

end TableNames

/-- The names derived from an enumeration. -/
structure EnumNames where
  /-- The name in the database, as declared. -/
  databaseName : String
  /-- The storage constant (`userStatusEnum`). -/
  storageConst : String
  /-- The schema of a member (`userStatusSchema`). -/
  schemaConst : String
  /-- The type of a member (`UserStatus`). -/
  typeName : String
  /-- The constant of the list of options (`userStatusOptions`). -/
  optionsConst : String
deriving DecidableEq, Repr

/-- The names derived from an enumeration.  The conventional ending of its name
does not show in them, except as declared. -/
def EnumNames.ofEnumeration (enumeration : Enumeration) : EnumNames :=
  let camel := Name.camel enumeration.baseName
  { databaseName := enumeration.name
    storageConst := camel ++ "Enum"
    schemaConst := camel ++ "Schema"
    typeName := Name.pascal enumeration.baseName
    optionsConst := camel ++ "Options" }

end SchemaCompiler
