import SchemaCompiler.Name.Derived
import SchemaCompiler.Table.Basic
import SchemaCompiler.TypeScript.Expr

/-
Columns as the storage layer defines them.

A column becomes a call of a constructor and a chain of modifiers, always in the
order not-null, default, unique, primary key, references.  A column that counts
up takes none of the first three, and a column of a composite key is not marked
as a key by itself.
-/

namespace SchemaCompiler

open TypeScript (Expr)

/-- The constructor of a storage column. -/
inductive StorageType where
  /-- Text of bounded length. -/
  | varchar
  /-- Text. -/
  | text
  /-- A whole number that counts up. -/
  | serial
  /-- A whole number. -/
  | integer
  /-- A decimal number. -/
  | numeric
  /-- A truth value. -/
  | boolean
  /-- A date. -/
  | date
  /-- A date and a time of day. -/
  | timestamp
  /-- A member of an enumeration, by its storage constant. -/
  | enumeration (constant : String)
deriving DecidableEq, Repr

namespace StorageType

/-- The symbol of a constructor. -/
def symbol : StorageType → String
  | varchar => "varchar"
  | text => "text"
  | serial => "serial"
  | integer => "integer"
  | numeric => "numeric"
  | boolean => "boolean"
  | date => "date"
  | timestamp => "timestamp"
  | enumeration constant => constant

/-- Whether the constructor is that of an enumeration. -/
def isEnumeration : StorageType → Bool
  | enumeration _ => true
  | _ => false

end StorageType

/-- A modifier of a storage column. -/
inductive StorageModifier where
  /-- The column does not accept null. -/
  | notNull
  /-- The column takes a value, by its literal, when none is given. -/
  | fallback (literal : String)
  /-- The column takes the time of insertion. -/
  | fallbackNow
  /-- No two rows share a value. -/
  | unique
  /-- The column is the primary key. -/
  | primaryKey
  /-- The value refers to a column, by the constant of its table and its
  property. -/
  | references (table property : String) (policy : Option DeletePolicy)
      (selfReference : Bool)
deriving DecidableEq, Repr

/-- A column as the storage layer defines it. -/
structure StorageColumn where
  /-- The constructor. -/
  type : StorageType
  /-- Options of the constructor, by name. -/
  options : List (String × String)
  /-- The modifiers, in order. -/
  modifiers : List StorageModifier
deriving DecidableEq, Repr

namespace StorageModifier

/-- Adds a modifier to an expression.  A reference to the column's own table
says its type, which could not be inferred. -/
def onto (owner : Expr) : StorageModifier → Expr
  | notNull => owner.method "notNull" []
  | fallback literal => owner.method "default" [.verbatim literal]
  | fallbackNow => owner.method "defaultNow" []
  | unique => owner.method "unique" []
  | primaryKey => owner.method "primaryKey" []
  | references table property policy selfReference =>
      owner.method "references" <|
        .arrow (if selfReference then "(): AnyPgColumn" else "()")
            (.access table property)
          :: policy.toList.map fun policy =>
            .object [("onDelete", .string policy.keyword)]

/-- Whether a modifier is a reference to the column's own table. -/
def isSelfReference : StorageModifier → Bool
  | references _ _ _ selfReference => selfReference
  | _ => false

end StorageModifier

namespace StorageColumn

/-- The expression that defines a column of the given name. -/
def expr (column : StorageColumn) (name : String) : Expr :=
  let options :=
    if column.options.isEmpty then []
    else [.object (column.options.map fun option => (option.1, .verbatim option.2))]
  column.modifiers.foldl StorageModifier.onto
    (.apply column.type.symbol (.string name :: options))

/-- The text that defines a column of the given name. -/
def render (column : StorageColumn) (name : String) : String :=
  (column.expr name).render 0

/-- Whether the column refers to its own table. -/
def isSelfReference (column : StorageColumn) : Bool :=
  column.modifiers.any StorageModifier.isSelfReference

end StorageColumn

namespace Column

/-- The constructor of a column.  A tag that means no enumeration is text. -/
def storageType (column : Column) (enumerations : List Enumeration) : StorageType :=
  match column.type with
  | .shortText => .varchar
  | .longText => .text
  | .autoIncrement => .serial
  | .integer => .integer
  | .decimal => .numeric
  | .boolean => .boolean
  | .date => .date
  | .dateTime => .timestamp
  | .geographic => .text
  | .named tag =>
      match Enumeration.ofTag? tag enumerations with
      | some enumeration => .enumeration (EnumNames.ofEnumeration enumeration).storageConst
      | none => .text

/-- The options of the constructor: the length of short text, or both numbers of
digits of a decimal. -/
def storageOptions (column : Column) : List (String × String) :=
  match column.type, column.length, column.precision, column.scale with
  | .shortText, some length, _, _ => [("length", Decimal.natText length)]
  | .decimal, _, some precision, some scale =>
      [("precision", Decimal.natText precision), ("scale", Decimal.natText scale)]
  | _, _, _, _ => []

/-- The modifier for a default.  Decimals are text, so their defaults are
quoted. -/
def storageDefault (column : Column) : List StorageModifier :=
  match column.fallback with
  | none => []
  | some .currentTimestamp => [.fallbackNow]
  | some (.bool value) => [.fallback (if value then "true" else "false")]
  | some (.number written) =>
      if column.type = .decimal then [.fallback (TypeScript.quote written)]
      else [.fallback written]
  | some (.text value) => [.fallback (TypeScript.quote value)]

/-- The modifiers that a column which counts up does not take. -/
def storageConstraints (column : Column) : List StorageModifier :=
  if column.type.isAutoIncrement then []
  else
    (if column.isNullable then [] else [.notNull])
      ++ column.storageDefault
      ++ if column.unique then [.unique] else []

/-- The modifier of a primary key of one column. -/
def storageKey (column : Column) (table : Table) : List StorageModifier :=
  if table.compositeKey?.isNone && table.isKey column.name then [.primaryKey] else []

/-- The modifier for a reference; the usual policy is not written. -/
def storageReference (column : Column) (table : Table) : List StorageModifier :=
  column.reference.toList.map fun reference =>
    .references (Name.camel reference.table) (Name.camel reference.column)
      (if reference.onDelete = .noAction then none else some reference.onDelete)
      (reference.table == table.name)

/-- A column as the storage layer defines it. -/
def storage (column : Column) (table : Table) (enumerations : List Enumeration) :
    StorageColumn where
  type := column.storageType enumerations
  options := column.storageOptions
  modifiers :=
    column.storageConstraints ++ column.storageKey table ++ column.storageReference table

end Column

end SchemaCompiler
