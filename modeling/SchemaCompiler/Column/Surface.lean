import SchemaCompiler.Column.Basic

/-
Columns as seen from outside.

Users of generated code see four scalar types.  Decimals, points on the globe
and members of enumerations are strings to them.
-/

namespace SchemaCompiler

/-- A scalar type that users of generated code see. -/
inductive SurfaceType where
  /-- A string. -/
  | string
  /-- A number. -/
  | number
  /-- A truth value. -/
  | boolean
  /-- A date. -/
  | date
deriving DecidableEq, Repr

/-- The written form of a scalar type. -/
def SurfaceType.text : SurfaceType → String
  | string => "string"
  | number => "number"
  | boolean => "boolean"
  | date => "Date"

/-- A column as seen from outside. -/
structure Surface where
  /-- The scalar type. -/
  type : SurfaceType
  /-- Whether null is accepted. -/
  nullable : Bool
deriving DecidableEq, Repr

/-- The written form of a column as seen from outside. -/
def Surface.text (surface : Surface) : String :=
  if surface.nullable then surface.type.text ++ " | null" else surface.type.text

namespace Column

/-- The scalar type of a column. -/
def surfaceType (column : Column) : SurfaceType :=
  match column.type with
  | .autoIncrement | .integer => .number
  | .boolean => .boolean
  | .date | .dateTime => .date
  | .shortText | .longText | .decimal | .geographic | .named _ => .string

/-- A column as seen from outside. -/
def surface (column : Column) : Surface :=
  ⟨column.surfaceType, column.isNullable⟩

end Column

end SchemaCompiler
