/-
The vocabulary of column types.

A column type is named by a tag.  Most types have more than one accepted
spelling and one canonical tag; a tag outside the vocabulary is kept as it is and
may name an enumeration of the schema.
-/

namespace SchemaCompiler

/-- What a column holds. -/
inductive ColumnType where
  /-- Text of bounded length. -/
  | shortText
  /-- Text of any length. -/
  | longText
  /-- A whole number that the database counts up. -/
  | autoIncrement
  /-- A whole number. -/
  | integer
  /-- A decimal number, which travels as text. -/
  | decimal
  /-- A truth value. -/
  | boolean
  /-- A calendar date. -/
  | date
  /-- A date and a time of day. -/
  | dateTime
  /-- A point on the globe, as latitude and longitude in one text. -/
  | geographic
  /-- A tag outside the vocabulary. -/
  | named (tag : String)
deriving DecidableEq, Repr, Inhabited

namespace ColumnType

/-- The accepted spellings of the vocabulary, with the types they name. -/
def vocabulary : List (String × ColumnType) :=
  [("varchar", .shortText), ("string", .shortText), ("text", .longText),
    ("serial", .autoIncrement), ("integer", .integer), ("int", .integer),
    ("decimal", .decimal), ("numeric", .decimal), ("money", .decimal),
    ("boolean", .boolean), ("bool", .boolean), ("date", .date),
    ("timestamp", .dateTime), ("datetime", .dateTime),
    ("geography", .geographic), ("location", .geographic)]

/-- The type that a tag names. -/
def ofTag (tag : String) : ColumnType :=
  match vocabulary.find? fun entry => entry.1 == tag with
  | some entry => entry.2
  | none => .named tag

/-- The canonical tag of a type. -/
def tag : ColumnType → String
  | .shortText => "varchar"
  | .longText => "text"
  | .autoIncrement => "serial"
  | .integer => "integer"
  | .decimal => "decimal"
  | .boolean => "boolean"
  | .date => "date"
  | .dateTime => "timestamp"
  | .geographic => "geography"
  | .named tag => tag

/-- Whether the database counts the values up. -/
def isAutoIncrement : ColumnType → Bool
  | .autoIncrement => true
  | _ => false

/-- Whether the values are whole numbers. -/
def isInteger : ColumnType → Bool
  | .integer | .autoIncrement => true
  | _ => false

/-- Whether the type is plain text, to which length and format rules apply. -/
def isText : ColumnType → Bool
  | .shortText | .longText => true
  | _ => false

/-- Whether the values are dates, with or without a time of day. -/
def isTemporal : ColumnType → Bool
  | .date | .dateTime => true
  | _ => false

example : ofTag "money" = .decimal := by decide
example : ofTag "Money" = .named "Money" := by decide

end ColumnType

end SchemaCompiler
