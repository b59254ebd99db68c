import SchemaCompiler.Column.Type
import SchemaCompiler.Decimal.Binary64

/-
Columns of a table.

A column says what it holds, whether it may be empty, and what rules its input
has to meet.  Questions about a column that several parts of the compiler ask
are answered here, once.
-/

namespace SchemaCompiler

/-- The value a column takes when none is given. -/
inductive DefaultValue where
  /-- A truth value. -/
  | bool (value : Bool)
  /-- A number, by its written form. -/
  | number (written : String)
  /-- A text. -/
  | text (value : String)
  /-- The time at which the row is inserted. -/
  | currentTimestamp
deriving DecidableEq, Repr

namespace DefaultValue

/-- Whether the value is the time of insertion. -/
def isCurrentTimestamp : DefaultValue → Bool
  | .currentTimestamp => true
  | _ => false

/-- The texts that stand for the time of insertion. -/
def timestampWords : List String :=
  ["now", "now()", "CURRENT_TIMESTAMP", "current_timestamp"]

end DefaultValue

/-- What becomes of a row when the row it refers to is deleted. -/
inductive DeletePolicy where
  /-- The database decides. -/
  | noAction
  /-- The row is deleted too. -/
  | cascade
  /-- The deletion is refused. -/
  | restrict
  /-- The reference is emptied. -/
  | setNull
  /-- The reference takes its default. -/
  | setDefault
deriving DecidableEq, Repr, Inhabited

namespace DeletePolicy

/-- The keyword of a policy. -/
def keyword : DeletePolicy → String
  | .noAction => "no action"
  | .cascade => "cascade"
  | .restrict => "restrict"
  | .setNull => "set null"
  | .setDefault => "set default"

/-- The letters of a spelling, without spaces, underscores and hyphens and in
lower case. -/
def letters (spelling : String) : List Char :=
  (spelling.toList.filter fun c => !(c == ' ' || c == '_' || c == '-')).map Char.toLower

/-- The policy that a spelling names; word separators and case do not matter. -/
def ofSpelling? (spelling : String) : Option DeletePolicy :=
  [noAction, cascade, restrict, setNull, setDefault].find? fun policy =>
    letters spelling == letters policy.keyword

example : ofSpelling? "setNull" = some setNull := by decide
example : ofSpelling? "NO_ACTION" = some noAction := by decide
example : ofSpelling? "keep" = none := by decide

end DeletePolicy

/-- A reference to a column of a table. -/
structure ForeignKey where
  /-- The table referred to. -/
  table : String
  /-- The column referred to. -/
  column : String
  /-- What becomes of the row when the row referred to is deleted. -/
  onDelete : DeletePolicy
deriving DecidableEq, Repr

/-- The column that a reference means when it names none. -/
def ForeignKey.usualColumn : String := "id"

/-- Rules for the input of a column. -/
structure InputRules where
  /-- Whether input must be present, if that is said. -/
  required : Option Bool
  /-- The least number. -/
  min : Option Decimal.Binary64
  /-- The greatest number. -/
  max : Option Decimal.Binary64
  /-- The least length. -/
  minLength : Option Nat
  /-- The greatest length. -/
  maxLength : Option Nat
  /-- A regular expression to match. -/
  pattern : Option String
  /-- Whether the input is an e-mail address. -/
  email : Bool
  /-- Whether the input is a web address. -/
  url : Bool
deriving DecidableEq, Repr

/-- No rules at all. -/
def InputRules.none : InputRules :=
  ⟨Option.none, Option.none, Option.none, Option.none, Option.none, Option.none, false, false⟩

/-- How a form shows a column. -/
structure FormHints where
  /-- The label of the input. -/
  label : Option String
  /-- The text of an empty input. -/
  placeholder : Option String
  /-- An explanation. -/
  helpText : Option String
  /-- The part of the form. -/
  group : Option String
  /-- The place within the form. -/
  order : Option Int
  /-- The display format. -/
  format : Option String
  /-- Whether the input cannot be changed. -/
  readOnly : Bool
  /-- Whether the column is not shown. -/
  hidden : Bool
deriving DecidableEq, Repr

/-- No hints at all. -/
def FormHints.none : FormHints :=
  ⟨Option.none, Option.none, Option.none, Option.none, Option.none, Option.none, false, false⟩

/-- A column of a table. -/
structure Column where
  /-- The name in the database. -/
  name : String
  /-- What the column holds. -/
  type : ColumnType
  /-- Whether the column was declared to accept null. -/
  nullable : Bool
  /-- The greatest length of a text. -/
  length : Option Nat
  /-- The digits of a decimal number. -/
  precision : Option Nat
  /-- The digits of a decimal number after its point. -/
  scale : Option Nat
  /-- The value taken when none is given. -/
  fallback : Option DefaultValue
  /-- Whether no two rows share a value. -/
  unique : Bool
  /-- Whether the column is declared to be part of the primary key. -/
  primaryKey : Bool
  /-- The column of another row that the value refers to. -/
  reference : Option ForeignKey
  /-- Rules for the input. -/
  rules : InputRules
  /-- How a form shows the column. -/
  form : FormHints
deriving DecidableEq, Repr

namespace Column

/-- A column with a name, a type and nothing else said. -/
def plain (name : String) (type : ColumnType) : Column where
  name := name
  type := type
  nullable := false
  length := none
  precision := none
  scale := none
  fallback := none
  unique := false
  primaryKey := false
  reference := none
  rules := .none
  form := .none

/-- Whether the column accepts null.  A column that counts up never does. -/
def isNullable (column : Column) : Bool :=
  column.nullable && !column.type.isAutoIncrement

/-- Whether input must be present.  When that is not said, it must be unless the
column accepts null. -/
def isRequired (column : Column) : Bool :=
  column.rules.required.getD !column.isNullable

/-- Whether the database fills the column on insertion. -/
def isAutoGenerated (column : Column) : Bool :=
  column.type.isAutoIncrement || column.fallback.any DefaultValue.isCurrentTimestamp

/-- Whether the column takes a value when none is given. -/
def hasDefault (column : Column) : Bool :=
  column.fallback.isSome

end Column

end SchemaCompiler
