import SchemaCompiler.Descriptor.Error
import SchemaCompiler.Json.Record
import SchemaCompiler.Name.Identifier
import SchemaCompiler.Column.Basic

/-
Column descriptors.

The body of a column is a typed object with typed objects inside: a reference,
rules for input and hints for forms.  All of it is read before anything is
checked.  A column of the primary key and one that counts up are never nullable,
whatever is written.
-/

namespace SchemaCompiler
namespace Descriptor

open Json (Value Record Field)

/-- A reference as written. -/
structure WrittenReference where
  /-- The table referred to. -/
  table : String
  /-- The column referred to. -/
  column : String
  /-- The spelling of the policy for deletions. -/
  onDelete : Option String

/-- A column as written. -/
structure WrittenColumn where
  /-- The type tag. -/
  tag : String
  /-- Whether the column is said to accept null. -/
  nullable : Bool
  /-- The greatest length of a text. -/
  length : Option Nat
  /-- The digits of a decimal number. -/
  precision : Option Nat
  /-- The digits after the point. -/
  scale : Option Nat
  /-- The default. -/
  fallback : Option Value
  /-- Whether no two rows share a value. -/
  unique : Bool
  /-- Whether the column is part of the primary key. -/
  primaryKey : Bool
  /-- The reference. -/
  reference : Option WrittenReference
  /-- Rules for the input. -/
  rules : InputRules
  /-- How a form shows the column. -/
  form : FormHints

/-- Reads a count below two to the thirty-second. -/
def count? (value : Value) : Option Nat :=
  value.natOfBits? 32

/-- Reads a signed whole number of 64 bits. -/
def signed? (value : Value) : Option Int :=
  value.wholeIn? (-(Decimal.twoTo 63 : Int)) ((Decimal.twoTo 63 : Int) - 1)

/-- Reads a typed object with `fieldCount` declared fields. -/
def readRecord? {α : Type} (fieldCount : Nat) (read? : Record Value → Option α)
    (value : Value) : Option α := do
  let record ← value.record?
  if record.fits fieldCount then read? record else none

/-- Reads an optional field of a record of values. -/
def optionalField? {α : Type} (record : Record Value) (place : Nat) (key : String)
    (read? : Value → Option α) : Option (Option α) :=
  record.optional? ⟨place, [key]⟩ Value.isNull read?

/-- Reads a flag, which is off when it is left out. -/
def flag? (record : Record Value) (place : Nat) (key : String) : Option Bool :=
  record.defaulted? ⟨place, [key]⟩ false Value.bool?

/-- Reads a reference. -/
def readReference? : Value → Option WrittenReference :=
  readRecord? 3 fun record => do
    let table ← record.required? ⟨0, ["table"]⟩ Value.text?
    let column ← record.defaulted? ⟨1, ["column"]⟩ ForeignKey.usualColumn Value.text?
    let onDelete ← optionalField? record 2 "onDelete" Value.text?
    return ⟨table, column, onDelete⟩

/-- Reads rules for input. -/
def readRules? : Value → Option InputRules :=
  readRecord? 8 fun record => do
    let required ← optionalField? record 0 "required" Value.bool?
    let min ← optionalField? record 1 "min" Value.double?
    let max ← optionalField? record 2 "max" Value.double?
    let minLength ← optionalField? record 3 "minLength" count?
    let maxLength ← optionalField? record 4 "maxLength" count?
    let pattern ← optionalField? record 5 "pattern" Value.text?
    let email ← flag? record 6 "email"
    let url ← flag? record 7 "url"
    return ⟨required, min, max, minLength, maxLength, pattern, email, url⟩

/-- Reads hints for forms. -/
def readForm? : Value → Option FormHints :=
  readRecord? 8 fun record => do
    let label ← optionalField? record 0 "label" Value.text?
    let placeholder ← optionalField? record 1 "placeholder" Value.text?
    let helpText ← optionalField? record 2 "helpText" Value.text?
    let group ← optionalField? record 3 "section" Value.text?
    let order ← optionalField? record 4 "order" signed?
    let format ← optionalField? record 5 "format" Value.text?
    let readOnly ← flag? record 6 "readonly"
    let hidden ← flag? record 7 "hidden"
    return ⟨label, placeholder, helpText, group, order, format, readOnly, hidden⟩

/-- Reads the body of a column. -/
def readColumnBody? : Value → Option WrittenColumn :=
  readRecord? 11 fun record => do
    let tag ← record.required? ⟨0, ["type"]⟩ Value.text?
    let nullable ← flag? record 1 "nullable"
    let length ← optionalField? record 2 "length" count?
    let precision ← optionalField? record 3 "precision" count?
    let scale ← optionalField? record 4 "scale" count?
    let fallback ← optionalField? record 5 "default" some
    let unique ← flag? record 6 "unique"
    let primaryKey ← flag? record 7 "primaryKey"
    let reference ← optionalField? record 8 "references" readReference?
    let rules ← record.defaulted? ⟨9, ["validation"]⟩ .none readRules?
    let form ← record.defaulted? ⟨10, ["ui"]⟩ .none readForm?
    return ⟨tag, nullable, length, precision, scale, fallback, unique, primaryKey, reference,
      rules, form⟩

/-- The default that a value describes.  Some texts mean the time of insertion,
and `null` is no default. -/
def defaultOfValue (column : String) : Value → Except Problem (Option DefaultValue)
  | .null => .ok none
  | .bool value => .ok (some (.bool value))
  | .number value => .ok (some (.number value.text))
  | .string value =>
      if DefaultValue.timestampWords.contains value then .ok (some .currentTimestamp)
      else .ok (some (.text value))
  | .array _ | .object _ => .error (.breach (.defaultShape column))

/-- The policy that a spelling names; none means that the database decides. -/
def policyOfSpelling (column : String) : Option String → Except Problem DeletePolicy
  | none => .ok .noAction
  | some spelling =>
      match DeletePolicy.ofSpelling? spelling with
      | some policy => .ok policy
      | none => .error (.breach (.deletePolicy column spelling))

/-- The reference that is written. -/
def WrittenReference.toForeignKey (column : String) :
    Option WrittenReference → Except Problem (Option ForeignKey)
  | none => .ok none
  | some written => do
      let policy ← policyOfSpelling column written.onDelete
      return some ⟨written.table, written.column, policy⟩

/-- The column that is written, under its name. -/
def WrittenColumn.toColumn (written : WrittenColumn) (name : String) :
    Except Problem Column := do
  unlessBreach (Name.isIdentifier name) (.columnName name)
  let fallback ← defaultOfValue name (written.fallback.getD .null)
  let reference ← WrittenReference.toForeignKey name written.reference
  let type := ColumnType.ofTag written.tag
  return ⟨name, type, written.nullable && !written.primaryKey && !type.isAutoIncrement,
    written.length, written.precision, written.scale, fallback, written.unique,
    written.primaryKey, reference, written.rules, written.form⟩

/-- The column of a name and a body. -/
def readColumn (name : String) (body : Value) : Except Problem Column := do
  let written ← wellFormed (readColumnBody? body)
  written.toColumn name

/-- The columns of a map from names to bodies, in order. -/
def readColumns : Json.Fields → Except Problem (List Column)
  | [] => .ok []
  | (name, body) :: rest => do
      let column ← readColumn name body
      let others ← readColumns rest
      return column :: others

end Descriptor
end SchemaCompiler
