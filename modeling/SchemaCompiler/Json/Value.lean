import SchemaCompiler.Json.Number

/-
JSON values.

The fields of an object are ordered and their keys are distinct: `Fields.put`
keeps the place of a key that is already there and replaces its value.  The
readers at the end turn a value into what a typed field holds; each refuses
every value of another kind.
-/

namespace SchemaCompiler
namespace Json

/-- A JSON value. -/
inductive Value where
  /-- The value `null`. -/
  | null
  /-- A truth value. -/
  | bool (value : Bool)
  /-- A number. -/
  | number (value : Number)
  /-- A string. -/
  | string (value : String)
  /-- An array. -/
  | array (items : List Value)
  /-- An object. -/
  | object (fields : List (String × Value))
deriving Repr, Inhabited

/-- The fields of an object, in order. -/
abbrev Fields := List (String × Value)

/-- Sets a field: a key that is there keeps its place, any other goes last. -/
def Fields.put (key : String) (value : Value) : Fields → Fields
  | [] => [(key, value)]
  | field :: rest =>
      if field.1 = key then (key, value) :: rest else field :: Fields.put key value rest

/-- The value of a key. -/
def Fields.get? (key : String) (fields : Fields) : Option Value :=
  (fields.find? fun field => field.1 == key).map Prod.snd

namespace Value

/-- The text of a string value. -/
def text? : Value → Option String
  | .string value => some value
  | _ => none

/-- The truth value. -/
def bool? : Value → Option Bool
  | .bool value => some value
  | _ => none

/-- The whole number, if it lies between the bounds. -/
def wholeIn? (least greatest : Int) : Value → Option Int
  | .number (.whole value) =>
      if least ≤ value ∧ value ≤ greatest then some value else none
  | _ => none

/-- The count, if it is below `2 ^ bits`. -/
def natOfBits? (bits : Nat) (value : Value) : Option Nat :=
  (value.wholeIn? 0 ((Decimal.twoTo bits : Int) - 1)).map Int.toNat

/-- The number as a double. -/
def double? : Value → Option Decimal.Binary64
  | .number value => value.toDouble?
  | _ => none

/-- The items of an array, each read by `read?`. -/
def listOf? {α : Type} (read? : Value → Option α) : Value → Option (List α)
  | .array items => items.mapM read?
  | _ => none

/-- The fields of an object. -/
def fields? : Value → Option Fields
  | .object fields => some fields
  | _ => none

/-- The fields of an object whose values are all strings. -/
def texts? : Value → Option (List (String × String))
  | .object fields => fields.mapM fun field => field.2.text?.map (field.1, ·)
  | _ => none

/-- Whether the value is `null`. -/
def isNull : Value → Bool
  | .null => true
  | _ => false

end Value

end Json
end SchemaCompiler
