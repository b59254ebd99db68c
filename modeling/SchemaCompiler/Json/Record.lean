import SchemaCompiler.Json.Tree

/-
Typed objects.

A record declares its fields in order, each under one or more keys.  It is
written as an object, whose undeclared keys are ignored, or as an array of the
declared fields in order.  A field is required, optional or has a default:

* in an object any field but a required one may be left out;
* in an array the fields may end early, but then only fields with a default may
  be left out.

No field may be given twice, also not under two of its keys.  The members are of
any type `α`, so that one set of rules serves text and values alike.
-/

namespace SchemaCompiler
namespace Json

/-- A declared field: its place in the array form and its keys in the object
form. -/
structure Field where
  /-- The place among the declared fields, counted from zero. -/
  place : Nat
  /-- The keys. -/
  keys : List String

/-- A typed object as written. -/
inductive Record (α : Type) where
  /-- The members of an object. -/
  | members (members : List (String × α))
  /-- The items of an array. -/
  | items (items : List α)

/-- What is written for a field. -/
inductive Slot (α : Type) where
  /-- Something. -/
  | given (content : α)
  /-- Nothing, in an object. -/
  | omitted
  /-- Nothing, in an array that ends before the field. -/
  | beyond

namespace Record

variable {α β : Type}

/-- Whether an array holds no more items than there are fields. -/
def fits (count : Nat) : Record α → Bool
  | .members _ => true
  | .items elements => elements.length ≤ count

/-- What is written for a field, unless it is given twice. -/
def slot? (field : Field) : Record α → Option (Slot α)
  | .members entries =>
      match entries.filter fun entry => field.keys.contains entry.1 with
      | [] => some .omitted
      | [entry] => some (.given entry.2)
      | _ => none
  | .items elements =>
      match elements[field.place]? with
      | some item => some (.given item)
      | none => some .beyond

/-- A required field, read by `read?`. -/
def required? (record : Record α) (field : Field) (read? : α → Option β) : Option β :=
  match record.slot? field with
  | some (.given content) => read? content
  | _ => none

/-- A field with a default. -/
def defaulted? (record : Record α) (field : Field) (fallback : β)
    (read? : α → Option β) : Option β :=
  match record.slot? field with
  | some (.given content) => read? content
  | some .omitted => some fallback
  | some .beyond => some fallback
  | none => none

/-- An optional field, where `null` says that there is nothing. -/
def optional? (record : Record α) (field : Field) (isNull : α → Bool)
    (read? : α → Option β) : Option (Option β) :=
  match record.slot? field with
  | some (.given content) => if isNull content then some none else (read? content).map some
  | some .omitted => some none
  | _ => none

end Record

/-- A value as a record. -/
def Value.record? : Value → Option (Record Value)
  | .object fields => some (.members fields)
  | .array items => some (.items items)
  | _ => none

/-- A value as a record that must be written as an object. -/
def Value.objectRecord? : Value → Option (Record Value)
  | .object fields => some (.members fields)
  | _ => none

/-- The members of an object whose keys all have a content. -/
def namedMembers? : List (Option String × Tree) → Option (List (String × Tree))
  | [] => some []
  | (some key, tree) :: rest => (namedMembers? rest).map ((key, tree) :: ·)
  | (none, _) :: _ => none

/-- A tree as a record.  Members under undeclared keys stay unread. -/
def Tree.record? : Tree → Option (Record Tree)
  | .object members => (namedMembers? members).map .members
  | .array items => some (.items items)
  | .scalar _ => none

/-- Whether a tree is `null`. -/
def Tree.isNull : Tree → Bool
  | .scalar .null => true
  | _ => false

/-- Reads a tree as a value first, with `room` arrays and objects to open. -/
def Tree.through {β : Type} (room : Nat) (read? : Value → Option β) (tree : Tree) : Option β :=
  (tree.value? room).bind read?

end Json
end SchemaCompiler
