import SchemaCompiler.Descriptor.Error
import SchemaCompiler.Json.Record
import SchemaCompiler.Name.Identifier
import SchemaCompiler.Schema.Enumeration

/-
Enumeration descriptors.

A file holds one enumeration, when it has a key `values`, or else maps names to
enumerations.  In a map an enumeration may be written as the mere list of its
members.  Display data may stand with a member or in maps beside the members;
what stands with a member counts.
-/

namespace SchemaCompiler
namespace Descriptor

open Json (Value Field)

/-- An enumeration as written. -/
structure WrittenEnum where
  /-- The name, if one is given inside the body. -/
  name : Option String
  /-- The members. -/
  members : List Member
  /-- Labels of members. -/
  labels : List (String × String)
  /-- Colours of members. -/
  colors : List (String × String)
  /-- Icons of members. -/
  icons : List (String × String)
  /-- What the enumeration is for. -/
  description : Option String

/-- Reads a member: a text, or an object with the text and display data. -/
def readMember? : Value → Option Member
  | .string value => some (.plain value)
  | body => do
      let record ← body.objectRecord?
      let value ← record.required? ⟨0, ["value"]⟩ Value.text?
      let label ← record.optional? ⟨1, ["label"]⟩ Value.isNull Value.text?
      let color ← record.optional? ⟨2, ["color"]⟩ Value.isNull Value.text?
      let icon ← record.optional? ⟨3, ["icon"]⟩ Value.isNull Value.text?
      return ⟨value, label, color, icon⟩

/-- Reads the body of an enumeration. -/
def readEnumBody? (body : Value) : Option WrittenEnum := do
  let record ← body.objectRecord?
  let name ← record.optional? ⟨0, ["name"]⟩ Value.isNull Value.text?
  let members ← record.required? ⟨1, ["values"]⟩ (Value.listOf? readMember?)
  let labels ← record.defaulted? ⟨2, ["labels"]⟩ [] Value.texts?
  let colors ← record.defaulted? ⟨3, ["colors"]⟩ [] Value.texts?
  let icons ← record.defaulted? ⟨4, ["icons"]⟩ [] Value.texts?
  let description ← record.optional? ⟨5, ["description"]⟩ Value.isNull Value.text?
  return ⟨name, members, labels, colors, icons, description⟩

/-- Reads an enumeration of a map: its body, or the list of its members. -/
def readEnum? : Value → Option WrittenEnum
  | .array items =>
      (items.mapM readMember?).map fun members => ⟨none, members, [], [], [], none⟩
  | body => readEnumBody? body

/-- The text that a map gives to a member. -/
def displayOf? (member : String) (texts : List (String × String)) : Option String :=
  (texts.find? fun entry => entry.1 == member).map Prod.snd

/-- A member with display data from the maps where it has none of its own. -/
def WrittenEnum.complete (written : WrittenEnum) (member : Member) : Member where
  value := member.value
  label := member.label.or (displayOf? member.value written.labels)
  color := member.color.or (displayOf? member.value written.colors)
  icon := member.icon.or (displayOf? member.value written.icons)

/-- Checks the members of an enumeration in order, after some whose texts have
been seen: each must be safe and new. -/
def checkMembers (name : String) (seen : List String) : List Member → Except Problem Unit
  | [] => .ok ()
  | member :: rest => do
      unlessBreach (Name.isEnumMember member.value) (.enumMember name member.value)
      unlessBreach (!seen.contains member.value) (.enumRepeats name member.value)
      checkMembers name (member.value :: seen) rest

/-- The enumeration that is written, under `fallback` if it has no name inside. -/
def WrittenEnum.toEnumeration (written : WrittenEnum) (fallback : String) :
    Except Problem Enumeration := do
  let name := written.name.getD fallback
  unlessBreach (Name.isIdentifier name) (.enumName name)
  unlessBreach (!written.members.isEmpty) (.enumEmpty name)
  checkMembers name [] written.members
  return ⟨name, written.members.map written.complete, written.description⟩

/-- The enumerations of a map, in order. -/
def enumsOfFields : Json.Fields → Except Problem (List Enumeration)
  | [] => .ok []
  | (name, body) :: rest => do
      let written ← wellFormed (readEnum? body)
      let enumeration ← written.toEnumeration name
      let others ← enumsOfFields rest
      return enumeration :: others

/-- The enumerations of a file, given the name for one that has none inside. -/
def enumsOfValue (fallback : String) : Value → Except Problem (List Enumeration)
  | .object fields => do
      if (Json.Fields.get? "values" fields).isSome then
        let written ← wellFormed (readEnumBody? (.object fields))
        let enumeration ← written.toEnumeration fallback
        return [enumeration]
      else
        enumsOfFields fields
  | _ => .error (.breach .enumFileShape)

/-- The enumerations of a text. -/
def readEnums (fallback text : String) : Except Problem (List Enumeration) := do
  let value ← wellFormed (Value.read? text)
  enumsOfValue fallback value

end Descriptor
end SchemaCompiler
