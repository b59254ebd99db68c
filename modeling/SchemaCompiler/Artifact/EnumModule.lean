import SchemaCompiler.Artifact.Settings
import SchemaCompiler.Name.Derived
import SchemaCompiler.Schema.Collision
import SchemaCompiler.Text.Blank
import SchemaCompiler.TypeScript.Module

/-
Enumerations.

Three directories have one file each for all enumerations: the storage types,
the schemas with the types of what they accept, and the lists of options to
choose from.
-/

namespace SchemaCompiler
namespace EnumModule

open TypeScript (Expr Import Property Statement Module)

/-- The members of an enumeration as a list of strings. -/
def valueList (enumeration : Enumeration) : Expr :=
  .list (enumeration.values.map .string)

/-- The documentation of what is generated for an enumeration. -/
def documentation (enumeration : Enumeration) : Option String :=
  enumeration.description.map Text.trim

/-- A file with some paragraphs, or without exports if there are none. -/
def file (settings : Settings) (imports : List Import) (paragraphs : List (List Statement)) :
    Module where
  banner := settings.banner
  imports := imports
  paragraphs := if paragraphs.isEmpty then [[.nothing]] else paragraphs

/-- The storage type of an enumeration. -/
def storageConstant (enumeration : Enumeration) : Statement :=
  let names := EnumNames.ofEnumeration enumeration
  .constant (documentation enumeration) names.storageConst none <|
    .apply "pgEnum" [.string names.databaseName, valueList enumeration]

/-- The file of storage types. -/
def storage (settings : Settings) (enumerations : List Enumeration) : Module :=
  file settings (enumerations.map fun _ => .value settings.storageImport "pgEnum")
    (enumerations.map fun enumeration => [storageConstant enumeration])

/-- The schema of an enumeration and the type of what it accepts. -/
def schemaStatements (enumeration : Enumeration) : List Statement :=
  let names := EnumNames.ofEnumeration enumeration
  [.constant (documentation enumeration) names.schemaConst none
      ((Expr.name "z").method "enum" [valueList enumeration]),
    .typeAlias names.typeName ("z.infer<typeof " ++ names.schemaConst ++ ">")]

/-- The file of schemas. -/
def validation (settings : Settings) (enumerations : List Enumeration) : Module :=
  file settings (enumerations.map fun _ => .value settings.validationImport "z")
    (enumerations.map schemaStatements)

/-- The interface of an option to choose. -/
def optionInterface : Statement :=
  .interface "EnumOption" (some "T extends string") none
    [.property ⟨"value", false, "T"⟩, .property ⟨"label", false, "string"⟩,
      .property ⟨"color", true, "string"⟩, .property ⟨"icon", true, "string"⟩]

/-- The option for a member.  A member without a label is shown by its text, made
readable. -/
def optionExpr (member : Member) : Expr :=
  .object <|
    [("value", .string member.value),
      ("label", .string (member.label.getD (Name.humanize member.value)))]
      ++ (member.color.toList.map fun color => ("color", .string color))
      ++ member.icon.toList.map fun icon => ("icon", .string icon)

/-- The list of options of an enumeration. -/
def optionsConstant (enumeration : Enumeration) : Statement :=
  let names := EnumNames.ofEnumeration enumeration
  .constant (documentation enumeration) names.optionsConst
    (some ("EnumOption<" ++ names.typeName ++ ">[]"))
    (.listBlock (enumeration.members.map optionExpr))

/-- The types of enumerations. -/
def typeNames (enumerations : List Enumeration) : List String :=
  enumerations.map fun enumeration => (EnumNames.ofEnumeration enumeration).typeName

/-- The file of lists of options. -/
def types (settings : Settings) (enumerations : List Enumeration) : Module :=
  let source :=
    relativeModule settings.typesDirectory settings.validationDirectory enumsStem
  file settings ((typeNames enumerations).map (.type source)) <|
    if enumerations.isEmpty then []
    else
      [.types (typeNames enumerations)] :: [optionInterface]
        :: enumerations.map fun enumeration => [optionsConstant enumeration]

end EnumModule
end SchemaCompiler
