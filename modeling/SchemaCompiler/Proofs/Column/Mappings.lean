import SchemaCompiler.Column.Surface
import SchemaCompiler.Proofs.Column.Chains

/-
The three mappings of a column agree.

Each mapping looks at the type by itself, finds the enumeration that a tag means by
itself, and decides by itself whether null is accepted.  The vocabulary says in one
line for each type what all three have to come to.
-/

namespace SchemaCompiler

/-- The lines of the type vocabulary: the storage constructor, the base check and the
scalar type that go with a column type.  Tags outside the vocabulary have a line for
each enumeration, and one for all tags that mean none. -/
inductive VocabularyLine (enumerations : List Enumeration) :
    ColumnType → StorageType → ValidationBase → SurfaceType → Prop
  | shortText : VocabularyLine enumerations .shortText .varchar .string .string
  | longText : VocabularyLine enumerations .longText .text .string .string
  | autoIncrement : VocabularyLine enumerations .autoIncrement .serial .integer .number
  | integer : VocabularyLine enumerations .integer .integer .integer .number
  | decimal : VocabularyLine enumerations .decimal .numeric .decimal .string
  | boolean : VocabularyLine enumerations .boolean .boolean .boolean .boolean
  | date : VocabularyLine enumerations .date .date .date .date
  | dateTime : VocabularyLine enumerations .dateTime .timestamp .date .date
  | geographic : VocabularyLine enumerations .geographic .text .geographic .string
  | enumeration {tag : String} {enumeration : Enumeration}
      (means : Enumeration.ofTag? tag enumerations = some enumeration) :
      VocabularyLine enumerations (.named tag)
        (.enumeration (EnumNames.ofEnumeration enumeration).storageConst)
        (.enumeration (EnumNames.ofEnumeration enumeration).schemaConst) .string
  | unknown {tag : String} (means : Enumeration.ofTag? tag enumerations = none) :
      VocabularyLine enumerations (.named tag) .text .string .string

/-- The enumeration that the type of a column means, if it is the tag of one. -/
def Column.enumeration? (column : Column) (enumerations : List Enumeration) :
    Option Enumeration :=
  match column.type with
  | .named tag => Enumeration.ofTag? tag enumerations
  | _ => none

/-- A column as long text, without the rules that only text has. -/
def Column.asLongText (column : Column) : Column :=
  { column with
    type := .longText
    length := none
    rules := { column.rules with
      email := false, url := false, minLength := none, maxLength := none } }

/-- What the three mappings of a column have to say about each other. -/
structure Column.MappingsAgree (column : Column) (table : Table)
    (enumerations : List Enumeration) : Prop where
  /-- One line of the vocabulary, and no other, has all three. -/
  one_line (storage : StorageType) (validation : ValidationBase) (surface : SurfaceType) :
    VocabularyLine enumerations column.type storage validation surface ↔
      storage = (column.storage table enumerations).type ∧
        validation = (column.validation enumerations).base ∧ surface = column.surface.type
  storage_enumeration : (column.storage table enumerations).type.isEnumeration = true ↔
    ∃ enumeration, column.enumeration? enumerations = some enumeration
  validation_enumeration : (column.validation enumerations).base.enumSchema?.isSome = true ↔
    ∃ enumeration, column.enumeration? enumerations = some enumeration
  same_enumeration (enumeration : Enumeration) :
    column.enumeration? enumerations = some enumeration →
      (column.storage table enumerations).type =
          .enumeration (EnumNames.ofEnumeration enumeration).storageConst ∧
        (column.validation enumerations).base =
          .enumeration (EnumNames.ofEnumeration enumeration).schemaConst
  surface_null : column.surface.nullable = true ↔ column.isNullable = true
  validation_null : (column.validation enumerations).isNullable = true ↔
    column.isNullable = true
  storage_null : .notNull ∉ (column.storage table enumerations).modifiers ↔
    column.isNullable = true ∨ column.type = .autoIncrement
  /-- A tag that means nothing is long text. -/
  unknown_tag (tag : String) : column.type = .named tag →
    Enumeration.ofTag? tag enumerations = none →
      column.storage table enumerations = column.asLongText.storage table enumerations ∧
        column.validation enumerations = column.asLongText.validation enumerations ∧
        column.surface = column.asLongText.surface

namespace Column

variable {column : Column} {table : Table} {enumerations : List Enumeration}

theorem line_of_column : VocabularyLine enumerations column.type
    (column.storageType enumerations) (column.validationBase enumerations)
    column.surfaceType := by
  unfold storageType validationBase surfaceType
  cases column.type with
  | shortText => exact .shortText
  | longText => exact .longText
  | autoIncrement => exact .autoIncrement
  | integer => exact .integer
  | decimal => exact .decimal
  | boolean => exact .boolean
  | date => exact .date
  | dateTime => exact .dateTime
  | geographic => exact .geographic
  | named tag =>
      cases means : Enumeration.ofTag? tag enumerations with
      | none => simp only [means]; exact .unknown means
      | some enumeration => simp only [means]; exact .enumeration means

theorem column_of_line {storage : StorageType} {validation : ValidationBase}
    {surface : SurfaceType}
    (line : VocabularyLine enumerations column.type storage validation surface) :
    storage = column.storageType enumerations ∧
      validation = column.validationBase enumerations ∧ surface = column.surfaceType := by
  unfold storageType validationBase surfaceType
  generalize column.type = type at line
  cases line with
  | enumeration means => simp only [means, and_self]
  | unknown means => simp only [means, and_self]
  | _ => exact ⟨rfl, rfl, rfl⟩

theorem mapped_to_enumeration {enumeration : Enumeration}
    (means : column.enumeration? enumerations = some enumeration) :
    column.storageType enumerations =
        .enumeration (EnumNames.ofEnumeration enumeration).storageConst ∧
      column.validationBase enumerations =
        .enumeration (EnumNames.ofEnumeration enumeration).schemaConst := by
  unfold enumeration? at means
  split at means
  · rename_i tag named
    simp only [storageType, validationBase, named, means, and_self]
  · cases means

theorem not_mapped_to_enumeration (means : column.enumeration? enumerations = none) :
    (column.storageType enumerations).isEnumeration = false ∧
      (column.validationBase enumerations).enumSchema? = none := by
  unfold enumeration? at means
  unfold storageType validationBase
  cases given : column.type with
  | named tag =>
      simp only [given] at means
      simp only [means, StorageType.isEnumeration, ValidationBase.enumSchema?, and_self]
  | _ => exact ⟨rfl, rfl⟩

theorem isEnumeration_storageType :
    (column.storageType enumerations).isEnumeration = true ↔
      ∃ enumeration, column.enumeration? enumerations = some enumeration := by
  cases means : column.enumeration? enumerations with
  | none => simp [(not_mapped_to_enumeration means).1]
  | some enumeration =>
      simp [(mapped_to_enumeration means).1, StorageType.isEnumeration]

theorem isSome_enumSchema? :
    (column.validationBase enumerations).enumSchema?.isSome = true ↔
      ∃ enumeration, column.enumeration? enumerations = some enumeration := by
  cases means : column.enumeration? enumerations with
  | none => simp [(not_mapped_to_enumeration means).2]
  | some enumeration =>
      simp [(mapped_to_enumeration means).2, ValidationBase.enumSchema?]

section Unknown

variable {tag : String} (named : column.type = .named tag)
  (means : Enumeration.ofTag? tag enumerations = none)
include named means

theorem storage_of_unknown :
    column.storage table enumerations = column.asLongText.storage table enumerations := by
  have type : column.storageType enumerations = .text := by
    simp only [storageType, named, means]
  have options : column.storageOptions = [] := by
    simp only [storageOptions, named]
  have counts : column.type.isAutoIncrement = false := by
    rw [named]
    rfl
  have null : column.isNullable = column.asLongText.isNullable := by
    rw [isNullable, counts]
    rfl
  have fallback : column.storageDefault = column.asLongText.storageDefault := by
    simp only [storageDefault, named, asLongText, reduceCtorEq, if_false]
  have constraints : column.storageConstraints = column.asLongText.storageConstraints := by
    rw [storageConstraints, counts, null, fallback]
    rfl
  rw [storage, type, options, constraints]
  rfl

theorem validation_of_unknown :
    column.validation enumerations = column.asLongText.validation enumerations := by
  have format : column.formatRefinements = column.asLongText.formatRefinements := by
    simp [formatRefinements, asLongText, named, ColumnType.isText]
  have bounds : column.boundRefinements .string = column.asLongText.boundRefinements .string := by
    simp [boundRefinements, asLongText, named, ColumnType.isText]
  have presence : column.presenceRefinement = column.asLongText.presenceRefinement := by
    simp [presenceRefinement, isRequired, isNullable, hasDefault, asLongText, named,
      ColumnType.isAutoIncrement]
  have base : column.validationBase enumerations = .string := by
    simp only [validationBase, named, means]
  have sameBase : column.asLongText.validationBase enumerations = .string := rfl
  simp only [validation, base, sameBase, format, bounds, presence]
  rfl

omit means in
theorem surface_of_unknown : column.surface = column.asLongText.surface := by
  simp only [surface, surfaceType, isNullable, asLongText, named, ColumnType.isAutoIncrement]

end Unknown

theorem mappings_agree (column : Column) (table : Table) (enumerations : List Enumeration) :
    column.MappingsAgree table enumerations where
  one_line storage validation surface := by
    constructor
    · exact column_of_line
    · rintro ⟨rfl, rfl, rfl⟩
      exact line_of_column
  storage_enumeration := isEnumeration_storageType
  validation_enumeration := isSome_enumSchema?
  same_enumeration _ means := mapped_to_enumeration means
  surface_null := Iff.rfl
  validation_null := isNullable_validation column enumerations
  storage_null := by
    rw [notNull_mem_iff, Decidable.not_and_iff_or_not, Decidable.not_not,
      Bool.not_eq_false, or_comm]
  unknown_tag _ named means :=
    ⟨storage_of_unknown named means, validation_of_unknown named means,
      surface_of_unknown named⟩

end Column
end SchemaCompiler
