import SchemaCompiler.Artifact.EnumModule
import SchemaCompiler.Artifact.StorageModule
import SchemaCompiler.Proofs.Schema.Lookup
import SchemaCompiler.Proofs.TypeScript.Parts

/-
What storage definitions read.

A storage definition reads members of constants in four places: in references of
columns, in the composite key, in indexes, and in declared relationships.  In the
composite key and in indexes the constant is the parameter of the function around
them; elsewhere it is the constant of a table.
-/

namespace SchemaCompiler
namespace StorageModule

open TypeScript

/-- The parameters of the function around composite keys and indexes. -/
def tableParameter : String := "(table)"

/-- A property of an expression if it is a member of a constant. -/
def IfMember (good : List String → String → String → Prop) (scope : List String) (e : Expr) :
    Prop :=
  ∀ constant property, e = .access constant property → good scope constant property

/-- A property of every member of a constant that an expression reads. -/
def Reads (good : List String → String → String → Prop) (scope : List String) (e : Expr) :
    Prop :=
  e.Throughout (IfMember good) scope

theorem lenient_ifMember (good : List String → String → String → Prop) :
    Lenient (IfMember good) := by
  intro scope e noMember _ constant property same
  exact absurd same (noMember (.name constant) property)

section Reads

variable {good : List String → String → String → Prop} {scope : List String}

theorem reads_access {constant property : String} (holds : good scope constant property) :
    Reads good scope (.access constant property) := by
  refine throughout_member.mpr ⟨?_, (lenient_ifMember good).name constant⟩
  intro other member same
  cases same
  exact holds

theorem reads_method {owner : Expr} (compound : ∀ constant, owner ≠ .name constant)
    (method : String) {arguments : List Expr} (inOwner : Reads good scope owner)
    (each : ∀ argument ∈ arguments, Reads good scope argument) :
    Reads good scope (owner.method method arguments) := by
  refine throughout_method.mpr ⟨?_, ?_, inOwner, each⟩
  · intro constant property same
    cases same
  · intro constant property same
    exact absurd (Expr.member.inj same).1 (compound constant)

end Reads

/-- The modifiers of a column refer to a column only as its reference says. -/
theorem reference_of_modifier {column : Column} {table : Table}
    {enumerations : List Enumeration} {constant property : String}
    {policy : Option DeletePolicy} {selfReference : Bool}
    (member : .references constant property policy selfReference ∈
      (column.storage table enumerations).modifiers) :
    ∃ reference, column.reference = some reference ∧ constant = Name.camel reference.table ∧
      property = Name.camel reference.column := by
  simp only [Column.storage, List.mem_append] at member
  rcases member with (inConstraints | inKey) | inReference
  · unfold Column.storageConstraints Column.storageDefault at inConstraints
    grind
  · unfold Column.storageKey at inKey
    grind
  · obtain ⟨reference, given, made⟩ := List.mem_map.mp inReference
    obtain ⟨sameConstant, sameProperty, _⟩ := StorageModifier.references.inj made
    exact ⟨reference, Option.mem_toList.mp given, sameConstant.symm, sameProperty.symm⟩

section Expressions

variable {good : List String → String → String → Prop} {scope : List String}

theorem reads_onto {owner : Expr} (compound : ∀ constant, owner ≠ .name constant)
    (inOwner : Reads good scope owner) {modifier : StorageModifier}
    (referenced : ∀ constant property policy selfReference,
      modifier = .references constant property policy selfReference →
        ∀ parameters ≠ tableParameter, good (parameters :: scope) constant property) :
    Reads good scope (modifier.onto owner) := by
  cases modifier with
  | notNull => exact reads_method compound _ inOwner (List.forall_mem_nil _)
  | fallback literal =>
      exact reads_method compound _ inOwner
        (List.forall_mem_singleton.mpr ((lenient_ifMember good).verbatim literal))
  | fallbackNow => exact reads_method compound _ inOwner (List.forall_mem_nil _)
  | unique => exact reads_method compound _ inOwner (List.forall_mem_nil _)
  | primaryKey => exact reads_method compound _ inOwner (List.forall_mem_nil _)
  | references constant property policy selfReference =>
      refine reads_method compound _ inOwner ?_
      intro argument member
      rcases List.mem_cons.mp member with rfl | inPolicy
      · refine (lenient_ifMember good).arrow (reads_access (referenced _ _ _ _ rfl _ ?_))
        cases selfReference <;> decide
      · obtain ⟨kept, _, rfl⟩ := List.mem_map.mp inPolicy
        refine (lenient_ifMember good).object ?_
        intro field inFields
        rw [List.mem_singleton.mp inFields]
        exact (lenient_ifMember good).string _

theorem onto_ne_name (owner : Expr) (modifier : StorageModifier) (constant : String) :
    modifier.onto owner ≠ .name constant := by
  intro same
  cases modifier <;> cases same

theorem reads_foldl_onto {modifiers : List StorageModifier} {owner : Expr}
    (compound : ∀ constant, owner ≠ .name constant) (inOwner : Reads good scope owner)
    (referenced : ∀ constant property policy selfReference,
      .references constant property policy selfReference ∈ modifiers →
        ∀ parameters ≠ tableParameter, good (parameters :: scope) constant property) :
    Reads good scope (modifiers.foldl StorageModifier.onto owner) := by
  induction modifiers generalizing owner with
  | nil => exact inOwner
  | cons modifier rest ih =>
      apply ih
      · exact onto_ne_name owner modifier
      · apply reads_onto compound inOwner
        rintro constant property policy selfReference rfl
        exact referenced _ _ _ _ List.mem_cons_self
      · intro constant property policy selfReference member
        exact referenced _ _ _ _ (List.mem_cons_of_mem modifier member)

theorem reads_storageColumn {column : StorageColumn} (name : String)
    (referenced : ∀ constant property policy selfReference,
      .references constant property policy selfReference ∈ column.modifiers →
        ∀ parameters ≠ tableParameter, good (parameters :: scope) constant property) :
    Reads good scope (column.expr name) := by
  refine reads_foldl_onto ?_ ((lenient_ifMember good).apply _ ?_) referenced
  · intro constant same
    cases same
  · intro argument member
    rcases List.mem_cons.mp member with rfl | inOptions
    · exact (lenient_ifMember good).string name
    · split at inOptions
      · cases inOptions
      · rw [List.mem_singleton.mp inOptions]
        refine (lenient_ifMember good).object ?_
        intro field inFields
        obtain ⟨option, _, rfl⟩ := List.mem_map.mp inFields
        exact (lenient_ifMember good).verbatim option.2

end Expressions

theorem relationshipParameters_ne (relationships : List ResolvedRelationship) :
    relationshipParameters relationships ≠ tableParameter := by
  cases one : relationships.any (fun relationship => relationship.kind == .oneToOne) <;>
    cases many : relationships.any (fun relationship => relationship.kind == .oneToMany) <;>
    simp only [relationshipParameters, one, many] <;> decide

/-- What has to hold of the members of constants that the file of a table reads. -/
structure Sound (table : Table) (good : List String → String → String → Prop) : Prop where
  /-- A reference reads the column that it means. -/
  referenced : ∀ column reference, (column, reference) ∈ table.references →
    ∀ scope, tableParameter ∉ scope →
      good scope (Name.camel reference.table) (Name.camel reference.column)
  /-- A declared relationship also reads the column with the reference. -/
  referring : ∀ column ∈ table.columns, ∀ scope, tableParameter ∉ scope →
    good scope (Name.camel table.name) (Name.camel column.name)
  /-- A composite key reads its columns. -/
  keyed : ∀ column ∈ table.columns, good [tableParameter] "table" (Name.camel column.name)
  /-- An index reads its columns. -/
  indexed : ∀ index ∈ table.indexes, ∀ name ∈ index.columns,
    good [tableParameter] "table" (Name.camel name)

section Tables

variable {table : Table} {good : List String → String → String → Prop}
  (sound : Sound table good) (others : List Table) (schema : Schema)
include sound

theorem Sound.columnEntries {scope : List String} (outside : tableParameter ∉ scope)
    {key : String} {e : Expr}
    (member : .field key e ∈ columnEntries (table.resolved others schema)) :
    Reads good scope e := by
  obtain ⟨resolved, inColumns, made⟩ := List.mem_map.mp member
  obtain ⟨column, declared, rfl⟩ := List.mem_map.mp inColumns
  obtain ⟨_, rfl⟩ := Entry.field.inj made
  apply reads_storageColumn
  intro constant property policy selfReference inModifiers parameters different
  obtain ⟨reference, given, rfl, rfl⟩ := reference_of_modifier inModifiers
  apply sound.referenced column reference (Table.mem_references.mpr ⟨declared, given⟩)
  rw [List.mem_cons, not_or]
  exact ⟨different.symm, outside⟩

theorem Sound.extraEntries {key : String} {e : Expr}
    (member : .field key e ∈ extraEntries (table.resolved others schema)) :
    Reads good [tableParameter] e := by
  rcases List.mem_append.mp member with inKey | inIndexes
  · obtain ⟨properties, given, made⟩ := List.mem_map.mp inKey
    obtain ⟨_, rfl⟩ := Entry.field.inj made
    obtain ⟨columns, isKey, rfl⟩ := Option.map_eq_some_iff.mp (Option.mem_toList.mp given)
    apply (lenient_ifMember good).apply
    intro argument inArguments
    rw [List.mem_singleton.mp inArguments]
    apply (lenient_ifMember good).object
    intro field inFields
    rw [List.mem_singleton.mp inFields]
    apply (lenient_ifMember good).list
    intro item inItems
    obtain ⟨property, inProperties, rfl⟩ := List.mem_map.mp inItems
    obtain ⟨column, inKeyColumns, rfl⟩ := List.mem_map.mp inProperties
    apply reads_access
    exact sound.keyed column (Table.mem_columns_of_compositeKey isKey inKeyColumns)
  · obtain ⟨resolved, inResolved, made⟩ := List.mem_map.mp inIndexes
    obtain ⟨index, declared, rfl⟩ := List.mem_map.mp inResolved
    obtain ⟨_, rfl⟩ := Entry.field.inj made
    apply reads_method
    · intro constant same
      cases same
    · apply (lenient_ifMember good).apply
      intro argument inArguments
      rw [List.mem_singleton.mp inArguments]
      exact (lenient_ifMember good).string _
    · intro argument inArguments
      obtain ⟨property, inProperties, rfl⟩ := List.mem_map.mp inArguments
      obtain ⟨name, listed, rfl⟩ := List.mem_map.mp inProperties
      exact reads_access (sound.indexed index declared name listed)

theorem Sound.tableConstant {value : Expr}
    (member : value ∈ (tableConstant (table.resolved others schema)).values) :
    Reads good [] value := by
  rw [List.mem_singleton.mp member]
  apply (lenient_ifMember good).apply
  intro argument inArguments
  rcases List.mem_cons.mp inArguments with rfl | inArguments
  · exact (lenient_ifMember good).string _
  rcases List.mem_cons.mp inArguments with rfl | inExtras
  · apply (lenient_ifMember good).objectBlock
    intro key e inEntries
    exact sound.columnEntries others schema List.not_mem_nil inEntries
  · split at inExtras
    · cases inExtras
    · rw [List.mem_singleton.mp inExtras]
      apply (lenient_ifMember good).arrow
      apply (lenient_ifMember good).grouped
      apply (lenient_ifMember good).objectBlock
      intro key e inEntries
      exact sound.extraEntries others schema inEntries

theorem Sound.link {scope : List String} (outside : tableParameter ∉ scope)
    {relationship : Relationship} {link : String × String}
    (given : (table.resolveRelationship relationship).link = some link) :
    good scope (Name.camel table.name) link.1 ∧
      good scope (Name.camel relationship.target) link.2 := by
  have found : table.linkTo? relationship.target = some link := by
    unfold Table.resolveRelationship at given
    split at given
    · exact given
    · cases given
  obtain ⟨entry, first, rfl⟩ := Option.map_eq_some_iff.mp found
  have held := List.mem_of_find?_eq_some first
  have towards : entry.2.table = relationship.target := by
    simpa using List.find?_some first
  rw [← towards]
  exact ⟨sound.referring entry.1 (Table.mem_references.mp held).1 scope outside,
    sound.referenced entry.1 entry.2 held scope outside⟩

theorem Sound.linkBlock {scope : List String} (outside : tableParameter ∉ scope)
    {relationship : Relationship} {link : String × String}
    (given : (table.resolveRelationship relationship).link = some link) :
    Reads good scope (.objectBlock
      [.field "fields" (.list [.access (Name.camel table.name) link.1]),
        .field "references" (.list [.access (Name.camel relationship.target) link.2])]) := by
  obtain ⟨ownRead, targetRead⟩ := sound.link outside given
  apply (lenient_ifMember good).objectBlock
  intro key e inEntries
  rcases List.mem_cons.mp inEntries with same | inEntries
  · obtain ⟨_, rfl⟩ := Entry.field.inj same
    apply (lenient_ifMember good).list
    intro item inItems
    rw [List.mem_singleton.mp inItems]
    exact reads_access ownRead
  · obtain ⟨_, rfl⟩ := Entry.field.inj (List.mem_singleton.mp inEntries)
    apply (lenient_ifMember good).list
    intro item inItems
    rw [List.mem_singleton.mp inItems]
    exact reads_access targetRead

theorem Sound.relationshipEntry {scope : List String} (outside : tableParameter ∉ scope)
    {relationship : Relationship} {key : String} {e : Expr}
    (made : relationshipEntry (.ofTable table.name) (table.resolveRelationship relationship) =
      .field key e) :
    Reads good scope e := by
  unfold StorageModule.relationshipEntry at made
  cases kind : (table.resolveRelationship relationship).kind with
  | oneToOne =>
      rw [kind] at made
      obtain ⟨_, rfl⟩ := Entry.field.inj made
      apply (lenient_ifMember good).apply
      intro argument inArguments
      rcases List.mem_cons.mp inArguments with rfl | inLink
      · exact (lenient_ifMember good).name _
      · obtain ⟨link, given, rfl⟩ := List.mem_map.mp inLink
        exact sound.linkBlock outside (Option.mem_toList.mp given)
  | oneToMany =>
      rw [kind] at made
      obtain ⟨_, rfl⟩ := Entry.field.inj made
      apply (lenient_ifMember good).apply
      intro argument inArguments
      rw [List.mem_singleton.mp inArguments]
      exact (lenient_ifMember good).name _
  | manyToMany =>
      rw [kind] at made
      cases made

theorem Sound.relationsConstant {statement : Statement}
    (member : statement ∈ relationsConstant (table.resolved others schema)) {value : Expr}
    (written : value ∈ statement.values) : Reads good [] value := by
  unfold StorageModule.relationsConstant at member
  split at member
  · cases member
  · rw [List.mem_singleton.mp member] at written
    rw [List.mem_singleton.mp written]
    apply (lenient_ifMember good).apply
    intro argument inArguments
    rcases List.mem_cons.mp inArguments with rfl | inArguments
    · exact (lenient_ifMember good).name _
    · rw [List.mem_singleton.mp inArguments]
      apply (lenient_ifMember good).arrow
      apply (lenient_ifMember good).grouped
      apply (lenient_ifMember good).objectBlock
      intro key e inEntries
      obtain ⟨resolved, inRelationships, made⟩ := List.mem_map.mp inEntries
      obtain ⟨relationship, _, rfl⟩ := List.mem_map.mp inRelationships
      refine sound.relationshipEntry ?_ made
      rw [List.mem_singleton]
      exact (relationshipParameters_ne _).symm

/-- Whatever the file of a table reads is one of the four kinds of members. -/
theorem Sound.ofTable (settings : Settings) {scope : List String} {constant property : String}
    (member : (scope, Expr.access constant property) ∈
      (ofTable settings (table.resolved others schema)).parts) :
    good scope constant property := by
  have each : ∀ part ∈ (StorageModule.ofTable settings (table.resolved others schema)).parts,
      IfMember good part.1 part.2 := by
    rw [Module.forall_mem_parts]
    intro paragraph inFile statement inParagraph value written
    rcases List.mem_cons.mp inFile with rfl | inRelations
    · rw [List.mem_singleton.mp inParagraph] at written
      exact sound.tableConstant others schema written
    · obtain ⟨held, isRelations, rfl⟩ := List.mem_map.mp inRelations
      rw [List.mem_singleton.mp inParagraph] at written
      exact sound.relationsConstant others schema isRelations written
  exact each _ member constant property rfl

end Tables

/-- The file of enumerations reads no member of any constant. -/
theorem not_mem_enums (settings : Settings) (enumerations : List Enumeration)
    (scope : List String) (constant property : String) :
    (scope, Expr.access constant property) ∉ (EnumModule.storage settings enumerations).parts := by
  intro member
  have each : ∀ part ∈ (EnumModule.storage settings enumerations).parts,
      IfMember (fun _ _ _ => False) part.1 part.2 := by
    rw [Module.forall_mem_parts]
    intro paragraph inFile statement inParagraph value written
    simp only [EnumModule.storage, EnumModule.file] at inFile
    split at inFile
    · rw [List.mem_singleton.mp inFile] at inParagraph
      rw [List.mem_singleton.mp inParagraph] at written
      cases written
    · obtain ⟨enumeration, _, rfl⟩ := List.mem_map.mp inFile
      rw [List.mem_singleton.mp inParagraph] at written
      rw [List.mem_singleton.mp written]
      refine (lenient_ifMember _).apply "pgEnum" ?_
      intro argument inArguments
      rcases List.mem_cons.mp inArguments with rfl | inArguments
      · exact (lenient_ifMember _).string _
      · rw [List.mem_singleton.mp inArguments]
        refine (lenient_ifMember _).list ?_
        intro item inItems
        obtain ⟨text, _, rfl⟩ := List.mem_map.mp inItems
        exact (lenient_ifMember _).string text
  exact each _ member constant property rfl

end StorageModule
end SchemaCompiler
