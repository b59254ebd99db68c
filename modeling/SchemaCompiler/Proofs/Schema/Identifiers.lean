import SchemaCompiler.Proofs.Relation.Identifiers
import SchemaCompiler.Proofs.Schema.Checks
import SchemaCompiler.Proofs.Schema.Loading
import SchemaCompiler.Proofs.Schema.Outcome

/-
Derived names that are identifiers.

Loading lets identifiers alone into a schema, but letter case drops the underscores that they
may start with.  What is derived from a name is an identifier if a word before it makes it one,
and otherwise depends on the first character that is no underscore.  All derived names of a
schema are identifiers exactly when that character is a letter in every name that they start
with.
-/

namespace SchemaCompiler

open Name (isIdentifier opensWithLetter opensWithDigit)

/-- The derived names of a table that are used as identifiers. -/
def TableNames.identifiers (names : TableNames) : List String :=
  [names.stem, names.tableConst, names.relationsConst, names.pascal, names.baseSchema,
    names.insertSchema, names.updateSchema, names.selectType, names.insertType,
    names.updateType, names.seedConst]

/-- The derived names that start with more than the name of the table, or keep its
underscores. -/
def TableNames.prefixed (names : TableNames) : List String :=
  [names.stem, names.insertSchema, names.updateSchema, names.insertType, names.updateType]

/-- The derived names that end with more than the name of the table, and start with it. -/
def TableNames.suffixed (names : TableNames) : List String :=
  [names.relationsConst, names.baseSchema, names.seedConst]

/-- The derived names of an enumeration that are used as identifiers. -/
def EnumNames.identifiers (names : EnumNames) : List String :=
  [names.storageConst, names.schemaConst, names.typeName, names.optionsConst]

/-- All derived names of a table that are used as identifiers: its own, the properties of
columns and relations, and the types of rows with a related row. -/
def ResolvedTable.identifiers (table : ResolvedTable) : List String :=
  table.names.identifiers ++ table.columns.map ResolvedColumn.property
    ++ (table.outgoing ++ table.incoming).map ResolvedRelation.property
    ++ table.relationships.map ResolvedRelationship.property
    ++ table.outgoing.map fun relation => table.names.withRelation relation.name

/-- All derived names of a schema that are used as identifiers. -/
def Schema.identifiers (schema : Schema) : List String :=
  (schema.enumerations.flatMap fun enumeration =>
      (EnumNames.ofEnumeration enumeration).identifiers)
    ++ schema.tablesWithOthers.flatMap fun entry =>
      (entry.1.resolved entry.2 schema).identifiers

/-- The names of a table open with letters, and so do those that its references suggest. -/
structure Table.OpensWithLetters (table : Table) : Prop where
  name : opensWithLetter table.name = true
  columns : ∀ column ∈ table.columns, opensWithLetter column.name = true
  references : ∀ entry ∈ table.references,
    opensWithLetter (entry.2.relationName entry.1.name) = true
  relationships : ∀ relationship ∈ table.relationships, opensWithLetter relationship.name = true

structure Schema.OpensWithLetters (schema : Schema) : Prop where
  enumerations : ∀ enumeration ∈ schema.enumerations,
    opensWithLetter enumeration.baseName = true
  tables : ∀ table ∈ schema.tables, table.OpensWithLetters

section Names

theorem isIdentifier_between {before name after : String} (first : isIdentifier before = true)
    (identifier : isIdentifier name = true) (last : isIdentifier after = true) :
    isIdentifier (before ++ Name.pascal name ++ after) = true := by
  apply Name.isIdentifier_append _ (Name.continuesIdentifier_of_mem last)
  exact Name.isIdentifier_append first (Name.continuesIdentifier_of_mem_pascal identifier)

theorem isIdentifier_baseName {enumeration : Enumeration}
    (identifier : isIdentifier enumeration.name = true) :
    isIdentifier enumeration.baseName = true := by
  unfold Enumeration.baseName
  split
  case h_1 c rest found => exact Name.isIdentifier_of_beforeEnding? found identifier
  case h_2 => exact identifier

theorem enumNames_legal_iff {enumeration : Enumeration}
    (identifier : isIdentifier enumeration.name = true) :
    (∀ name ∈ (EnumNames.ofEnumeration enumeration).identifiers, isIdentifier name = true) ↔
      opensWithLetter enumeration.baseName = true := by
  have base := isIdentifier_baseName identifier
  have ended {ending : String} (last : isIdentifier ending = true) :=
    Name.isIdentifier_camel_append_iff base last
  simp only [EnumNames.identifiers, EnumNames.ofEnumeration, List.forall_mem_cons,
    List.not_mem_nil, false_imp_iff, implies_true, and_true, Name.isIdentifier_pascal_iff base,
    ended (show isIdentifier "Enum" = true by decide),
    ended (show isIdentifier "Schema" = true by decide),
    ended (show isIdentifier "Options" = true by decide)]
  constructor
  · rintro ⟨_, _, letter, _⟩
    exact letter
  · intro letter
    have digit := Name.opensWithDigit_eq_false letter
    exact ⟨digit, digit, letter, digit⟩

section Tables

variable {table : String} (identifier : isIdentifier table = true)
include identifier

theorem opens_singular : opensWithLetter (Name.singular table) = opensWithLetter table ∧
    opensWithDigit (Name.singular table) = opensWithDigit table := by
  rw [opensWithLetter, opensWithDigit, Name.opening?_singular identifier]
  exact ⟨rfl, rfl⟩

/-- Words before the name of a table make an identifier of any. -/
theorem isIdentifier_of_prefixed :
    ∀ name ∈ (TableNames.ofTable table).prefixed, isIdentifier name = true := by
  have stem := Name.isIdentifier_singular identifier
  have continues := Name.continuesIdentifier_of_mem_pascal stem
  have insert : isIdentifier "insert" = true := by decide
  have update : isIdentifier "update" = true := by decide
  have ending : isIdentifier "Schema" = true := by decide
  have new : isIdentifier "New" = true := by decide
  have changed : isIdentifier "Update" = true := by decide
  simp only [TableNames.prefixed, List.forall_mem_cons, List.not_mem_nil, false_imp_iff,
    implies_true, and_true]
  exact ⟨stem, isIdentifier_between insert stem ending, isIdentifier_between update stem ending,
    Name.isIdentifier_append new continues, Name.isIdentifier_append changed continues⟩

/-- Words after the name of a table make an identifier of it unless it opens with a digit. -/
theorem isIdentifier_suffixed_iff : ∀ name ∈ (TableNames.ofTable table).suffixed,
    isIdentifier name = true ↔ opensWithDigit table = false := by
  have stem := Name.isIdentifier_singular identifier
  have relations : isIdentifier "Relations" = true := by decide
  have ended {ending : String} (last : isIdentifier ending = true) :
      isIdentifier (Name.camel (Name.singular table) ++ ending) = true ↔
        opensWithDigit table = false := by
    rw [Name.isIdentifier_camel_append_iff stem last, (opens_singular identifier).2]
  simp only [TableNames.suffixed, List.forall_mem_cons, List.not_mem_nil, false_imp_iff,
    implies_true, and_true]
  exact ⟨Name.isIdentifier_camel_append_iff identifier relations,
    ended (show isIdentifier "Schema" = true by decide),
    ended (show isIdentifier "Seed" = true by decide)⟩

theorem isIdentifier_pascal_singular_iff :
    isIdentifier (TableNames.ofTable table).pascal = true ↔ opensWithLetter table = true := by
  rw [← (opens_singular identifier).1]
  exact Name.isIdentifier_pascal_iff (Name.isIdentifier_singular identifier)

theorem tableNames_legal_iff :
    (∀ name ∈ (TableNames.ofTable table).identifiers, isIdentifier name = true) ↔
      opensWithLetter table = true := by
  have always := isIdentifier_of_prefixed identifier
  have ended := isIdentifier_suffixed_iff identifier
  have pascal := isIdentifier_pascal_singular_iff identifier
  simp only [TableNames.identifiers, TableNames.prefixed, TableNames.suffixed,
    List.forall_mem_cons, List.not_mem_nil, false_imp_iff, implies_true, and_true]
    at always ended ⊢
  obtain ⟨stem, insertSchema, updateSchema, insertType, updateType⟩ := always
  obtain ⟨relations, base, seed⟩ := ended
  constructor
  · rintro ⟨_, _, _, legal, _⟩
    exact pascal.mp legal
  · intro letter
    have digit := Name.opensWithDigit_eq_false letter
    exact ⟨stem, (Name.isIdentifier_camel_iff identifier).mpr letter, relations.mpr digit,
      pascal.mpr letter, base.mpr digit, insertSchema, updateSchema, pascal.mpr letter,
      insertType, updateType, seed.mpr digit⟩

end Tables

end Names

namespace Schema

/-- The names that a compiled schema was loaded with are identifiers. -/
structure Named (schema : Schema) : Prop where
  enumerations : ∀ enumeration ∈ schema.enumerations, isIdentifier enumeration.name = true
  tables : ∀ table ∈ schema.tables, isIdentifier table.name = true
  columns : ∀ table ∈ schema.tables, ∀ column ∈ table.columns, isIdentifier column.name = true
  references : ∀ table ∈ schema.tables, ∀ entry ∈ table.references,
    isIdentifier entry.1.name = true ∧ isIdentifier entry.2.table = true
  relationships : ∀ table ∈ schema.tables, ∀ relationship ∈ table.relationships,
    isIdentifier relationship.name = true

theorem named_of_compile {layout : DescriptorLayout} {enums tables : List Source}
    {schema : Schema} {settings : Settings} {compilation : Compilation}
    (loaded : load layout enums tables = .ok schema)
    (compiled : schema.compile settings = .ok compilation) : schema.Named := by
  have admitted := admitted_of_load loaded
  obtain ⟨valid, _, faultless, _⟩ := compile_eq_ok_iff.mp compiled
  have ofTable : ∀ table ∈ schema.tables, isIdentifier table.name = true := by
    intro table member
    rcases (admitted.tables table member).empty_or_isIdentifier with empty | identifier
    · have issues := valid table member
      have blank : Text.isBlankText "" = true := by decide
      rw [Table.issues, empty, if_pos blank] at issues
      cases issues
    · exact identifier
  have ofColumn : ∀ table ∈ schema.tables, ∀ column ∈ table.columns,
      isIdentifier column.name = true := by
    intro table member column declared
    exact ((admitted.tables table member).columns column declared).isIdentifier
  constructor
  · intro enumeration member
    exact (admitted.enumerations enumeration member).isIdentifier
  · exact ofTable
  · exact ofColumn
  · rintro table member ⟨column, key⟩ held
    obtain ⟨target, inTables, sameName, _⟩ :=
      Table.exists_column_of_reference (faultless table member) held
    refine ⟨ofColumn table member column (Table.mem_references.mp held).1, ?_⟩
    rw [← sameName]
    exact ofTable target inTables
  · intro table member relationship declared
    exact ((admitted.tables table member).relationships relationship declared).isIdentifier

section Placed

variable {schema : Schema} {table : Table} {others : List Table}

theorem forall_mem_identifiers {holds : String → Prop} :
    (∀ name ∈ (table.resolved others schema).identifiers, holds name) ↔
      (∀ name ∈ (TableNames.ofTable table.name).identifiers, holds name) ∧
      (∀ column ∈ table.columns, holds (Name.camel column.name)) ∧
      (∀ relation ∈ table.outgoing, holds (Name.camel relation.name)) ∧
      (∀ relation ∈ table.incoming others, holds (Name.camel relation.name)) ∧
      (∀ relationship ∈ table.relationships, holds (Name.camel relationship.name)) ∧
      ∀ relation ∈ table.outgoing,
        holds ((TableNames.ofTable table.name).withRelation relation.name) := by
  simp only [ResolvedTable.identifiers, Table.resolved, List.forall_mem_append,
    List.forall_mem_map, List.map_append, and_assoc]
  rfl

variable (named : schema.Named) (placed : (table, others) ∈ schema.tablesWithOthers)
include named placed

theorem isIdentifier_of_mem_outgoing :
    ∀ relation ∈ table.outgoing, isIdentifier relation.name = true := by
  have references := named.references table (mem_tables_of_placed placed)
  exact Table.isIdentifier_of_mem_outgoingFrom (fun entry held => (references entry held).1)
    (fun entry held => (references entry held).2) _

theorem isIdentifier_of_mem_incoming :
    ∀ relation ∈ table.incoming others, isIdentifier relation.name = true := by
  have origin : ∀ entry ∈ Table.referencesTo table.name others, ∃ source ∈ schema.tables,
      source.name = entry.1 ∧ entry.2 ∈ source.references := by
    intro entry member
    obtain ⟨source, inOthers, made⟩ := List.mem_flatMap.mp member
    obtain ⟨held, kept, rfl⟩ := List.mem_map.mp made
    exact ⟨source, others_subset_of_placed placed inOthers, rfl, (List.mem_filter.mp kept).1⟩
  apply Table.isIdentifier_of_mem_incomingFrom
  · intro entry member
    obtain ⟨source, inTables, sameName, _⟩ := origin entry member
    exact sameName ▸ named.tables source inTables
  · intro entry member
    obtain ⟨source, inTables, _, held⟩ := origin entry member
    exact (named.references source inTables entry.2 held).1
  · intro entry member
    obtain ⟨source, inTables, _, held⟩ := origin entry member
    exact (named.references source inTables entry.2 held).2

theorem forall_outgoing_opens_iff
    (columns : ∀ column ∈ table.columns, opensWithLetter column.name = true) :
    (∀ relation ∈ table.outgoing, opensWithLetter relation.name = true) ↔
      ∀ entry ∈ table.references,
        opensWithLetter (entry.2.relationName entry.1.name) = true := by
  have references := named.references table (mem_tables_of_placed placed)
  exact Table.opensWithLetter_outgoingFrom_iff (fun entry held => (references entry held).1)
    (Table.fresh_of_columns columns)

theorem opens_of_mem_incoming (opens : table.OpensWithLetters)
    (sources : ∀ other ∈ schema.tables, opensWithLetter other.name = true) :
    ∀ relation ∈ table.incoming others, opensWithLetter relation.name = true := by
  have outgoing := (forall_outgoing_opens_iff named placed opens.columns).mpr opens.references
  apply Table.opensWithLetter_of_mem_incomingFrom
  · rw [List.mem_append, not_or]
    refine ⟨Table.fresh_of_columns opens.columns, ?_⟩
    intro empty
    obtain ⟨relation, member, none⟩ := List.mem_map.mp empty
    exact Name.camel_ne_empty (outgoing relation member) none
  · intro entry member
    obtain ⟨source, inOthers, made⟩ := List.mem_flatMap.mp member
    obtain ⟨held, _, rfl⟩ := List.mem_map.mp made
    exact sources source (others_subset_of_placed placed inOthers)

theorem opens_of_legal
    (legal : ∀ name ∈ (table.resolved others schema).identifiers, isIdentifier name = true) :
    table.OpensWithLetters := by
  have member := mem_tables_of_placed placed
  obtain ⟨names, columns, outgoing, _, relationships, _⟩ := forall_mem_identifiers.mp legal
  have columnsOpen : ∀ column ∈ table.columns, opensWithLetter column.name = true := by
    intro column declared
    exact (Name.isIdentifier_camel_iff (named.columns table member column declared)).mp
      (columns column declared)
  constructor
  · exact (tableNames_legal_iff (named.tables table member)).mp names
  · exact columnsOpen
  · apply (forall_outgoing_opens_iff named placed columnsOpen).mp
    intro relation made
    exact (Name.isIdentifier_camel_iff (isIdentifier_of_mem_outgoing named placed relation made)).mp
      (outgoing relation made)
  · intro relationship declared
    exact (Name.isIdentifier_camel_iff
      (named.relationships table member relationship declared)).mp
        (relationships relationship declared)

theorem legal_of_opens (opens : ∀ other ∈ schema.tables, other.OpensWithLetters) :
    ∀ name ∈ (table.resolved others schema).identifiers, isIdentifier name = true := by
  have member := mem_tables_of_placed placed
  have own := opens table member
  have outgoing := (forall_outgoing_opens_iff named placed own.columns).mpr own.references
  have outgoingNamed := isIdentifier_of_mem_outgoing named placed
  have tableNamed := named.tables table member
  rw [forall_mem_identifiers]
  refine ⟨(tableNames_legal_iff tableNamed).mpr own.name, ?_, ?_, ?_, ?_, ?_⟩
  · intro column declared
    exact (Name.isIdentifier_camel_iff (named.columns table member column declared)).mpr
      (own.columns column declared)
  · intro relation made
    exact (Name.isIdentifier_camel_iff (outgoingNamed relation made)).mpr
      (outgoing relation made)
  · intro relation made
    have incoming := opens_of_mem_incoming named placed own fun other inTables =>
      (opens other inTables).name
    exact (Name.isIdentifier_camel_iff (isIdentifier_of_mem_incoming named placed relation made)).mpr
      (incoming relation made)
  · intro relationship declared
    exact (Name.isIdentifier_camel_iff
      (named.relationships table member relationship declared)).mpr
        (own.relationships relationship declared)
  · intro relation made
    have pascal := (isIdentifier_pascal_singular_iff tableNamed).mpr own.name
    have between : isIdentifier "With" = true := by decide
    apply Name.isIdentifier_append
    · exact Name.isIdentifier_append pascal (Name.continuesIdentifier_of_mem between)
    · exact Name.continuesIdentifier_of_mem_pascal (outgoingNamed relation made)

end Placed

theorem legal_iff {schema : Schema} (named : schema.Named) :
    (∀ name ∈ schema.identifiers, isIdentifier name = true) ↔ schema.OpensWithLetters := by
  rw [identifiers, List.forall_mem_append, List.forall_mem_flatMap, List.forall_mem_flatMap]
  constructor
  · rintro ⟨enumerations, tables⟩
    constructor
    · intro enumeration member
      exact (enumNames_legal_iff (named.enumerations enumeration member)).mp
        (enumerations enumeration member)
    · intro table member
      obtain ⟨others, placed⟩ := exists_placed_of_mem member
      exact opens_of_legal named placed (tables (table, others) placed)
  · rintro ⟨enumerations, tables⟩
    constructor
    · intro enumeration member
      exact (enumNames_legal_iff (named.enumerations enumeration member)).mpr
        (enumerations enumeration member)
    · rintro ⟨table, others⟩ placed
      exact legal_of_opens named placed tables

/-- Which derived names are identifiers. -/
structure LegalNames (schema : Schema) : Prop where
  all_legal_iff :
    (∀ name ∈ schema.identifiers, isIdentifier name = true) ↔ schema.OpensWithLetters
  prefixed_legal : ∀ table ∈ schema.tables,
    ∀ name ∈ (TableNames.ofTable table.name).prefixed, isIdentifier name = true
  suffixed_legal_iff : ∀ table ∈ schema.tables,
    ∀ name ∈ (TableNames.ofTable table.name).suffixed,
      isIdentifier name = true ↔ opensWithDigit table.name = false

theorem compile_legal_names {layout : DescriptorLayout} {enums tables : List Source}
    {schema : Schema} {settings : Settings} {compilation : Compilation}
    (loaded : load layout enums tables = .ok schema)
    (compiled : schema.compile settings = .ok compilation) : schema.LegalNames := by
  have named := named_of_compile loaded compiled
  constructor
  · exact legal_iff named
  · intro table member
    exact isIdentifier_of_prefixed (named.tables table member)
  · intro table member
    exact isIdentifier_suffixed_iff (named.tables table member)

theorem compile_legal_names_of_cats : ∃ compilation,
    load .usual [moods] [cats] = .ok catsAndMoods ∧
      catsAndMoods.compile .usual = .ok compilation ∧ catsAndMoods.LegalNames :=
  ⟨_, load_cats, compile_cats .usual, compile_legal_names load_cats (compile_cats .usual)⟩

/-- A table whose name goes on with a digit, and with a column that is no more than that. -/
def codes : Source :=
  ⟨"_2fa_codes.json",
    "\x7b\"name\":\"_2fa_codes\",\"columns\":\x7b\"_1\":\x7b\"type\":\"serial\"\x7d\x7d\x7d"⟩

theorem names_may_be_illegal : ∃ schema compilation,
    load .usual [] [codes] = .ok schema ∧ schema.compile .usual = .ok compilation ∧
      ∃ name ∈ schema.identifiers, isIdentifier name = false := by
  have loaded : load .usual [] [codes] =
      .ok ⟨[], [{ Table.plain "_2fa_codes" with columns := [.plain "_1" .autoIncrement] }]⟩ := by
    cbv
  exact ⟨_, _, loaded, compile_of_faultless .usual (by decide) (by decide), "2faCode",
    by decide, by decide⟩

end Schema

end SchemaCompiler
