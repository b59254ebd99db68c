import Mathlib
import SchemaCompiler.Proofs.Descriptor.Checks
import SchemaCompiler.Proofs.Json.Keys
import SchemaCompiler.Proofs.Schema.Outcome

/-
What holds of every schema that was loaded.

Loading refuses names that are no identifiers and names that repeat, enumerations without
members, indexes without columns, and relationships between many and many without a table
in the middle.  It also settles what may be written in more than one way: a column that
belongs to the key or counts up never accepts null, a text that stands for the time of
insertion is no text, and a spelling of the vocabulary is no name of an enumeration.  All
that comes later may rely on this.
-/

namespace SchemaCompiler

open Json (Value Tree Fields)

structure Enumeration.Admitted (enumeration : Enumeration) : Prop where
  isIdentifier : Name.isIdentifier enumeration.name = true
  members_ne_nil : enumeration.members ≠ []
  isEnumMember : ∀ value ∈ enumeration.values, Name.isEnumMember value = true
  nodup_values : enumeration.values.Nodup

structure Column.Admitted (column : Column) : Prop where
  isIdentifier : Name.isIdentifier column.name = true
  never_null : column.primaryKey = true ∨ column.type.isAutoIncrement = true →
    column.nullable = false
  nullable_eq : column.nullable = column.isNullable
  no_timestamp_text : ∀ text, column.fallback = some (.text text) →
    text ∉ DefaultValue.timestampWords
  no_vocabulary_name : ∀ tag, column.type = .named tag →
    tag ∉ ColumnType.vocabulary.map Prod.fst

structure Relationship.Admitted (relationship : Relationship) : Prop where
  isIdentifier : Name.isIdentifier relationship.name = true
  through_given : relationship.kind = .manyToMany → relationship.through.isSome = true

structure Table.Admitted (table : Table) : Prop where
  empty_or_isIdentifier : table.name = "" ∨ Name.isIdentifier table.name = true
  columns : ∀ column ∈ table.columns, column.Admitted
  nodup_columns : (table.columns.map Column.name).Nodup
  indexes : ∀ index ∈ table.indexes, index.columns ≠ []
  nodup_indexes : (table.indexes.map Index.name).Nodup
  relationships : ∀ relationship ∈ table.relationships, relationship.Admitted
  nodup_relationships : (table.relationships.map Relationship.name).Nodup

/-- What holds of a schema that was loaded. -/
structure Schema.Admitted (schema : Schema) : Prop where
  enumerations : ∀ enumeration ∈ schema.enumerations, enumeration.Admitted
  nodup_enumerations : (schema.enumerations.map Enumeration.name).Nodup
  tables : ∀ table ∈ schema.tables, table.Admitted
  nodup_tables : ((schema.tables.map Table.name).filter fun name => name ≠ "").Nodup

theorem ColumnType.not_mem_vocabulary_of_ofTag {written tag : String}
    (named : ofTag written = .named tag) : tag ∉ vocabulary.map Prod.fst := by
  unfold ofTag at named
  split at named
  · rename_i entry found
    have member := List.mem_of_find?_eq_some found
    have typed : ∀ entry ∈ vocabulary, ∀ tag, entry.2 ≠ .named tag := by
      simp [vocabulary]
    exact absurd named (typed entry member tag)
  · rename_i missing
    cases named
    intro member
    obtain ⟨entry, listed, same⟩ := List.mem_map.mp member
    have differs := List.find?_eq_none.mp missing entry listed
    simp [same] at differs

namespace Descriptor

theorem not_mem_timestampWords_of_defaultOfValue {column text : String} {value : Value}
    (found : defaultOfValue column value = .ok (some (.text text))) :
    text ∉ DefaultValue.timestampWords := by
  cases value with
  | string written =>
      by_cases sentinel : DefaultValue.timestampWords.contains written = true
      · simp only [defaultOfValue, sentinel, if_true] at found
        cases found
      · simp only [defaultOfValue, sentinel] at found
        cases found
        simpa using sentinel
  | _ => cases found

theorem admitted_of_readColumn {name : String} {body : Value} {column : Column}
    (found : readColumn name body = .ok column) : column.name = name ∧ column.Admitted := by
  simp only [readColumn, WrittenColumn.toColumn, bind_eq_ok_iff, pure_eq_ok_iff,
    unlessBreach_eq_ok_iff, exists_const] at found
  obtain ⟨written, _, named, fallback, standard, reference, _, rfl⟩ := found
  refine ⟨rfl, named, ?_, ?_, ?_, ?_⟩
  · rintro (key | counts)
    · have declared : written.primaryKey = true := key
      simp only [declared, Bool.not_true, Bool.and_false, Bool.false_and]
    · have automatic : (ColumnType.ofTag written.tag).isAutoIncrement = true := counts
      simp only [automatic, Bool.not_true, Bool.and_false]
  · simp only [Column.isNullable, Bool.and_assoc, Bool.and_self]
  · rintro text rfl
    exact not_mem_timestampWords_of_defaultOfValue standard
  · intro tag outside
    exact ColumnType.not_mem_vocabulary_of_ofTag outside

theorem admitted_of_readIndex {name : String} {body : Value} {index : Index}
    (found : readIndex name body = .ok index) : index.name = name ∧ index.columns ≠ [] := by
  simp only [readIndex, bind_eq_ok_iff, pure_eq_ok_iff, wellFormed_eq_ok_iff,
    unlessBreach_eq_ok_iff, exists_const, readRecord?, Option.bind_eq_bind,
    Option.bind_eq_some_iff] at found
  obtain ⟨_, ⟨record, _, read⟩, listed, rfl⟩ := found
  split at read
  · simp only [Option.bind_eq_some_iff, Option.pure_def, Option.some.injEq] at read
    obtain ⟨columns, _, unique, _, rfl⟩ := read
    exact ⟨rfl, by simpa using listed⟩
  · cases read

theorem admitted_of_readRelationship {name : String} {body : Value}
    {relationship : Relationship} (found : readRelationship name body = .ok relationship) :
    relationship.name = name ∧ relationship.Admitted := by
  simp only [readRelationship, bind_eq_ok_iff, pure_eq_ok_iff, unlessBreach_eq_ok_iff,
    exists_const] at found
  obtain ⟨⟨spelling, target, through⟩, _, named, kind, _, joined, rfl⟩ := found
  refine ⟨rfl, named, ?_⟩
  rintro rfl
  simpa using joined

/- Columns, indexes and relationships are all read from bodies one by one. -/
section Bodies

variable {α : Type} {read : String → Value → Except Problem α}
  (readAll : Fields → Except Problem (List α)) (nameOf : α → String) (nil : readAll [] = .ok [])
  (cons : ∀ name body rest, readAll ((name, body) :: rest) = do
    let item ← read name body
    let others ← readAll rest
    return item :: others)
  {bodies : Fields} {items : List α} (found : readAll bodies = .ok items)

include nil cons found

/-- Each thing that is read comes from one of the bodies. -/
theorem exists_body_of_mem {item : α} (member : item ∈ items) :
    ∃ name body, (name, body) ∈ bodies ∧ read name body = .ok item := by
  induction bodies generalizing items with
  | nil =>
      rw [nil] at found
      cases found
      cases member
  | cons entry rest ih =>
      simp only [cons, bind_eq_ok_iff, pure_eq_ok_iff] at found
      obtain ⟨first, reads, others, later, rfl⟩ := found
      rcases List.mem_cons.mp member with rfl | inRest
      · exact ⟨entry.1, entry.2, List.mem_cons_self, reads⟩
      · obtain ⟨name, body, listed, given⟩ := ih later inRest
        exact ⟨name, body, List.mem_cons_of_mem entry listed, given⟩

/-- What is read keeps the names of the bodies and their order. -/
theorem names_of_bodies
    (reads : ∀ {name body item}, read name body = .ok item → nameOf item = name) :
    items.map nameOf = bodies.keys := by
  induction bodies generalizing items with
  | nil =>
      rw [nil] at found
      cases found
      rfl
  | cons entry rest ih =>
      simp only [cons, bind_eq_ok_iff, pure_eq_ok_iff] at found
      obtain ⟨item, first, others, later, rfl⟩ := found
      rw [List.map_cons, reads first, ih later]
      rfl

/-- What is read has what each body gives it. -/
theorem admitted_of_bodies (Admitted : α → Prop)
    (reads : ∀ {name body item}, read name body = .ok item → nameOf item = name ∧ Admitted item)
    (distinct : bodies.keys.Nodup) :
    (∀ item ∈ items, Admitted item) ∧ (items.map nameOf).Nodup := by
  refine ⟨?_, names_of_bodies readAll nameOf nil cons found (fun read => (reads read).1) ▸ distinct⟩
  clear distinct
  induction bodies generalizing items with
  | nil =>
      rw [nil] at found
      cases found
      exact nofun
  | cons entry rest ih =>
      simp only [cons, bind_eq_ok_iff, pure_eq_ok_iff] at found
      obtain ⟨item, first, others, later, rfl⟩ := found
      exact List.forall_mem_cons.mpr ⟨(reads first).2, ih later⟩

end Bodies

theorem exists_of_readTreeRecord? {α : Type} {room fieldCount : Nat}
    {read? : Nat → Json.Record Tree → Option α} {tree : Tree} {a : α}
    (found : readTreeRecord? room fieldCount read? tree = some a) :
    ∃ inner record, tree.record? = some record ∧ read? inner record = some a := by
  cases room with
  | zero => cases found
  | succ inner =>
      obtain ⟨record, opened, read⟩ := Option.bind_eq_some_iff.mp found
      split at read
      · exact ⟨inner, record, opened, read⟩
      · cases read

theorem nodup_keys_of_readTableBody? {tree : Tree} {written : WrittenTable}
    (read : readTableBody? tree = some written) :
    written.columns.keys.Nodup ∧ written.indexes.keys.Nodup ∧
      written.relationships.keys.Nodup := by
  obtain ⟨room, record, _, fields⟩ := exists_of_readTreeRecord? read
  simp only [Option.bind_eq_bind, Option.bind_eq_some_iff, Option.pure_def,
    Option.some.injEq] at fields
  obtain ⟨name, _, displayName, _, icon, _, description, _, columns, ofColumns, indexes,
    ofIndexes, relationships, ofRelationships, seed, _, listView, _, rfl⟩ := fields
  exact ⟨Json.Record.nodup_keys_of_defaulted? ofColumns,
    Json.Record.nodup_keys_of_defaulted? ofIndexes,
    Json.Record.nodup_keys_of_defaulted? ofRelationships⟩

theorem admitted_of_readTable {text : String} {table : Table}
    (found : readTable text = .ok table) : table.Admitted := by
  simp only [readTable, tableOfTree, WrittenTable.toTable, bind_eq_ok_iff, pure_eq_ok_iff,
    wellFormed_eq_ok_iff, unlessBreach_eq_ok_iff, exists_const] at found
  obtain ⟨tree, _, written, read, named, columns, columnsRead, indexes, indexesRead,
    relationships, relationshipsRead, listView, _, rfl⟩ := found
  have ⟨columnKeys, indexKeys, relationshipKeys⟩ := nodup_keys_of_readTableBody? read
  have ofColumns := admitted_of_bodies readColumns Column.name rfl (fun _ _ _ => rfl) columnsRead
    Column.Admitted admitted_of_readColumn columnKeys
  have ofIndexes := admitted_of_bodies readIndexes Index.name rfl (fun _ _ _ => rfl) indexesRead
    (fun index => index.columns ≠ []) admitted_of_readIndex indexKeys
  have ofRelationships := admitted_of_bodies readRelationships Relationship.name rfl
    (fun _ _ _ => rfl) relationshipsRead Relationship.Admitted admitted_of_readRelationship
    relationshipKeys
  exact ⟨by simpa using named, ofColumns.1, ofColumns.2, ofIndexes.1, ofIndexes.2,
    ofRelationships.1, ofRelationships.2⟩

theorem admitted_of_toEnumeration {written : WrittenEnum} {fallback : String}
    {enumeration : Enumeration} (found : written.toEnumeration fallback = .ok enumeration) :
    enumeration.Admitted := by
  simp only [WrittenEnum.toEnumeration, bind_eq_ok_iff, pure_eq_ok_iff,
    unlessBreach_eq_ok_iff, exists_const] at found
  obtain ⟨named, nonempty, done, passes, rfl⟩ := found
  have ⟨safe, apart⟩ := members_of_checkMembers List.nodup_nil passes
  have sameValues : (written.members.map written.complete).map Member.value =
      written.members.map Member.value := by
    rw [List.map_map]
    rfl
  constructor
  · exact named
  · simpa using nonempty
  · rw [Enumeration.values, sameValues]
    exact safe
  · rw [Enumeration.values, sameValues]
    exact apart

theorem admitted_of_enumsOfFields {fields : Fields} {enumerations : List Enumeration}
    (found : enumsOfFields fields = .ok enumerations) :
    ∀ enumeration ∈ enumerations, enumeration.Admitted := by
  induction fields generalizing enumerations with
  | nil =>
      cases found
      exact nofun
  | cons entry rest ih =>
      simp only [enumsOfFields, bind_eq_ok_iff, pure_eq_ok_iff] at found
      obtain ⟨written, _, enumeration, made, others, later, rfl⟩ := found
      exact List.forall_mem_cons.mpr ⟨admitted_of_toEnumeration made, ih later⟩

theorem admitted_of_readEnums {fallback text : String} {enumerations : List Enumeration}
    (found : readEnums fallback text = .ok enumerations) :
    ∀ enumeration ∈ enumerations, enumeration.Admitted := by
  simp only [readEnums, bind_eq_ok_iff] at found
  obtain ⟨value, _, made⟩ := found
  unfold enumsOfValue at made
  split at made
  · split at made
    · simp only [bind_eq_ok_iff, pure_eq_ok_iff] at made
      obtain ⟨written, _, enumeration, single, rfl⟩ := made
      exact List.forall_mem_singleton.mpr (admitted_of_toEnumeration single)
    · exact admitted_of_enumsOfFields made
  · cases made

theorem admitted_of_loadEnums {extension : String} {seen : List String}
    {sources : List Source} {enumerations : List Enumeration} (distinct : seen.Nodup)
    (found : loadEnums extension seen sources = .ok enumerations) :
    (∀ enumeration ∈ enumerations, enumeration.Admitted) ∧
      (seen ++ enumerations.map Enumeration.name).Nodup := by
  induction sources generalizing seen enumerations with
  | nil =>
      cases found
      exact ⟨nofun, by simpa using distinct⟩
  | cons source rest ih =>
      simp only [loadEnums, enumsOfSource, bind_eq_ok_iff, pure_eq_ok_iff, inFile_eq_ok_iff]
        at found
      obtain ⟨first, ⟨_, read, done, passes, rfl⟩, others, later, rfl⟩ := found
      have ⟨admitted, apart⟩ := ih (nodup_of_checkNew distinct passes) later
      constructor
      · exact List.forall_mem_append.mpr ⟨admitted_of_readEnums read, admitted⟩
      · rw [List.map_append, ← List.append_assoc]
        exact apart

theorem admitted_of_loadTables {seen : List String} {sources : List Source}
    {tables : List Table} (distinct : seen.Nodup)
    (found : loadTables seen sources = .ok tables) :
    (∀ table ∈ tables, table.Admitted) ∧ (seen ++ tables.flatMap claimedName).Nodup := by
  induction sources generalizing seen tables with
  | nil =>
      cases found
      exact ⟨nofun, by simpa using distinct⟩
  | cons source rest ih =>
      simp only [loadTables, tableOfSource, bind_eq_ok_iff, pure_eq_ok_iff, inFile_eq_ok_iff]
        at found
      obtain ⟨first, ⟨_, read, done, passes, rfl⟩, others, later, rfl⟩ := found
      have ⟨admitted, apart⟩ := ih (nodup_of_checkNew distinct passes) later
      constructor
      · exact List.forall_mem_cons.mpr ⟨admitted_of_readTable read, admitted⟩
      · rw [List.flatMap_cons, ← List.append_assoc]
        exact apart

theorem flatMap_claimedName (tables : List Table) :
    tables.flatMap claimedName = (tables.map Table.name).filter fun name => name ≠ "" := by
  induction tables with
  | nil => rfl
  | cons table rest ih =>
      rw [List.flatMap_cons, ih, List.map_cons, List.filter_cons, claimedName]
      by_cases empty : table.name = ""
      · simp [empty]
      · simp [empty]

end Descriptor

namespace Schema

theorem tables_admitted_of_load {layout : DescriptorLayout} {enums tables : List Source}
    {schema : Schema} (loaded : load layout enums tables = .ok schema) :
    ∀ table ∈ schema.tables, table.Admitted := by
  simp only [load, bind_eq_ok_iff, pure_eq_ok_iff] at loaded
  obtain ⟨_, _, found, tablesLoaded, rfl⟩ := loaded
  exact (Descriptor.admitted_of_loadTables List.nodup_nil tablesLoaded).1

/-- Every schema that was loaded is admitted, whatever its sources. -/
theorem admitted_of_load {layout : DescriptorLayout} {enums tables : List Source}
    {schema : Schema} (loaded : load layout enums tables = .ok schema) : schema.Admitted := by
  simp only [load, bind_eq_ok_iff, pure_eq_ok_iff] at loaded
  obtain ⟨enumerations, enumsLoaded, found, tablesLoaded, rfl⟩ := loaded
  have ofEnums := Descriptor.admitted_of_loadEnums List.nodup_nil enumsLoaded
  have ofTables := Descriptor.admitted_of_loadTables List.nodup_nil tablesLoaded
  rw [Descriptor.flatMap_claimedName] at ofTables
  exact ⟨ofEnums.1, ofEnums.2, ofTables.1, ofTables.2⟩

/-- An enumeration that takes its name from its file. -/
def moods : Source :=
  ⟨"mood.json", "\x7b\"values\":[\"calm\",\"keen\"]\x7d"⟩

/-- A table that writes one column twice, and says of another one, which counts up, that it
accepts null. -/
def cats : Source :=
  ⟨"cats.json",
    "[\"cats\",null,null,null,\x7b\"id\":\x7b\"type\":\"serial\",\"nullable\":true\x7d,"
      ++ "\"mood\":\x7b\"type\":\"text\"\x7d,\"mood\":\x7b\"type\":\"mood\"\x7d\x7d,"
      ++ "\x7b\"by_mood\":[[\"mood\"]]\x7d]"⟩

def catsAndMoods : Schema where
  enumerations := [⟨"mood", [.plain "calm", .plain "keen"], none⟩]
  tables := [{ Table.plain "cats" with
    columns := [.plain "id" .autoIncrement, .plain "mood" (.named "mood")]
    indexes := [⟨"by_mood", ["mood"], false⟩] }]

theorem load_cats : load .usual [moods] [cats] = .ok catsAndMoods := by cbv

theorem compile_cats (settings : Settings) : catsAndMoods.compile settings =
    .ok ⟨catsAndMoods.artifacts settings (catsAndMoods.modules settings)⟩ :=
  compile_of_faultless settings (by decide) (by decide)

theorem admitted_of_load_cats :
    load .usual [moods] [cats] = .ok catsAndMoods ∧ catsAndMoods.Admitted :=
  ⟨load_cats, admitted_of_load load_cats⟩

end Schema
end SchemaCompiler
