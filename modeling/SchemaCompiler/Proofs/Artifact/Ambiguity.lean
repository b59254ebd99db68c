import Mathlib
import SchemaCompiler.Proofs.Artifact.Roles
import SchemaCompiler.Proofs.Schema.Loading

/-
Ambiguous exports.

A directory should export every name once.  What is checked is less: that the stems of
files, the constants of tables and enumerations and the stems of types differ.  This keeps
the names of each single role apart.  So a name is exported twice exactly when two roles
meet in it, as in a table whose rows are called as the new rows of another table.
-/

namespace SchemaCompiler

theorem Enumeration.nodup_exportRoles (kind : ArtifactKind) : (exportRoles kind).Nodup := by
  cases kind <;> decide

theorem Enumeration.option_not_mem (kind : ArtifactKind) : .option ∉ exportRoles kind := by
  cases kind <;> decide

theorem ResolvedTable.option_not_mem (table : ResolvedTable) (kind : ArtifactKind) :
    .option ∉ table.exportRoles kind := by
  cases kind with
  | validation =>
      simp only [exportRoles]
      decide
  | types =>
      simp only [exportRoles]
      split <;> simp
  | _ =>
      simp only [exportRoles]
      split <;> decide

theorem Table.nodup_exportRoles (table : Table) (others : List Table) (schema : Schema)
    (kind : ArtifactKind) : ((table.resolved others schema).exportRoles kind).Nodup := by
  cases kind with
  | validation =>
      simp only [ResolvedTable.exportRoles]
      decide
  | types =>
      -- Roles of related rows differ because the properties of their relations do.
      have related : ((table.resolved others schema).outgoing.map fun relation =>
          ExportRole.withRelation relation.name).Nodup := by
        have distinct := (outgoingFrom_apart table.columnProperties table.references).distinct
        rw [resolved, List.map_map]
        apply List.Pairwise.map _ _ (List.pairwise_map.mp distinct)
        intro left right different same
        exact different (congrArg Name.camel (ExportRole.withRelation.inj same))
      simp only [ResolvedTable.exportRoles]
      split <;> simp [related]
  | _ =>
      simp only [ResolvedTable.exportRoles]
      split <;> decide

namespace Schema

theorem role_ne_option {schema : Schema} {kind : ArtifactKind} {entry : ExportRole × String}
    (member : entry ∈ schema.ownedEntries kind) : entry.1 ≠ .option := by
  intro shared
  rcases mem_ownedEntries.mp member with ⟨_, _, owns, _⟩ | ⟨placed, _, owns, _⟩
  · exact Enumeration.option_not_mem kind (shared ▸ owns)
  · exact ResolvedTable.option_not_mem _ kind (shared ▸ owns)

theorem mem_exportEntries_storage {schema : Schema} (settings : Settings)
    {entry : ExportRole × String} :
    entry ∈ schema.exportEntries settings .storage ↔
      (entry.1 = .constant ∧
        ((∃ enumeration ∈ schema.enumerations, entry.2 = enumeration.stems.constant) ∨
          ∃ table ∈ schema.tables, entry.2 = table.stems.constant)) ∨
      (entry.1 = .relations ∧ ∃ table ∈ schema.tables, table.relationships ≠ [] ∧
        entry.2 = table.stems.constant ++ "Relations") := by
  have onlyOwned : schema.exportEntries settings .storage = schema.ownedEntries .storage := by
    simp [exportEntries, sharedEntries]
  obtain ⟨role, name⟩ := entry
  rw [onlyOwned, mem_ownedEntries]
  constructor
  · rintro (⟨enumeration, member, owns, made⟩ | ⟨placed, member, owns, made⟩)
    · obtain rfl : role = .constant := List.mem_singleton.mp owns
      exact Or.inl ⟨rfl, Or.inl ⟨enumeration, member, made⟩⟩
    · have inTables := mem_tables_of_placed member
      rcases List.mem_cons.mp owns with constant | related
      · obtain rfl : role = .constant := constant
        exact Or.inl ⟨rfl, Or.inr ⟨placed.1, inTables, made⟩⟩
      · split at related
        · cases related
        · rename_i some
          obtain rfl : role = .relations := List.mem_singleton.mp related
          have declares : placed.1.relationships ≠ [] := by
            simpa [Table.resolved] using some
          exact Or.inr ⟨rfl, placed.1, inTables, declares, made⟩
  · rintro (⟨rfl, ⟨enumeration, member, made⟩ | ⟨table, member, made⟩⟩ |
      ⟨rfl, table, member, declares, made⟩)
    · exact Or.inl ⟨enumeration, member, List.mem_cons_self, made⟩
    · obtain ⟨others, placed⟩ := exists_placed_of_mem member
      exact Or.inr ⟨_, placed, List.mem_cons_self, made⟩
    · obtain ⟨others, placed⟩ := exists_placed_of_mem member
      refine Or.inr ⟨_, placed, ?_, made⟩
      simp [ResolvedTable.exportRoles, Table.resolved, declares]

section Clean

variable {schema : Schema} (clean : schema.collisions = []) (settings : Settings)
  (kind : ArtifactKind)
include clean

theorem pairwise_stems :
    (schema.exportOwners kind).Pairwise fun left right =>
      left.1.constant ≠ right.1.constant ∧
        Name.pascal left.1.shared ≠ Name.pascal right.1.shared := by
  have stems : (schema.exportOwners kind).map Prod.fst =
      schema.enumerations.map Enumeration.stems ++ schema.tables.map Table.stems := by
    rw [exportOwners, ← map_fst_tablesWithOthers]
    simp only [List.map_append, List.map_map, Function.comp_def]
  have constants : (((schema.exportOwners kind).map Prod.fst).map
      NameStems.constant).Nodup := by
    have claimed := nodup_claimed clean .storageConstant
    rw [claimed_storageConstant] at claimed
    rw [stems, List.map_append, List.map_map, List.map_map]
    exact claimed
  have types : (((schema.exportOwners kind).map Prod.fst).map fun stems =>
      Name.pascal stems.shared).Nodup := by
    have claimed := nodup_claimed clean .typeStem
    rw [claimed_typeStem] at claimed
    rw [stems, List.map_append, List.map_map, List.map_map]
    exact claimed
  rw [List.map_map] at constants types
  exact (List.pairwise_map.mp constants).and (List.pairwise_map.mp types)

/-- No role gives the same name twice. -/
theorem nodup_exportEntries : (schema.exportEntries settings kind).Nodup := by
  have owned : (schema.ownedEntries kind).Nodup := by
    rw [ownedEntries, List.nodup_flatMap]
    constructor
    · intro owner member
      have roles : owner.2.Nodup := by
        rcases List.mem_append.mp member with inEnums | inTables
        · obtain ⟨enumeration, _, rfl⟩ := List.mem_map.mp inEnums
          exact Enumeration.nodup_exportRoles kind
        · obtain ⟨placed, _, rfl⟩ := List.mem_map.mp inTables
          exact placed.1.nodup_exportRoles placed.2 schema kind
      exact roles.map fun left right same => (Prod.mk.inj same).1
    · refine (pairwise_stems clean kind).imp_of_mem ?_
      intro left right inLeft inRight apart entry fromLeft fromRight
      have notShared : entry.1 ≠ .option :=
        role_ne_option (List.mem_flatMap.mpr ⟨left, inLeft, fromLeft⟩)
      obtain ⟨role, _, rfl⟩ := List.mem_map.mp fromLeft
      obtain ⟨other, _, same⟩ := List.mem_map.mp fromRight
      obtain ⟨rfl, names⟩ := Prod.mk.inj same
      rcases ExportRole.stems_of_nameOf notShared names with one | one
      · exact apart.1 one.symm
      · exact apart.2 one.symm
  unfold exportEntries sharedEntries
  split
  · exact List.nodup_nil
  · split
    · apply List.nodup_cons.mpr
      exact ⟨fun member => role_ne_option member rfl, owned⟩
    · exact owned

/-- A directory exports every name once exactly when no two roles meet in a name. -/
theorem nodup_exports_iff :
    ((Compilation.mk (schema.artifacts settings (schema.modules settings))).exportsOf
        kind).Nodup ↔
      ∀ first ∈ schema.exportEntries settings kind,
        ∀ second ∈ schema.exportEntries settings kind,
          first.2 = second.2 → first.1 = second.1 := by
  rw [(schema.exportsOf_perm settings kind).nodup_iff,
    List.nodup_map_iff_inj_on (nodup_exportEntries clean settings kind)]
  constructor
  · intro apart first inFirst second inSecond same
    exact congrArg Prod.fst (apart first inFirst second inSecond same)
  · intro apart first inFirst second inSecond same
    exact Prod.ext (apart first inFirst second inSecond same) same

theorem nodup_exports_seed :
    ((Compilation.mk (schema.artifacts settings (schema.modules settings))).exportsOf
        .seed).Nodup := by
  have oneRole : ∀ entry ∈ schema.exportEntries settings .seed, entry.1 = .seed := by
    intro entry member
    unfold exportEntries sharedEntries at member
    split at member
    · cases member
    · rcases mem_ownedEntries.mp member with ⟨_, _, owns, _⟩ | ⟨placed, _, owns, _⟩
      · cases owns
      · simp only [ResolvedTable.exportRoles] at owns
        split at owns
        · cases owns
        · exact List.mem_singleton.mp owns
  apply (nodup_exports_iff clean settings .seed).mpr
  intro first inFirst second inSecond _
  rw [oneRole first inFirst, oneRole second inSecond]

theorem nodup_exports_storage_iff :
    ((Compilation.mk (schema.artifacts settings (schema.modules settings))).exportsOf
        .storage).Nodup ↔
      ∀ table ∈ schema.tables, table.relationships ≠ [] → ∀ other ∈ schema.tables,
        (TableNames.ofTable other.name).tableConst ≠
          (TableNames.ofTable table.name).relationsConst := by
  -- The constants of enumerations never meet those of relations, for they end otherwise.
  have endings (enumeration : Enumeration) (table : Table) :
      enumeration.stems.constant ≠ table.stems.constant ++ "Relations" := by
    intro same
    have last := congrArg (fun text : String => text.toList.getLast?) same
    simp [Enumeration.stems, EnumNames.ofEnumeration, String.toList_append,
      List.getLast?_append] at last
  rw [nodup_exports_iff clean settings .storage]
  constructor
  · intro apart table member declares other otherMember same
    have roles := apart (.constant, other.stems.constant)
      ((mem_exportEntries_storage settings).mpr (Or.inl ⟨rfl, Or.inr ⟨other, otherMember, rfl⟩⟩))
      (.relations, table.stems.constant ++ "Relations")
      ((mem_exportEntries_storage settings).mpr (Or.inr ⟨rfl, table, member, declares, rfl⟩))
      same
    cases roles
  · intro apart first inFirst second inSecond same
    have never {constant relations : ExportRole × String}
        (isConstant : (∃ enumeration ∈ schema.enumerations,
            constant.2 = enumeration.stems.constant) ∨
          ∃ table ∈ schema.tables, constant.2 = table.stems.constant)
        (isRelations : ∃ table ∈ schema.tables, table.relationships ≠ [] ∧
          relations.2 = table.stems.constant ++ "Relations") :
        constant.2 ≠ relations.2 := by
      obtain ⟨table, member, declares, made⟩ := isRelations
      rw [made]
      rcases isConstant with ⟨enumeration, _, ofEnum⟩ | ⟨other, otherMember, ofTable⟩
      · rw [ofEnum]
        exact endings enumeration table
      · rw [ofTable]
        exact apart table member declares other otherMember
    rcases (mem_exportEntries_storage settings).mp inFirst with ⟨left, named⟩ | ⟨left, named⟩
    · rcases (mem_exportEntries_storage settings).mp inSecond with
        ⟨right, others⟩ | ⟨right, others⟩
      · rw [left, right]
      · exact absurd same (never named others)
    · rcases (mem_exportEntries_storage settings).mp inSecond with
        ⟨right, others⟩ | ⟨right, others⟩
      · exact absurd same.symm (never others named)
      · rw [left, right]

end Clean

/-- What the names exported by a compilation come to. -/
structure ExportsByRole (schema : Schema) (settings : Settings) (compilation : Compilation) :
    Prop where
  /-- Every exported name has a role, and every role exports its name. -/
  perm : ∀ kind, (compilation.exportsOf kind).Perm
    ((schema.exportEntries settings kind).map Prod.snd)
  /-- A name is exported twice exactly when two roles meet in it. -/
  repeats_iff : ∀ kind, ¬(compilation.exportsOf kind).Nodup ↔
    ∃ first ∈ schema.exportEntries settings kind,
      ∃ second ∈ schema.exportEntries settings kind,
        first.1 ≠ second.1 ∧ first.2 = second.2
  /-- Among storage definitions, only the constant of a table can meet that of relations. -/
  storage_iff : (compilation.exportsOf .storage).Nodup ↔
    ∀ table ∈ schema.tables, table.relationships ≠ [] → ∀ other ∈ schema.tables,
      (TableNames.ofTable other.name).tableConst ≠
        (TableNames.ofTable table.name).relationsConst
  seeds : (compilation.exportsOf .seed).Nodup

theorem exports_by_role {schema : Schema} {settings : Settings} {compilation : Compilation}
    (compiled : schema.compile settings = .ok compilation) :
    schema.ExportsByRole settings compilation := by
  obtain ⟨_, clean, _, rfl⟩ := compile_eq_ok_iff.mp compiled
  constructor
  · exact schema.exportsOf_perm settings
  · intro kind
    rw [nodup_exports_iff clean settings kind]
    push Not
    simp only [and_comm, ne_eq]
  · exact nodup_exports_storage_iff clean settings
  · exact nodup_exports_seed clean settings

/-- A table without anything but a number. -/
def numbered (name : String) : Source :=
  ⟨name ++ ".json",
    "\x7b\"name\":\"" ++ name ++ "\",\"columns\":\x7b\"id\":\x7b\"type\":\"serial\"\x7d\x7d\x7d"⟩

/-- Users, and a table whose rows are called as new users are. -/
def usersAndNewUsers : Schema where
  enumerations := []
  tables :=
    [{ Table.plain "users" with columns := [.plain "id" .autoIncrement] },
      { Table.plain "new_users" with columns := [.plain "id" .autoIncrement] }]

theorem compile_usersAndNewUsers :
    usersAndNewUsers.compile .usual =
      .ok ⟨usersAndNewUsers.artifacts .usual (usersAndNewUsers.modules .usual)⟩ :=
  compile_of_faultless .usual (by decide) (by decide)

theorem exports_by_role_of_users : ∃ compilation,
    usersAndNewUsers.compile .usual = .ok compilation ∧
      usersAndNewUsers.ExportsByRole .usual compilation :=
  ⟨_, compile_usersAndNewUsers, exports_by_role compile_usersAndNewUsers⟩

/-- The type of a new user is the type of a row of the other table. -/
theorem exports_may_repeat :
    ¬∀ (layout : DescriptorLayout) (enums tables : List Source) (schema : Schema)
        (settings : Settings) (compilation : Compilation) (kind : ArtifactKind),
      load layout enums tables = .ok schema → schema.compile settings = .ok compilation →
        (compilation.exportsOf kind).Nodup := by
  intro unambiguous
  have loaded : load .usual [] [numbered "users", numbered "new_users"] =
      .ok usersAndNewUsers := by cbv
  have distinct := unambiguous _ _ _ _ _ _ .validation loaded compile_usersAndNewUsers
  have clean : usersAndNewUsers.collisions = [] := by decide
  have apart := (nodup_exports_iff clean .usual .validation).mp distinct
  have roles := apart (.insertType, "NewUser") (by decide) (.type, "NewUser") (by decide) rfl
  cases roles

end Schema
end SchemaCompiler
