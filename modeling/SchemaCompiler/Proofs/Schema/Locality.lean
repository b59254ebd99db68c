import SchemaCompiler.Proofs.Artifact.Directory

/-
Locality of what is written for a table.

Two schemas with the same enumerations may surround a table with different tables.
Resolving it, these show in its incoming relations alone, which only its types are
written from; and of those relations the types show names and sources but not what
they refer to.  So a table keeps its storage definitions, validation schemas and seed
rows whatever stands around it, and its types as long as the same columns of the same
tables refer to it, in the same order.
-/

namespace SchemaCompiler

/-- Settings that differ at most in the number of workers and in whether seed rows
are written. -/
def Settings.WriteAlike (left right : Settings) : Prop :=
  ∃ workers emitSeeds, right = { left with workers := workers, emitSeeds := emitSeeds }

theorem Settings.WriteAlike.directory_eq {left right : Settings} (alike : left.WriteAlike right)
    (kind : ArtifactKind) : left.directory kind = right.directory kind := by
  obtain ⟨workers, emitSeeds, rfl⟩ := alike
  cases kind <;> rfl

theorem Settings.WriteAlike.ofTable_eq {left right : Settings} (alike : left.WriteAlike right)
    (table : ResolvedTable) : TableModules.ofTable left table = .ofTable right table := by
  obtain ⟨workers, emitSeeds, rfl⟩ := alike
  rfl

/-- A relation without the property that it refers to. -/
def ResolvedRelation.unlinked (relation : ResolvedRelation) : ResolvedRelation :=
  { relation with references := "" }

theorem TypesModule.ofTable_unlinked (settings : Settings) (table : ResolvedTable)
    (incoming : List ResolvedRelation) :
    ofTable settings { table with incoming := incoming.map ResolvedRelation.unlinked } =
      ofTable settings { table with incoming := incoming } := by
  have sameImports :
      imports settings { table with incoming := incoming.map ResolvedRelation.unlinked } =
        imports settings { table with incoming := incoming } := by
    simp only [imports, relations, List.flatMap_append, List.flatMap_map]
    rfl
  have sameInterface :
      withRelations { table with incoming := incoming.map ResolvedRelation.unlinked } =
        withRelations { table with incoming := incoming } := by
    simp only [withRelations, ResolvedTable.hasRelations, relations, List.map_append,
      List.map_map, List.isEmpty_map]
    rfl
  simp only [ofTable, relationTypes, sameImports, sameInterface]
  rfl

namespace Table

/-- The columns of other tables that refer to a table, in table and column order, each
under the name of its table. -/
def pointers (table : Table) (others : List Table) : List (String × String) :=
  others.flatMap fun source =>
    (source.columns.filter fun column =>
      column.reference.any fun reference => reference.table == table.name).map fun column =>
        (source.name, column.name)

theorem pointers_eq (table : Table) (others : List Table) :
    table.pointers others =
      (referencesTo table.name others).map fun entry => (entry.1, entry.2.1.name) := by
  rw [pointers, referencesTo, List.map_flatMap]
  apply List.flatMap_congr
  intro source _
  rw [references]
  induction source.columns with
  | nil => rfl
  | cons column rest ih =>
      rw [List.filter_cons, List.filterMap_cons]
      cases column.reference with
      | none => exact ih
      | some reference =>
          simp only [Option.any_some, Option.map_some, List.filter_cons]
          split
          · rw [List.map_cons, ih, List.map_cons, List.map_cons]
          · exact ih

/-- A reference to a table of which nothing is known but where it comes from. -/
def bareReference (target : String) (pointer : String × String) : String × Column × ForeignKey :=
  (pointer.1, .plain pointer.2 .integer, ⟨target, ForeignKey.usualColumn, .noAction⟩)

/-- An incoming relation takes its name from the source, the column and the table. -/
theorem incomingFrom_bare {target : String} (taken : List String)
    {entries : List (String × Column × ForeignKey)}
    (towards : ∀ entry ∈ entries, entry.2.2.table = target) :
    incomingFrom taken entries = incomingFrom taken
      ((entries.map fun entry => (entry.1, entry.2.1.name)).map (bareReference target)) := by
  induction entries generalizing taken with
  | nil => rfl
  | cons entry rest ih =>
      obtain ⟨source, column, reference⟩ := entry
      have here : reference.table = target := towards _ List.mem_cons_self
      have later := fun taken => ih taken fun entry member =>
        towards entry (List.mem_cons_of_mem _ member)
      have sameName : reference.relationName column.name =
          ForeignKey.relationName ⟨target, ForeignKey.usualColumn, .noAction⟩ column.name := by
        simp only [ForeignKey.relationName, here]
      simp only [incomingFrom, List.map_cons, bareReference, Column.plain, sameName, later]

theorem incoming_of_pointers {table : Table} {left right : List Table}
    (same : table.pointers left = table.pointers right) :
    table.incoming left = table.incoming right := by
  have known (others : List Table) : table.incoming others = incomingFrom
      (table.columnProperties ++ table.outgoing.map fun relation => Name.camel relation.name)
      ((table.pointers others).map (bareReference table.name)) := by
    rw [incoming, pointers_eq]
    apply incomingFrom_bare
    intro entry member
    obtain ⟨source, _, made⟩ := List.mem_flatMap.mp member
    obtain ⟨held, kept, rfl⟩ := List.mem_map.mp made
    exact eq_of_beq (List.mem_filter.mp kept).2
  rw [known, known, same]

theorem resolved_eq {left right : Schema} (same : left.enumerations = right.enumerations)
    (table : Table) (leftOthers rightOthers : List Table) :
    table.resolved leftOthers left =
      { table.resolved rightOthers right with
        incoming := (table.resolved leftOthers left).incoming } := by
  simp only [resolved, same]

theorem unlinked_resolveIncoming (tables : List Table) (relation : IncomingRelation) :
    (resolveIncoming tables relation).unlinked =
      ⟨relation.name, Name.camel relation.name, .many, .ofTable relation.sourceTable,
        Name.camel relation.sourceColumn, "", false⟩ :=
  rfl

end Table

/-- A successful compilation of a schema in which a table stands among others. -/
structure Table.Run (table : Table) where
  schema : Schema
  settings : Settings
  others : List Table
  placed : (table, others) ∈ schema.tablesWithOthers
  output : Compilation
  compiled : schema.compile settings = .ok output

def Table.Run.files {table : Table} (run : table.Run) (kind : ArtifactKind) : List Artifact :=
  run.output.filesOf kind table

namespace Schema

/-- Two runs that write the same for a table. -/
structure SameFiles {table : Table} (left right : table.Run) : Prop where
  storage : ∃ file, left.files .storage = [file] ∧ right.files .storage = [file]
  validation : ∃ file, left.files .validation = [file] ∧ right.files .validation = [file]
  /-- The table has a file of seed rows if it has any, and each run that writes seed
  rows writes that file. -/
  seed : ∃ file : Option Artifact, (file.isSome = true ↔ table.seed ≠ []) ∧
    (left.files .seed = if left.settings.emitSeeds then file.toList else []) ∧
    right.files .seed = if right.settings.emitSeeds then file.toList else []
  types : table.pointers left.others = table.pointers right.others →
    ∃ file, left.files .types = [file] ∧ right.files .types = [file]

section Runs

variable {left right : Schema} (sameEnums : left.enumerations = right.enumerations)
  {leftSettings rightSettings : Settings} (alike : leftSettings.WriteAlike rightSettings)
  (table : Table) (leftOthers rightOthers : List Table)
include sameEnums alike

theorem tableArtifact?_local {kind : ArtifactKind} (lasting : kind ≠ .types) :
    tableArtifact? leftSettings kind
        (.ofTable leftSettings (table.resolved leftOthers left)) =
      tableArtifact? rightSettings kind
        (.ofTable rightSettings (table.resolved rightOthers right)) := by
  rw [alike.ofTable_eq, Table.resolved_eq sameEnums table leftOthers rightOthers]
  unfold tableArtifact?
  rw [alike.directory_eq]
  cases kind with
  | types => exact absurd rfl lasting
  | _ => rfl

theorem tableArtifact?_types_local
    (same : table.pointers leftOthers = table.pointers rightOthers) :
    tableArtifact? leftSettings .types
        (.ofTable leftSettings (table.resolved leftOthers left)) =
      tableArtifact? rightSettings .types
        (.ofTable rightSettings (table.resolved rightOthers right)) := by
  have sameIncoming :
      (table.resolved leftOthers left).incoming.map ResolvedRelation.unlinked =
        (table.resolved rightOthers right).incoming.map ResolvedRelation.unlinked := by
    simp only [Table.resolved, List.map_map, Function.comp_def, Table.unlinked_resolveIncoming,
      Table.incoming_of_pointers same]
  have sameTypes : TypesModule.ofTable rightSettings (table.resolved leftOthers left) =
      TypesModule.ofTable rightSettings (table.resolved rightOthers right) := by
    rw [Table.resolved_eq sameEnums table leftOthers rightOthers,
      ← TypesModule.ofTable_unlinked, sameIncoming, TypesModule.ofTable_unlinked]
  rw [alike.ofTable_eq]
  unfold tableArtifact?
  rw [alike.directory_eq]
  simp only [TableModules.ofKind?, TableModules.ofTable, sameTypes, Option.map_some]
  rfl

end Runs

theorem files_eq {table : Table} (run : table.Run) (kind : ArtifactKind) :
    run.files kind = if kind = .seed ∧ run.settings.emitSeeds = false then []
      else
        (tableArtifact? run.settings kind
          (.ofTable run.settings (table.resolved run.others run.schema))).toList := by
  obtain ⟨_, clean, _, written⟩ := compile_eq_ok_iff.mp run.compiled
  rw [Table.Run.files, written]
  exact filesOf_artifacts clean run.settings run.placed kind

theorem files_local {table : Table} (left right : table.Run)
    (sameEnums : left.schema.enumerations = right.schema.enumerations)
    (alike : left.settings.WriteAlike right.settings) : SameFiles left right := by
  have same {kind : ArtifactKind} (lasting : kind ≠ .types) :=
    tableArtifact?_local sameEnums alike table left.others right.others lasting
  constructor
  · rw [files_eq, files_eq, same (by decide), if_neg (by simp), if_neg (by simp)]
    exact ⟨_, rfl, rfl⟩
  · rw [files_eq, files_eq, same (by decide), if_neg (by simp), if_neg (by simp)]
    exact ⟨_, rfl, rfl⟩
  · refine ⟨_, isSome_seedArtifact right.schema right.settings table right.others, ?_, ?_⟩
    · rw [files_eq, same (by decide)]
      cases left.settings.emitSeeds <;> simp
    · rw [files_eq]
      cases right.settings.emitSeeds <;> simp
  · intro samePointers
    rw [files_eq, files_eq,
      tableArtifact?_types_local sameEnums alike table left.others right.others samePointers,
      if_neg (by simp), if_neg (by simp)]
    exact ⟨_, rfl, rfl⟩

/-- Rooms of a hotel, with a seed row. -/
def rooms : Table :=
  { Table.plain "rooms" with
    columns :=
      [Column.plain "id" .autoIncrement, Column.plain "number" .shortText,
        Column.plain "state" (.named "room_state")]
    seed := [[("number", .string "101"), ("state", .string "free")]] }

def smallHotel : Schema where
  enumerations := [⟨"room_state", [.plain "free", .plain "taken"], none⟩]
  tables :=
    [rooms,
      { Table.plain "bookings" with
        columns :=
          [Column.plain "id" .autoIncrement,
            { Column.plain "room_id" .integer with
              reference := some ⟨"rooms", "id", .cascade⟩ }] }]

/-- The rooms after their bookings, which refer to guests as well and to rooms by
number. -/
def largeHotel : Schema where
  enumerations := smallHotel.enumerations
  tables :=
    [{ Table.plain "guests" with columns := [Column.plain "id" .autoIncrement] },
      { Table.plain "bookings" with
        columns :=
          [Column.plain "code" .autoIncrement,
            { Column.plain "guest_id" .integer with
              reference := some ⟨"guests", "id", .cascade⟩ },
            { Column.plain "room_id" .shortText with
              nullable := true
              reference := some ⟨"rooms", "number", .setNull⟩ }] },
      rooms]

theorem files_local_of_hotels : ∃ small large : rooms.Run,
    small.schema = smallHotel ∧ large.schema = largeHotel ∧
      rooms.pointers small.others = rooms.pointers large.others ∧ SameFiles small large := by
  have smallCompiled : smallHotel.compile .usual =
      .ok ⟨smallHotel.artifacts .usual (smallHotel.modules .usual)⟩ :=
    compile_of_faultless .usual (by decide) (by decide)
  have largeCompiled : largeHotel.compile (Settings.usual.withWorkers 1) =
      .ok ⟨largeHotel.artifacts (Settings.usual.withWorkers 1)
        (largeHotel.modules (Settings.usual.withWorkers 1))⟩ :=
    compile_of_faultless _ (by decide) (by decide)
  let small : rooms.Run :=
    { schema := smallHotel
      settings := .usual
      others := smallHotel.tables.tail
      placed := mem_tablesWithOthers.mpr ⟨[], _, rfl, rfl⟩
      output := _
      compiled := smallCompiled }
  let large : rooms.Run :=
    { schema := largeHotel
      settings := Settings.usual.withWorkers 1
      others := largeHotel.tables.take 2
      placed := mem_tablesWithOthers.mpr ⟨largeHotel.tables.take 2, [], rfl, rfl⟩
      output := _
      compiled := largeCompiled }
  have sameEnums : small.schema.enumerations = large.schema.enumerations := rfl
  have alike : small.settings.WriteAlike large.settings := ⟨1, true, rfl⟩
  have samePointers : rooms.pointers smallHotel.tables.tail =
      rooms.pointers (largeHotel.tables.take 2) := by decide
  exact ⟨small, large, rfl, rfl, samePointers, files_local small large sameEnums alike⟩

end Schema
end SchemaCompiler
