import SchemaCompiler.Proofs.Artifact.Directory

/-
The layout of the output.

What a compilation writes, and in which order, can be said from the schema and the
settings alone.  In each directory the index comes last and exports the other files,
one a line, in the order in which they were written.
-/

namespace SchemaCompiler

/-- The kind of an artifact and its path. -/
def Artifact.place (artifact : Artifact) : ArtifactKind × String :=
  (artifact.kind, artifact.path)

/-- Whether a table has a file of a kind. -/
def Table.hasFile (kind : ArtifactKind) (table : Table) : Bool :=
  kind != .seed || !table.seed.isEmpty

namespace Schema

/-- The place of a file of a kind with a stem. -/
def place (settings : Settings) (kind : ArtifactKind) (stem : String) : ArtifactKind × String :=
  (kind, settings.directory kind ++ "/" ++ stem ++ ".ts")

/-- The places of the files of tables, and of the index after them. -/
def tablePlaces (settings : Settings) (kind : ArtifactKind) (tables : List Table) :
    List (ArtifactKind × String) :=
  (tables.map fun table => place settings kind (Name.singular table.name))
    ++ [place settings kind "index"]

/-- The tables that have seed rows. -/
def seeded (schema : Schema) : List Table :=
  schema.tables.filter fun table => !table.seed.isEmpty

/-- The places of all artifacts: three directories with enumerations and all tables, and
where they are wanted and there are any, seed rows. -/
def layout (schema : Schema) (settings : Settings) : List (ArtifactKind × String) :=
  ([ArtifactKind.storage, .validation, .types].flatMap fun kind =>
      place settings kind "enums" :: tablePlaces settings kind schema.tables)
    ++ if settings.emitSeeds = true ∧ schema.seeded ≠ [] then
        tablePlaces settings .seed schema.seeded
      else
        []

/-- What the index of some files says: it exports each of them, once and in order. -/
structure Indexes (settings : Settings) (kind : ArtifactKind) (index : Artifact)
    (files : List Artifact) : Prop where
  place : index.place = place settings kind "index"
  files_ne_nil : files ≠ []
  distinct : ((files ++ [index]).map Artifact.stem).Nodup
  text : index.content = TypeScript.Module.renderBanner settings.banner ++
    Text.concat (files.map fun file => "export * from './" ++ file.stem ++ "';\n")

/-- What is written, and where. -/
structure LaidOut (schema : Schema) (settings : Settings) (compilation : Compilation) :
    Prop where
  places : compilation.artifacts.map Artifact.place = schema.layout settings
  indexed (kind : ArtifactKind) : compilation.ofKind kind ≠ [] →
    ∃ files index, compilation.ofKind kind = files ++ [index] ∧
      Indexes settings kind index files

section Files

variable (schema : Schema) (settings : Settings) (kind : ArtifactKind)

/-- The files of the tables, of a kind. -/
def tableFiles : List Artifact :=
  (schema.modules settings).filterMap (tableArtifact? settings kind)

theorem place_of_tableFile {file : Artifact} (member : file ∈ schema.tableFiles settings kind) :
    file.place = place settings kind file.stem := by
  obtain ⟨table, _, made⟩ := List.mem_filterMap.mp member
  obtain ⟨module, _, rfl⟩ := Option.map_eq_some_iff.mp made
  rfl

theorem stem_of_tableArtifact? (table : Table) (others : List Table) :
    (tableArtifact? settings kind (.ofTable settings (table.resolved others schema))).map
        Artifact.stem =
      if table.hasFile kind then some (Name.singular table.name) else none := by
  cases kind with
  | seed =>
      cases made : tableArtifact? settings .seed
          (.ofTable settings (table.resolved others schema)) with
      | none =>
          have empty : table.seed = [] := by
            have written := isSome_seedArtifact schema settings table others
            simpa only [made, Option.isSome_none, Bool.false_eq_true, false_iff,
              Decidable.not_not] using written
          rw [Table.hasFile, empty]
          rfl
      | some file =>
          have filled : table.seed ≠ [] :=
            (isSome_seedArtifact schema settings table others).mp (by rw [made]; rfl)
          have holds : table.hasFile .seed = true := by
            simpa only [Table.hasFile, bne_self_eq_false, Bool.false_or, Bool.not_eq_true',
              List.isEmpty_eq_false_iff] using filled
          obtain ⟨module, _, rfl⟩ := Option.map_eq_some_iff.mp made
          rw [if_pos holds]
          rfl
  | _ => rfl

theorem stems_tableFiles : (schema.tableFiles settings kind).map Artifact.stem =
    (schema.tables.filter (Table.hasFile kind)).map fun table => Name.singular table.name := by
  calc
    _ = schema.tablesWithOthers.filterMap fun entry =>
          if entry.1.hasFile kind then some (Name.singular entry.1.name) else none := by
      rw [tableFiles, List.map_filterMap, modules, List.filterMap_map]
      exact List.filterMap_congr fun entry _ =>
        stem_of_tableArtifact? schema settings kind entry.1 entry.2
    _ = (schema.tablesWithOthers.map Prod.fst).filterMap fun table =>
          if table.hasFile kind then some (Name.singular table.name) else none := by
      rw [List.filterMap_map]
      rfl
    _ = _ := by
      rw [map_fst_tablesWithOthers, ← List.filterMap_eq_map, List.filterMap_filter]
      rfl

theorem places_tableArtifacts :
    (tableArtifacts settings kind (schema.modules settings)).map Artifact.place =
      tablePlaces settings kind (schema.tables.filter (Table.hasFile kind)) := by
  rw [tableArtifacts_eq, List.map_append, tablePlaces]
  congr 1
  calc
    _ = (schema.tableFiles settings kind).map fun file => place settings kind file.stem :=
      List.map_congr_left fun file member => place_of_tableFile schema settings kind member
    _ = ((schema.tableFiles settings kind).map Artifact.stem).map (place settings kind) := by
      rw [List.map_map]
      rfl
    _ = _ := by
      rw [stems_tableFiles, List.map_map]
      rfl

theorem seeds_written_iff : isWritten settings (schema.modules settings) .seed = true ↔
    settings.emitSeeds = true ∧ schema.seeded ≠ [] := by
  have some_seeds : (schema.modules settings).any (fun table => table.seed.isSome) = true ↔
      schema.tableFiles settings .seed ≠ [] := by
    simp only [tableFiles, tableArtifact?, TableModules.ofKind?, ne_eq,
      List.filterMap_eq_nil_iff, Option.map_eq_none_iff, List.any_eq_true,
      Option.isSome_iff_ne_none, not_forall, exists_prop]
  have stems := stems_tableFiles schema settings .seed
  rw [isWritten, Bool.and_eq_true, some_seeds, ne_eq, ← List.map_eq_nil_iff, stems,
    List.map_eq_nil_iff]
  rfl

theorem places_artifacts :
    (schema.artifacts settings (schema.modules settings)).map Artifact.place =
      schema.layout settings := by
  have everywhere (kind : ArtifactKind) (lasting : kind ≠ .seed) :
      schema.tables.filter (Table.hasFile kind) = schema.tables := by
    apply List.filter_eq_self.mpr
    intro table _
    rw [Table.hasFile, bne_iff_ne.mpr lasting, Bool.true_or]
  have seeds : ((if settings.emitSeeds &&
          (schema.modules settings).any (fun table => table.seed.isSome) then
        tableArtifacts settings .seed (schema.modules settings) else []).map Artifact.place) =
      if settings.emitSeeds = true ∧ schema.seeded ≠ [] then
        tablePlaces settings .seed schema.seeded else [] := by
    rw [apply_ite (List.map Artifact.place), places_tableArtifacts, List.map_nil]
    exact if_congr (seeds_written_iff schema settings) rfl rfl
  simp only [artifacts, layout, List.map_append, List.map_cons, seeds, places_tableArtifacts,
    everywhere .storage (by decide), everywhere .validation (by decide),
    everywhere .types (by decide), List.flatMap_cons, List.flatMap_nil, List.append_nil,
    List.cons_append, List.append_assoc]
  rfl

/-- The files of a kind other than the index. -/
def files : List Artifact :=
  ((schema.enumModule? settings kind).map (enumArtifact settings kind)).toList
    ++ schema.tableFiles settings kind

theorem stems_files : (schema.files settings kind).map Artifact.stem =
    IndexModule.stems kind ((schema.tableFiles settings kind).map Artifact.stem) := by
  rw [files, List.map_append]
  cases kind <;> rfl

theorem content_index (stems : List String) (filled : IndexModule.stems kind stems ≠ []) :
    (IndexModule.ofKind settings kind stems).content =
      TypeScript.Module.renderBanner settings.banner ++
        Text.concat ((IndexModule.stems kind stems).map fun stem =>
          "export * from './" ++ stem ++ "';\n") := by
  have line (stem : String) : (TypeScript.Statement.everything ("./" ++ stem)).render =
      "export * from './" ++ stem ++ "';\n" := by
    change "export * from '" ++ ("./" ++ stem) ++ "';\n" = _
    rw [← String.append_assoc]
    congr 2
  have listed : IndexModule.statements kind stems =
      (IndexModule.stems kind stems).map fun stem => .everything ("./" ++ stem) := by
    rw [IndexModule.statements, if_neg]
    rwa [List.isEmpty_iff]
  have noImports : TypeScript.Imports.render [] = "" := by decide
  rw [Artifact.content, IndexModule.ofKind, TypeScript.Module.render, listed, noImports,
    String.append_empty]
  simp only [List.map_cons, List.map_nil, Text.separated, TypeScript.Module.renderParagraph,
    List.map_map, Function.comp_def, line]

theorem files_ne_nil (written : isWritten settings (schema.modules settings) kind = true) :
    schema.files settings kind ≠ [] := by
  intro none
  have noStems := congrArg (List.map Artifact.stem) none
  rw [stems_files, stems_tableFiles] at noStems
  cases kind with
  | seed =>
      have filled := ((seeds_written_iff schema settings).mp written).2
      exact filled (List.map_eq_nil_iff.mp noStems)
  | _ => cases noStems

section Clean

variable (clean : schema.collisions = [])
include clean

theorem nodup_stems_of_kind :
    ((schema.files settings kind).map Artifact.stem ++ [indexStem]).Nodup := by
  have ofTables : (schema.tableFiles settings kind).map Artifact.stem =
      (schema.tables.filter (Table.hasFile kind)).map fun table =>
        (TableNames.ofTable table.name).stem :=
    stems_tableFiles schema settings kind
  have distinct : ((schema.tableFiles settings kind).map Artifact.stem).Nodup := by
    rw [ofTables]
    exact (List.filter_sublist.map _).nodup (nodup_stems clean)
  have unreserved : ∀ stem ∈ (schema.tableFiles settings kind).map Artifact.stem,
      stem ≠ enumsStem ∧ stem ≠ indexStem := by
    rw [ofTables]
    intro stem member
    obtain ⟨table, kept, rfl⟩ := List.mem_map.mp member
    exact stem_not_reserved clean (List.mem_filter.mp kept).1
  have noIndex : indexStem ∉ (schema.tableFiles settings kind).map Artifact.stem :=
    fun member => (unreserved indexStem member).2 rfl
  have noEnums : enumsStem ∉ (schema.tableFiles settings kind).map Artifact.stem :=
    fun member => (unreserved enumsStem member).1 rfl
  have reserved : indexStem ≠ enumsStem := by decide
  rw [stems_files, IndexModule.stems, List.nodup_append_comm, List.singleton_append]
  split
  · exact List.nodup_cons.mpr ⟨noIndex, distinct⟩
  · refine List.nodup_cons.mpr ⟨?_, List.nodup_cons.mpr ⟨noEnums, distinct⟩⟩
    intro member
    exact (List.mem_cons.mp member).elim reserved noIndex

theorem indexes_files (written : isWritten settings (schema.modules settings) kind = true) :
    Indexes settings kind
      (IndexModule.ofKind settings kind ((schema.tableFiles settings kind).map Artifact.stem))
      (schema.files settings kind) := by
  have filled := files_ne_nil schema settings kind written
  constructor
  · rfl
  · exact filled
  · rw [List.map_append]
    exact nodup_stems_of_kind schema settings kind clean
  · rw [content_index, ← stems_files, List.map_map]
    · rfl
    · rw [← stems_files]
      exact fun none => filled (List.map_eq_nil_iff.mp none)

end Clean

theorem ofKind_eq_files_append
    (written : isWritten settings (schema.modules settings) kind = true) :
    (Compilation.mk (schema.artifacts settings (schema.modules settings))).ofKind kind =
      schema.files settings kind ++ [IndexModule.ofKind settings kind
        ((schema.tableFiles settings kind).map Artifact.stem)] := by
  rw [ofKind_artifacts, if_pos written, tableArtifacts_eq, files, List.append_assoc]
  rfl

end Files

theorem compile_laid_out {schema : Schema} {settings : Settings} {compilation : Compilation}
    (compiled : schema.compile settings = .ok compilation) :
    schema.LaidOut settings compilation := by
  obtain ⟨_, clean, _, rfl⟩ := compile_eq_ok_iff.mp compiled
  constructor
  · exact places_artifacts schema settings
  · intro kind present
    rw [ofKind_artifacts] at present
    have written : isWritten settings (schema.modules settings) kind = true := by
      by_contra silent
      exact present (if_neg silent)
    exact ⟨schema.files settings kind, _, ofKind_eq_files_append schema settings kind written,
      indexes_files schema settings kind clean written⟩

/-- Plants with seed rows, pots without. -/
def garden : Schema where
  enumerations := [⟨"light", [.plain "sun", .plain "shade"], none⟩]
  tables :=
    [{ Table.plain "plants" with
        columns := [Column.plain "id" .autoIncrement, Column.plain "name" .shortText]
        seed := [[("name", .string "fern")]] },
      { Table.plain "pots" with columns := [Column.plain "id" .autoIncrement] }]

example : garden.layout .usual =
    [(.storage, "schema/enums.ts"), (.storage, "schema/plant.ts"), (.storage, "schema/pot.ts"),
      (.storage, "schema/index.ts"), (.validation, "validation/enums.ts"),
      (.validation, "validation/plant.ts"), (.validation, "validation/pot.ts"),
      (.validation, "validation/index.ts"), (.types, "types/enums.ts"),
      (.types, "types/plant.ts"), (.types, "types/pot.ts"), (.types, "types/index.ts"),
      (.seed, "seeds/plant.ts"), (.seed, "seeds/index.ts")] := by decide

theorem compile_laid_out_of_garden : ∃ compilation,
    garden.compile .usual = .ok compilation ∧ garden.LaidOut .usual compilation := by
  have compiled : garden.compile .usual =
      .ok ⟨garden.artifacts .usual (garden.modules .usual)⟩ :=
    compile_of_faultless .usual (by decide) (by decide)
  exact ⟨_, compiled, compile_laid_out compiled⟩

end Schema
end SchemaCompiler
