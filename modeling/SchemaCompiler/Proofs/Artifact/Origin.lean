import SchemaCompiler.Proofs.Schema.Outcome

/-
Where artifacts come from.

An artifact is a file of enumerations, a file of one table, or the index of a
directory.  A property of all artifacts is shown for each of these, and an
artifact that some file relies on is found among them.
-/

namespace SchemaCompiler
namespace Schema

/-- The origins of the artifacts of a schema. -/
inductive Origin (schema : Schema) (settings : Settings) : Artifact → Prop
  | storageEnums : Origin schema settings
      (enumArtifact settings .storage (EnumModule.storage settings schema.enumerations))
  | validationEnums : Origin schema settings
      (enumArtifact settings .validation (EnumModule.validation settings schema.enumerations))
  | typesEnums : Origin schema settings
      (enumArtifact settings .types (EnumModule.types settings schema.enumerations))
  | table {table : Table} {others : List Table} {kind : ArtifactKind}
      {file : TypeScript.Module} (placed : (table, others) ∈ schema.tablesWithOthers)
      (written : (TableModules.ofTable settings (table.resolved others schema)).ofKind? kind =
        some file) :
      Origin schema settings
        ⟨kind, settings.directory kind, (TableNames.ofTable table.name).stem, file⟩
  | index (kind : ArtifactKind) (stems : List String) :
      Origin schema settings (IndexModule.ofKind settings kind stems)

section Members

variable {schema : Schema} {settings : Settings}

theorem origin_of_mem_tableArtifacts {kind : ArtifactKind} {artifact : Artifact}
    (member : artifact ∈ tableArtifacts settings kind (schema.modules settings)) :
    Origin schema settings artifact := by
  unfold tableArtifacts at member
  rcases List.mem_append.mp member with inFiles | isIndex
  · obtain ⟨modules, inModules, made⟩ := List.mem_filterMap.mp inFiles
    obtain ⟨entry, placed, rfl⟩ := List.mem_map.mp inModules
    obtain ⟨file, written, rfl⟩ := Option.map_eq_some_iff.mp made
    exact .table placed written
  · rw [List.mem_singleton.mp isIndex]
    exact .index kind _

theorem origin_of_mem {artifact : Artifact}
    (member : artifact ∈ schema.artifacts settings (schema.modules settings)) :
    Origin schema settings artifact := by
  simp only [artifacts, List.cons_append, List.append_assoc, List.mem_cons, List.mem_append]
    at member
  rcases member with rfl | inStorage | rfl | inValidation | rfl | inTypes | inSeeds
  · exact .storageEnums
  · exact origin_of_mem_tableArtifacts inStorage
  · exact .validationEnums
  · exact origin_of_mem_tableArtifacts inValidation
  · exact .typesEnums
  · exact origin_of_mem_tableArtifacts inTypes
  · split at inSeeds
    · exact origin_of_mem_tableArtifacts inSeeds
    · cases inSeeds

theorem mem_tableArtifacts {table : Table} {others : List Table} {kind : ArtifactKind}
    {file : TypeScript.Module} (placed : (table, others) ∈ schema.tablesWithOthers)
    (written : (TableModules.ofTable settings (table.resolved others schema)).ofKind? kind =
      some file) :
    (⟨kind, settings.directory kind, (TableNames.ofTable table.name).stem, file⟩ : Artifact) ∈
      tableArtifacts settings kind (schema.modules settings) := by
  apply List.mem_append_left
  refine List.mem_filterMap.mpr ⟨_, List.mem_map_of_mem placed, ?_⟩
  rw [written]
  rfl

theorem storageEnums_mem :
    enumArtifact settings .storage (EnumModule.storage settings schema.enumerations) ∈
      schema.artifacts settings (schema.modules settings) := by
  simp only [artifacts, List.cons_append, List.mem_cons, true_or]

theorem validationEnums_mem :
    enumArtifact settings .validation (EnumModule.validation settings schema.enumerations) ∈
      schema.artifacts settings (schema.modules settings) := by
  simp only [artifacts, List.cons_append, List.append_assoc, List.mem_cons, List.mem_append,
    true_or, or_true]

theorem mem_artifacts_of_lasting {kind : ArtifactKind} (lasting : kind ≠ .seed)
    {artifact : Artifact}
    (member : artifact ∈ tableArtifacts settings kind (schema.modules settings)) :
    artifact ∈ schema.artifacts settings (schema.modules settings) := by
  simp only [artifacts, List.cons_append, List.append_assoc, List.mem_cons, List.mem_append]
  cases kind with
  | storage => exact .inr (.inl member)
  | validation => exact .inr (.inr (.inr (.inl member)))
  | types => exact .inr (.inr (.inr (.inr (.inr (.inl member)))))
  | seed => exact absurd rfl lasting

/-- Each table has its file of every kind but that of seed rows. -/
theorem table_mem {table : Table} {others : List Table} {kind : ArtifactKind}
    (lasting : kind ≠ .seed) {file : TypeScript.Module}
    (placed : (table, others) ∈ schema.tablesWithOthers)
    (written : (TableModules.ofTable settings (table.resolved others schema)).ofKind? kind =
      some file) :
    (⟨kind, settings.directory kind, (TableNames.ofTable table.name).stem, file⟩ : Artifact) ∈
      schema.artifacts settings (schema.modules settings) :=
  mem_artifacts_of_lasting lasting (mem_tableArtifacts placed written)

end Members

end Schema
end SchemaCompiler
