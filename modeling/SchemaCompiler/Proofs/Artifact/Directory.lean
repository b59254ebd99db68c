import SchemaCompiler.Proofs.Artifact.Origin
import SchemaCompiler.Proofs.Schema.Collisions

/-
The artifacts of one kind.

They are the file of enumerations, the files of the tables that have one, in
order, and the index.  Where names do not collide, the stem of a table leads to
the file of that table alone: other tables have other stems, and the two files
that belong to no table have claimed theirs before all tables.
-/

namespace SchemaCompiler

open TypeScript (Module)

/-- The artifacts of a kind under the stem of a table. -/
def Compilation.filesOf (compilation : Compilation) (kind : ArtifactKind) (table : Table) :
    List Artifact :=
  (compilation.ofKind kind).filter fun artifact =>
    artifact.stem == (TableNames.ofTable table.name).stem

namespace Schema

/-- The file of enumerations of a kind. -/
def enumModule? (schema : Schema) (settings : Settings) : ArtifactKind → Option Module
  | .storage => some (EnumModule.storage settings schema.enumerations)
  | .validation => some (EnumModule.validation settings schema.enumerations)
  | .types => some (EnumModule.types settings schema.enumerations)
  | .seed => none

/-- Whether there are artifacts of a kind at all. -/
def isWritten (settings : Settings) (tables : List TableModules) : ArtifactKind → Bool
  | .seed => settings.emitSeeds && tables.any fun table => table.seed.isSome
  | _ => true

/-- The artifact of a kind for a table, if it has one. -/
def tableArtifact? (settings : Settings) (kind : ArtifactKind) (table : TableModules) :
    Option Artifact :=
  (table.ofKind? kind).map fun file => ⟨kind, settings.directory kind, table.stem, file⟩

theorem tableArtifacts_eq (settings : Settings) (kind : ArtifactKind)
    (tables : List TableModules) :
    tableArtifacts settings kind tables = tables.filterMap (tableArtifact? settings kind) ++
      [IndexModule.ofKind settings kind
        ((tables.filterMap (tableArtifact? settings kind)).map Artifact.stem)] :=
  rfl

theorem kind_of_mem_tableArtifacts {settings : Settings} {kind : ArtifactKind}
    {tables : List TableModules} {artifact : Artifact}
    (member : artifact ∈ tableArtifacts settings kind tables) : artifact.kind = kind := by
  rw [tableArtifacts_eq] at member
  rcases List.mem_append.mp member with inFiles | isIndex
  · obtain ⟨table, _, made⟩ := List.mem_filterMap.mp inFiles
    obtain ⟨file, _, rfl⟩ := Option.map_eq_some_iff.mp made
    rfl
  · rw [List.mem_singleton.mp isIndex]
    rfl

theorem filter_kind_tableArtifacts (settings : Settings) (kind wanted : ArtifactKind)
    (tables : List TableModules) :
    (tableArtifacts settings kind tables).filter (fun artifact => artifact.kind == wanted) =
      if kind = wanted then tableArtifacts settings kind tables else [] := by
  split
  case isTrue same =>
    apply List.filter_eq_self.mpr
    intro artifact member
    rw [kind_of_mem_tableArtifacts member, same, beq_self_eq_true]
  case isFalse different =>
    apply List.filter_eq_nil_iff.mpr
    intro artifact member found
    exact different ((kind_of_mem_tableArtifacts member).symm.trans (eq_of_beq found))

/-- The artifacts of a kind stand in one piece, the file of enumerations first. -/
theorem ofKind_artifacts (schema : Schema) (settings : Settings) (tables : List TableModules)
    (kind : ArtifactKind) :
    (Compilation.mk (schema.artifacts settings tables)).ofKind kind =
      if isWritten settings tables kind then
        ((schema.enumModule? settings kind).map (enumArtifact settings kind)).toList
          ++ tableArtifacts settings kind tables
      else [] := by
  simp only [Compilation.ofKind, artifacts, List.cons_append, List.append_assoc,
    List.filter_cons, List.filter_append, filter_kind_tableArtifacts, enumArtifact]
  have seeds : (if (settings.emitSeeds && tables.any fun table => table.seed.isSome) = true then
        tableArtifacts settings .seed tables else []).filter
          (fun artifact => artifact.kind == kind) =
      if kind = .seed ∧ isWritten settings tables .seed = true then
        tableArtifacts settings .seed tables else [] := by
    cases written : (settings.emitSeeds && tables.any fun table => table.seed.isSome) with
    | false =>
        simp only [isWritten, written, Bool.false_eq_true, if_false, and_false, List.filter_nil]
    | true =>
        simp only [isWritten, written, if_true, and_true, filter_kind_tableArtifacts, eq_comm]
  rw [seeds]
  cases kind <;> simp [isWritten, enumModule?, enumArtifact]

theorem mem_modules {schema : Schema} (settings : Settings) {table : Table}
    {others : List Table} (placed : (table, others) ∈ schema.tablesWithOthers) :
    TableModules.ofTable settings (table.resolved others schema) ∈ schema.modules settings :=
  List.mem_map.mpr ⟨_, placed, rfl⟩

/-- A table has a file of seed rows exactly when it has seed rows. -/
theorem isSome_seedArtifact (schema : Schema) (settings : Settings) (table : Table)
    (others : List Table) :
    (tableArtifact? settings .seed
      (.ofTable settings (table.resolved others schema))).isSome = true ↔ table.seed ≠ [] := by
  have written : (SeedModule.ofTable? settings (table.resolved others schema)).isSome = true ↔
      table.seed ≠ [] := by
    unfold SeedModule.ofTable?
    split
    case isTrue empty =>
      simp only [Table.resolved, List.isEmpty_map, List.isEmpty_iff] at empty
      simp only [Option.isSome_none, Bool.false_eq_true, empty, ne_eq, not_true_eq_false]
    case isFalse filled =>
      simp only [Table.resolved, List.isEmpty_map, List.isEmpty_iff] at filled
      simp only [Option.isSome_some, ne_eq, filled, not_false_eq_true]
  rw [← written]
  unfold tableArtifact?
  rw [Option.isSome_map]
  rfl

section Clean

variable {schema : Schema} (clean : schema.collisions = []) (settings : Settings)
  {table : Table} {others : List Table}
  (placed : (table, others) ∈ schema.tablesWithOthers) (kind : ArtifactKind)
include clean placed

/-- Among the files of tables, the stem of a table leads to its own. -/
theorem filter_stem_files :
    ((schema.modules settings).filterMap (tableArtifact? settings kind)).filter
        (fun artifact => artifact.stem == (TableNames.ofTable table.name).stem) =
      (tableArtifact? settings kind
        (.ofTable settings (table.resolved others schema))).toList := by
  have stems : (schema.modules settings).map TableModules.stem =
      schema.tables.map fun other => (TableNames.ofTable other.name).stem := by
    rw [← map_fst_tablesWithOthers, modules, List.map_map, List.map_map]
    rfl
  have distinct : ((schema.modules settings).map TableModules.stem).Nodup := by
    rw [stems]
    exact nodup_stems clean
  have byStem (other : TableModules) :
      (tableArtifact? settings kind other).filter
          (fun artifact => artifact.stem == (TableNames.ofTable table.name).stem) =
        if other.stem == (TableNames.ofTable table.name).stem then
          tableArtifact? settings kind other
        else none := by
    unfold tableArtifact?
    cases other.ofKind? kind with
    | none => simp only [Option.map_none, Option.filter_none, ite_self]
    | some file => simp only [Option.map_some, Option.filter_some]
  rw [List.filter_filterMap]
  simp only [byStem]
  rw [← List.filterMap_filter]
  have stem : (TableModules.ofTable settings (table.resolved others schema)).stem =
      (TableNames.ofTable table.name).stem := rfl
  have alone := filter_of_distinct distinct (mem_modules settings placed)
  rw [stem] at alone
  rw [alone]
  cases made : tableArtifact? settings kind
      (.ofTable settings (table.resolved others schema)) with
  | none => simp only [List.filterMap_cons, made, List.filterMap_nil, Option.toList_none]
  | some artifact =>
      simp only [List.filterMap_cons, made, List.filterMap_nil, Option.toList_some]

/-- The stem of a table leads to the file of that table and to nothing else. -/
theorem filesOf_artifacts :
    (Compilation.mk (schema.artifacts settings (schema.modules settings))).filesOf kind table =
      if kind = .seed ∧ settings.emitSeeds = false then []
      else
        (tableArtifact? settings kind
          (.ofTable settings (table.resolved others schema))).toList := by
  obtain ⟨notEnums, notIndex⟩ := stem_not_reserved clean (mem_tables_of_placed placed)
  have inDirectory : (((schema.enumModule? settings kind).map
        (enumArtifact settings kind)).toList ++
          tableArtifacts settings kind (schema.modules settings)).filter
        (fun artifact => artifact.stem == (TableNames.ofTable table.name).stem) =
      (tableArtifact? settings kind
        (.ofTable settings (table.resolved others schema))).toList := by
    have enums : ((schema.enumModule? settings kind).map
        (enumArtifact settings kind)).toList.filter
          (fun artifact => artifact.stem == (TableNames.ofTable table.name).stem) = [] := by
      apply List.filter_eq_nil_iff.mpr
      intro artifact member found
      obtain ⟨file, _, rfl⟩ := Option.map_eq_some_iff.mp (Option.mem_toList.mp member)
      exact notEnums (eq_of_beq found).symm
    have index (stems : List String) :
        [IndexModule.ofKind settings kind stems].filter
          (fun artifact => artifact.stem == (TableNames.ofTable table.name).stem) = [] := by
      apply List.filter_eq_nil_iff.mpr
      intro artifact member found
      rw [List.mem_singleton.mp member] at found
      exact notIndex (eq_of_beq found).symm
    rw [tableArtifacts_eq, List.filter_append, List.filter_append, enums, index,
      filter_stem_files clean settings placed kind, List.nil_append, List.append_nil]
  rw [Compilation.filesOf, ofKind_artifacts]
  cases written : isWritten settings (schema.modules settings) kind with
  | true =>
      rw [if_pos rfl, inDirectory, if_neg]
      rintro ⟨rfl, silent⟩
      simp only [isWritten, silent, Bool.false_and, Bool.false_eq_true] at written
  | false =>
      -- Only seed rows may be left out, and then either on demand or for want of any.
      rw [if_neg Bool.false_ne_true, List.filter_nil]
      cases kind with
      | seed =>
          split
          case isTrue => rfl
          case isFalse wanted =>
            have emitted : settings.emitSeeds = true := by
              rw [← Bool.not_eq_false]
              intro silent
              exact wanted ⟨rfl, silent⟩
            simp only [isWritten, emitted, Bool.true_and, List.any_eq_false] at written
            have none := written _ (mem_modules settings placed)
            rw [Bool.not_eq_true, Option.isSome_eq_false_iff, Option.isNone_iff_eq_none] at none
            unfold tableArtifact?
            change [] = (Option.map _
              (TableModules.ofTable settings (table.resolved others schema)).seed).toList
            rw [none]
            rfl
      | _ => cases written

end Clean

end Schema
end SchemaCompiler
