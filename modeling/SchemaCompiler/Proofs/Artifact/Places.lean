import SchemaCompiler.Proofs.Artifact.Layout
import SchemaCompiler.Proofs.Artifact.Specifier
import SchemaCompiler.Proofs.Name.Identifier
import SchemaCompiler.Proofs.Schema.Loading

/-
The files that artifacts are written to.

Paths that take the same steps lead to one file.  A stem is a single step, so two artifacts
share their file when they share the stem, and the place of their directories.  Those of one
kind have stems of their own.  Those of two kinds are kept apart by their directories alone,
and directories that differ as texts may be one place: then the later kind replaces the index
of the earlier one, and all other files that both have.
-/

namespace SchemaCompiler

/-- The file that an artifact is written to, by the steps that lead there. -/
def Artifact.file (artifact : Artifact) : List String :=
  Path.steps artifact.path

/-- The place of the directory of a kind, by the steps that lead there. -/
def Settings.site (settings : Settings) (kind : ArtifactKind) : List String :=
  Path.steps (settings.directory kind)

/-- Where artifacts are, and when none takes the file of another. -/
structure Compilation.Placed (settings : Settings) (compilation : Compilation) : Prop where
  file : ∀ artifact ∈ compilation.artifacts,
    artifact.file = settings.site artifact.kind ++ [artifact.stem ++ ".ts"]
  apart_within (kind : ArtifactKind) : ((compilation.ofKind kind).map Artifact.file).Nodup
  apart_iff : (compilation.artifacts.map Artifact.file).Nodup ↔
    ∀ left right, compilation.ofKind left ≠ [] → compilation.ofKind right ≠ [] →
      settings.site left = settings.site right → left = right
  apart_of_plain :
    (∀ kind, settings.site kind = Text.segments (settings.directory kind)) →
      (compilation.artifacts.map Artifact.file).Nodup

namespace Schema

section Files

variable {schema : Schema} {settings : Settings}

theorem directory_of_origin {artifact : Artifact} (origin : Origin schema settings artifact) :
    artifact.directory = settings.directory artifact.kind := by
  cases origin <;> rfl

theorem no_slash_in_stem (admitted : ∀ table ∈ schema.tables, table.Admitted)
    {artifact : Artifact} (origin : Origin schema settings artifact) :
    '/' ∉ artifact.stem.toList := by
  cases origin with
  | storageEnums | validationEnums | typesEnums =>
      show '/' ∉ enumsStem.toList
      decide
  | index kind stems =>
      show '/' ∉ indexStem.toList
      decide
  | @table table others kind file placed written =>
      show '/' ∉ (Name.singular table.name).toList
      rcases (admitted table (mem_tables_of_placed placed)).empty_or_isIdentifier with
        empty | identifier
      · rw [empty]
        decide
      · intro member
        have inside := (Name.isIdentifier_iff.mp (Name.isIdentifier_singular identifier)).2
        exact Name.not_slash_of_continuesIdentifier (inside _ member) rfl

theorem file_of_origin (admitted : ∀ table ∈ schema.tables, table.Admitted)
    {artifact : Artifact} (origin : Origin schema settings artifact) :
    artifact.file = settings.site artifact.kind ++ [artifact.stem ++ ".ts"] := by
  have whole : '/' ∉ (artifact.stem ++ ".ts").toList := by
    rw [String.toList_append, List.mem_append, not_or]
    exact ⟨no_slash_in_stem admitted origin, by decide⟩
  have long : 3 ≤ (artifact.stem ++ ".ts").length := by
    have ending : ".ts".length = 3 := by decide
    rw [String.length_append, ending]
    omega
  have step : Path.steps (artifact.stem ++ ".ts") = [artifact.stem ++ ".ts"] := by
    apply Path.steps_of_no_slash whole
    · intro empty
      rw [empty] at long
      exact absurd long (by decide)
    · intro dot
      rw [dot] at long
      exact absurd long (by decide)
  rw [Artifact.file, Artifact.path, directory_of_origin origin, String.append_assoc,
    Path.steps_append, step, Settings.site]

/-- Artifacts of one file agree in the place of their directories and in their stems. -/
theorem file_eq_iff (admitted : ∀ table ∈ schema.tables, table.Admitted) {left right : Artifact}
    (leftOrigin : Origin schema settings left) (rightOrigin : Origin schema settings right) :
    left.file = right.file ↔
      settings.site left.kind = settings.site right.kind ∧ left.stem = right.stem := by
  rw [file_of_origin admitted leftOrigin, file_of_origin admitted rightOrigin]
  constructor
  · intro same
    obtain ⟨site, name⟩ := List.append_inj' same rfl
    exact ⟨site, (String.append_left_inj ".ts").mp (List.singleton_inj.mp name)⟩
  · rintro ⟨site, stem⟩
    rw [site, stem]

section Compiled

variable {compilation : Compilation}
  (made : compilation = ⟨schema.artifacts settings (schema.modules settings)⟩)
include made

theorem origin_of_mem_compilation {artifact : Artifact}
    (member : artifact ∈ compilation.artifacts) : Origin schema settings artifact := by
  rw [made] at member
  exact origin_of_mem member

theorem exists_index {kind : ArtifactKind} (present : compilation.ofKind kind ≠ []) :
    ∃ index ∈ compilation.artifacts, index.kind = kind ∧ index.stem = indexStem := by
  have written : isWritten settings (schema.modules settings) kind = true := by
    rw [made, ofKind_artifacts] at present
    by_contra silent
    exact present (if_neg silent)
  have last : IndexModule.ofKind settings kind ((schema.tableFiles settings kind).map
      Artifact.stem) ∈ compilation.ofKind kind := by
    rw [made, ofKind_eq_files_append schema settings kind written]
    exact List.mem_append_right _ List.mem_cons_self
  exact ⟨_, (List.mem_filter.mp last).1, rfl, rfl⟩

theorem nodup_stems_ofKind (clean : schema.collisions = []) (kind : ArtifactKind) :
    ((compilation.ofKind kind).map Artifact.stem).Nodup := by
  by_cases written : isWritten settings (schema.modules settings) kind = true
  · rw [made, ofKind_eq_files_append schema settings kind written, List.map_append]
    exact nodup_stems_of_kind schema settings kind clean
  · rw [made, ofKind_artifacts, if_neg written]
    exact List.nodup_nil

theorem nodup_files_iff (admitted : ∀ table ∈ schema.tables, table.Admitted)
    (clean : schema.collisions = []) :
    (compilation.artifacts.map Artifact.file).Nodup ↔
      ∀ left right, compilation.ofKind left ≠ [] → compilation.ofKind right ≠ [] →
        settings.site left = settings.site right → left = right := by
  have sameFile {left right : Artifact} (inLeft : left ∈ compilation.artifacts)
      (inRight : right ∈ compilation.artifacts) :=
    file_eq_iff admitted (origin_of_mem_compilation made inLeft)
      (origin_of_mem_compilation made inRight)
  constructor
  · intro distinct left right presentLeft presentRight site
    -- Every kind that is written has an index, which two kinds at one place would share.
    obtain ⟨first, inFirst, rfl, firstStem⟩ := exists_index made presentLeft
    obtain ⟨second, inSecond, rfl, secondStem⟩ := exists_index made presentRight
    have same : first.file = second.file :=
      (sameFile inFirst inSecond).mpr ⟨site, firstStem.trans secondStem.symm⟩
    rw [List.inj_on_of_nodup_map distinct inFirst inSecond same]
  · intro apart
    have distinct : (compilation.artifacts.map fun artifact =>
        (artifact.kind, artifact.stem)).Nodup :=
      nodup_pairs_iff.mpr (nodup_stems_ofKind made clean)
    apply nodup_map_of_finer distinct
    intro left inLeft right inRight same
    obtain ⟨site, stem⟩ := (sameFile inLeft inRight).mp same
    have present {artifact : Artifact} (member : artifact ∈ compilation.artifacts) :
        compilation.ofKind artifact.kind ≠ [] :=
      List.ne_nil_of_mem (List.mem_filter.mpr ⟨member, beq_self_eq_true _⟩)
    exact Prod.ext (apart _ _ (present inLeft) (present inRight) site) stem

end Compiled

end Files

theorem compile_placed {text : String} {layout : DescriptorLayout} {enums tables : List Source}
    {settings : Settings} {schema : Schema} {compilation : Compilation}
    (accepted : Settings.read text = .ok settings)
    (loaded : load layout enums tables = .ok schema)
    (compiled : schema.compile settings = .ok compilation) :
    compilation.Placed settings := by
  have admitted := tables_admitted_of_load loaded
  obtain ⟨_, clean, _, made⟩ := compile_eq_ok_iff.mp compiled
  have apartIff := nodup_files_iff made admitted clean
  constructor
  · intro artifact member
    exact file_of_origin admitted (origin_of_mem_compilation made member)
  · intro kind
    apply nodup_map_of_finer (nodup_stems_ofKind made clean kind)
    intro left inLeft right inRight same
    have leftOrigin := origin_of_mem_compilation made (List.mem_filter.mp inLeft).1
    have rightOrigin := origin_of_mem_compilation made (List.mem_filter.mp inRight).1
    exact ((file_eq_iff admitted leftOrigin rightOrigin).mp same).2
  · exact apartIff
  · intro plain
    rw [apartIff]
    intro left right _ _ site
    rw [plain, plain] at site
    exact (Settings.checked_of_read accepted).apart (Text.segments_injective site)

theorem compile_placed_of_cats : ∃ compilation,
    Settings.read Settings.nestedTypes = .ok Settings.nestedSettings ∧
      load .usual [moods] [cats] = .ok catsAndMoods ∧
      catsAndMoods.compile Settings.nestedSettings = .ok compilation ∧
      compilation.Placed Settings.nestedSettings :=
  ⟨_, Settings.read_nestedTypes, load_cats, compile_cats _,
    compile_placed Settings.read_nestedTypes load_cats (compile_cats _)⟩

/-- With one more slash, types are accepted in the directory of storage definitions, and
replace them. -/
theorem files_may_be_overwritten :
    ¬∀ (text : String) (layout : DescriptorLayout) (enums tables : List Source)
      (settings : Settings) (schema : Schema) (compilation : Compilation),
      Settings.read text = .ok settings → load layout enums tables = .ok schema →
        schema.compile settings = .ok compilation →
          (compilation.artifacts.map Artifact.file).Nodup := by
  intro never
  let crowded : Settings := { Settings.usual with typesDirectory := "schema/" }
  have parsed : Json.Tree.read? "\x7b\"typesDir\":\"schema/\"\x7d" =
      some (.object [(some "typesDir", .scalar (.text (some "schema/")))]) := by cbv
  have accepted : Settings.read "\x7b\"typesDir\":\"schema/\"\x7d" = .ok crowded :=
    Settings.read_of_tree parsed rfl (by decide)
  have distinct := never _ _ _ _ _ _ _ accepted load_cats (compile_cats crowded)
  have apart := (nodup_files_iff rfl (tables_admitted_of_load load_cats) (by decide)).mp distinct
  have written (kind : ArtifactKind) (lasting : kind ≠ .seed) :
      (Compilation.mk (catsAndMoods.artifacts crowded (catsAndMoods.modules crowded))).ofKind
        kind ≠ [] := by
    rw [ofKind_artifacts]
    cases kind with
    | seed => exact absurd rfl lasting
    | _ => exact List.cons_ne_nil _ _
  have one := apart .storage .types (written _ (by decide)) (written _ (by decide)) (by decide)
  cases one

end Schema
end SchemaCompiler
