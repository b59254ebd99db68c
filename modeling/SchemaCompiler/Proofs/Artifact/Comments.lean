import SchemaCompiler.Proofs.Artifact.Origin
import SchemaCompiler.Proofs.TypeScript.Comments

/-
Comments in artifacts.

Two texts that a schema or its settings give come to stand in comments: the banner of all
files, and the descriptions of enumerations in the three files of these.
-/

namespace SchemaCompiler

open TypeScript (Module Statement afterComment? bannerComment closingMark commented lineMark
  sourceLines StaysComment)

namespace TypeScript

theorem infix_concat {pieces : List String} {piece : String} (member : piece ∈ pieces) :
    piece.toList <:+: (Text.concat pieces).toList := by
  induction pieces with
  | nil => cases member
  | cons first rest ih =>
      rw [Text.concat, String.toList_append]
      rcases List.mem_cons.mp member with rfl | later
      · exact (List.prefix_append _ _).isInfix
      · exact (ih later).trans (List.suffix_append _ _).isInfix

theorem infix_separated (separator : String) {pieces : List String} {piece : String}
    (member : piece ∈ pieces) :
    piece.toList <:+: (Text.separated separator pieces).toList := by
  induction pieces with
  | nil => cases member
  | cons first rest ih =>
      cases rest with
      | nil =>
          rw [List.mem_singleton.mp member]
          exact List.infix_rfl
      | cons second rest =>
          rw [Text.separated, String.toList_append, String.toList_append]
          · rcases List.mem_cons.mp member with rfl | later
            · rw [List.append_assoc]
              exact (List.prefix_append _ _).isInfix
            · exact (ih later).trans (List.suffix_append _ _).isInfix
          · exact List.cons_ne_nil _ _

theorem Statement.exists_toList_render (text name : String) (type : Option String) (value : Expr) :
    ∃ more, (constant (some text) name type value).render.toList =
      '/' :: '*' :: (commented text ++ closingMark ++ more) := by
  let declaration := "export const " ++ (name ++ ((type.elim "" fun written => ": " ++ written)
    ++ (" = " ++ (value.render 0 ++ ";\n"))))
  have parts : (constant (some text) name type value).render =
      documentationComment text ++ declaration := by
    simp only [declaration, ← String.append_assoc]
    rfl
  refine ⟨'\n' :: declaration.toList, ?_⟩
  rw [parts, String.toList_append, toList_documentationComment]
  simp only [List.cons_append, List.append_assoc, List.nil_append]

theorem Module.infix_render {file : Module} {statement : Statement}
    (member : statement ∈ file.paragraphs.flatten) :
    statement.render.toList <:+: file.render.toList := by
  obtain ⟨paragraph, inFile, inParagraph⟩ := List.mem_flatten.mp member
  have inText : statement.render.toList <:+: (renderParagraph paragraph).toList :=
    infix_concat (List.mem_map_of_mem inParagraph)
  have inBody := infix_separated "\n" (List.mem_map_of_mem (f := renderParagraph) inFile)
  rw [render, String.toList_append]
  exact (inText.trans inBody).trans (List.suffix_append _ _).isInfix

end TypeScript

namespace Schema

variable {schema : Schema} {settings : Settings}

theorem banner_of_origin {artifact : Artifact} (origin : Origin schema settings artifact) :
    artifact.module.banner = settings.banner := by
  cases origin with
  | storageEnums => rfl
  | validationEnums => rfl
  | typesEnums => rfl
  | @table _ _ kind _ placed written =>
      cases kind with
      | storage => cases written; rfl
      | validation => cases written; rfl
      | types => cases written; rfl
      | seed =>
          simp only [TableModules.ofKind?, TableModules.ofTable, SeedModule.ofTable?] at written
          split at written
          · cases written
          · cases written
            rfl
  | index kind stems => rfl

/-- Every file starts with the banner. -/
theorem content_of_origin {artifact : Artifact} (origin : Origin schema settings artifact) :
    ∃ rest, artifact.content = bannerComment settings.banner ++ rest := by
  rw [Artifact.content, Module.render, banner_of_origin origin, TypeScript.renderBanner_eq,
    String.append_assoc, String.append_assoc]
  exact ⟨_, rfl⟩

/-- The files that document enumerations. -/
def enumFile (settings : Settings) (enumerations : List Enumeration) : ArtifactKind → Module
  | .storage => EnumModule.storage settings enumerations
  | .validation => EnumModule.validation settings enumerations
  | .types | .seed => EnumModule.types settings enumerations

theorem enumFile_mem {kind : ArtifactKind} (lasting : kind ≠ .seed) :
    enumArtifact settings kind (enumFile settings schema.enumerations kind) ∈
      schema.artifacts settings (schema.modules settings) := by
  cases kind with
  | storage => exact storageEnums_mem
  | validation => exact validationEnums_mem
  | types =>
      simp only [artifacts, List.cons_append, List.append_assoc, List.mem_cons, List.mem_append,
        enumFile, true_or, or_true]
  | seed => exact absurd rfl lasting

theorem paragraphs_file {imports : List TypeScript.Import} {paragraphs : List (List Statement)}
    (some : paragraphs ≠ []) :
    (EnumModule.file settings imports paragraphs).paragraphs = paragraphs := by
  rw [EnumModule.file, List.isEmpty_eq_false_iff.mpr some]
  rfl

theorem documented_mem (settings : Settings) (kind : ArtifactKind) {enumeration : Enumeration}
    (member : enumeration ∈ schema.enumerations) : ∃ name type value,
      .constant (EnumModule.documentation enumeration) name type value ∈
        (enumFile settings schema.enumerations kind).paragraphs.flatten := by
  have some : schema.enumerations ≠ [] := List.ne_nil_of_mem member
  have inOptions : ∃ name type value,
      .constant (EnumModule.documentation enumeration) name type value ∈
        (EnumModule.types settings schema.enumerations).paragraphs.flatten := by
    rw [EnumModule.types, List.isEmpty_eq_false_iff.mpr some]
    refine ⟨_, _, _, List.mem_flatten.mpr ⟨[EnumModule.optionsConstant enumeration], ?_,
      List.mem_singleton.mpr rfl⟩⟩
    exact List.mem_cons_of_mem _ (List.mem_cons_of_mem _ (List.mem_map_of_mem member))
  cases kind with
  | storage =>
      refine ⟨_, _, _, List.mem_flatten.mpr ⟨[EnumModule.storageConstant enumeration], ?_,
        List.mem_singleton.mpr rfl⟩⟩
      rw [enumFile, EnumModule.storage, paragraphs_file (by simpa using some)]
      exact List.mem_map_of_mem member
  | validation =>
      refine ⟨_, _, _, List.mem_flatten.mpr ⟨EnumModule.schemaStatements enumeration, ?_,
        List.mem_cons_self⟩⟩
      rw [enumFile, EnumModule.validation, paragraphs_file (by simpa using some)]
      exact List.mem_map_of_mem member
  | types => exact inOptions
  | seed => exact inOptions

/-- Where the description of an enumeration stands in a file of enumerations. -/
theorem exists_description (settings : Settings) (kind : ArtifactKind) {enumeration : Enumeration}
    (member : enumeration ∈ schema.enumerations) {description : String}
    (described : enumeration.description = some description) :
    ∃ before after, (enumFile settings schema.enumerations kind).render.toList =
      before ++ '/' :: '*' :: (commented (Text.trim description) ++ closingMark ++ after) := by
  obtain ⟨name, type, value, documented⟩ := documented_mem settings kind member
  rw [EnumModule.documentation, described] at documented
  obtain ⟨before, after, split⟩ := Module.infix_render documented
  obtain ⟨more, rendered⟩ := Statement.exists_toList_render (Text.trim description) name type value
  refine ⟨before, more ++ after, ?_⟩
  rw [← split, Option.map_some, rendered]
  simp only [List.cons_append, List.append_assoc]

/-- What becomes of the texts that are written as comments. -/
structure CommentsRead (schema : Schema) (settings : Settings) (compilation : Compilation) :
    Prop where
  banner_first : ∀ artifact ∈ compilation.artifacts, ∃ rest,
    artifact.content = bannerComment settings.banner ++ rest ∧
      sourceLines artifact.content.toList =
        sourceLines (bannerComment settings.banner).toList ++ sourceLines rest.toList
  banner_marked_iff :
    (∀ line ∈ sourceLines (bannerComment settings.banner).toList, lineMark <+: line) ↔
      ∀ line ∈ Text.lines settings.banner, StaysComment line.toList
  description_closed_iff : ∀ kind ≠ ArtifactKind.seed, ∀ enumeration ∈ schema.enumerations,
    ∀ description, enumeration.description = some description →
      ∃ artifact ∈ compilation.artifacts, artifact.kind = kind ∧ artifact.stem = enumsStem ∧
        ∃ before after, artifact.content.toList = before ++ '/' :: '*' ::
            (commented (Text.trim description) ++ closingMark ++ after) ∧
          (afterComment? (commented (Text.trim description) ++ closingMark ++ after) =
              some after ↔
            ¬closingMark <:+: description.toList)

/-- In every compilation, the lines of the banner are comments exactly when nothing but a
carriage return at the very end ends a line inside one of them without the mark of a comment
after it, and the description of an enumeration is a comment exactly when no closing mark is
in it. -/
theorem comments_read {compilation : Compilation}
    (compiled : schema.compile settings = .ok compilation) :
    CommentsRead schema settings compilation := by
  obtain ⟨_, _, _, rfl⟩ := compile_eq_ok_iff.mp compiled
  constructor
  · intro artifact member
    obtain ⟨rest, content⟩ := content_of_origin (origin_of_mem member)
    refine ⟨rest, content, ?_⟩
    rw [content, String.toList_append, TypeScript.sourceLines_bannerComment_append]
  · exact TypeScript.marked_bannerComment_iff settings.banner
  · intro kind lasting enumeration member description described
    refine ⟨_, enumFile_mem lasting, rfl, rfl, ?_⟩
    obtain ⟨before, after, split⟩ := exists_description settings kind member described
    refine ⟨before, after, split, ?_⟩
    rw [TypeScript.afterComment?_commented_iff, TypeScript.closingMark_infix_trim_iff]

/-- An enumeration whose description explains a glob pattern. -/
def globs : Schema where
  enumerations := [⟨"glob", [.plain "shallow", .plain "deep"], some "src/*/lib or src/**"⟩]
  tables := []

/-- Settings with a banner of which a part is set off by a line separator. -/
def parted : Settings :=
  Settings.usual.withBanner "Generated.\u2028Do not edit."

theorem compile_globs (settings : Settings) : globs.compile settings =
    .ok ⟨globs.artifacts settings (globs.modules settings)⟩ :=
  compile_of_faultless settings (by decide) (by decide)

theorem comments_read_globs : ∃ compilation,
    globs.compile parted = .ok compilation ∧ CommentsRead globs parted compilation :=
  ⟨_, compile_globs parted, comments_read (compile_globs parted)⟩

/-- The description of an enumeration may close its comment, and a line of the banner may be
read as two lines of which the second is no comment. -/
theorem comments_may_end_early :
    (¬∀ (schema : Schema) (settings : Settings) (compilation : Compilation),
      schema.compile settings = .ok compilation →
        ∀ artifact ∈ compilation.artifacts, ∀ rest,
          artifact.content = bannerComment settings.banner ++ rest →
            ∀ line ∈ sourceLines (bannerComment settings.banner).toList, lineMark <+: line) ∧
      ¬∀ (schema : Schema) (settings : Settings) (compilation : Compilation),
        schema.compile settings = .ok compilation →
          ∀ enumeration ∈ schema.enumerations, ∀ description,
            enumeration.description = some description →
              ∀ artifact ∈ compilation.artifacts, ∀ before after,
                artifact.content.toList = before ++ '/' :: '*' ::
                    (commented (Text.trim description) ++ closingMark ++ after) →
                  afterComment? (commented (Text.trim description) ++ closingMark ++ after) =
                    some after := by
  constructor
  · intro all
    have origin : Origin globs parted _ := .storageEnums
    obtain ⟨rest, content⟩ := content_of_origin origin
    have marked := all globs parted _ (compile_globs parted) _ storageEnums_mem rest content
    have broken : ∃ line ∈ sourceLines (bannerComment parted.banner).toList,
        ¬lineMark <+: line := by decide
    obtain ⟨line, member, bare⟩ := broken
    exact bare (marked line member)
  · intro all
    have member : globs.enumerations.head (List.cons_ne_nil _ _) ∈ globs.enumerations :=
      List.mem_cons_self
    obtain ⟨before, after, split⟩ := exists_description parted .storage member rfl
    have closed := all globs parted _ (compile_globs parted) _ member _ rfl _
      storageEnums_mem before after split
    rw [TypeScript.afterComment?_commented_iff] at closed
    exact closed (by decide)

end Schema
end SchemaCompiler
