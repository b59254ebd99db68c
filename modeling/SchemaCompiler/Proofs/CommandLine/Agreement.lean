import SchemaCompiler.CommandLine.Run
import SchemaCompiler.Proofs.Artifact.Places
import SchemaCompiler.Proofs.Json.Written
import SchemaCompiler.Proofs.Schema.Below

/-
What the commands tell of one compilation.

All commands compile first, and in the same way, so they fail together.  Afterwards each
shows a part of the same list of artifacts: how many there are, their paths, their paths with
kinds and sizes, or the content of one.  A path names one artifact only.  It ends in the stem,
which is a single step and belongs to one artifact of each kind, and what comes before tells
the kind, since settings are refused when two kinds have one directory.
-/

namespace SchemaCompiler

/-- What the JSON list says of an artifact. -/
structure ListEntry where
  path : String
  kind : String
  bytes : Nat
deriving DecidableEq, Repr

namespace ListEntry

def tree (entry : ListEntry) : Json.Tree :=
  .object
    [(some "path", .scalar (.text (some entry.path))),
      (some "kind", .scalar (.text (some entry.kind))),
      (some "bytes", .scalar (.number (.ofNat entry.bytes)))]

def tokens (entry : ListEntry) : List Json.Token :=
  [.mark .openObject,
    .scalar (.text (some "path")), .mark .colon, .scalar (.text (some entry.path)), .mark .comma,
    .scalar (.text (some "kind")), .mark .colon, .scalar (.text (some entry.kind)), .mark .comma,
    .scalar (.text (some "bytes")), .mark .colon, .scalar (.number (.ofNat entry.bytes)),
    .mark .closeObject]

/-- How many entries are of a kind. -/
def count (entries : List ListEntry) (kind : ArtifactKind) : Nat :=
  (entries.filter fun entry => entry.kind == kind.keyword).length

end ListEntry

def Artifact.entry (artifact : Artifact) : ListEntry :=
  ⟨artifact.path, artifact.kind.keyword, artifact.content.utf8ByteSize⟩

def Compilation.entries (compilation : Compilation) : List ListEntry :=
  compilation.artifacts.map Artifact.entry

namespace CommandLine

/-- The same arguments with another command. -/
def Arguments.withCommand (arguments : Arguments) (command : Command) : Arguments :=
  { arguments with command := command }

/-- The answers to the commands agree on a compilation. -/
structure Agrees (answer : Command → Except RunError String) (compilation : Compilation) :
    Prop where
  nodup_paths : (compilation.entries.map ListEntry.path).Nodup
  list : answer (.list false) =
    .ok (Text.concat (compilation.entries.map fun entry => entry.path ++ "\n"))
  json : ∃ text, answer (.list true) = .ok text ∧
    Json.Tree.read? text = some (.array (compilation.entries.map ListEntry.tree))
  print : ∀ artifact ∈ compilation.artifacts,
    answer (.print artifact.entry.path) = .ok artifact.content ∧
      artifact.entry.bytes = artifact.content.utf8ByteSize
  printed_iff (path : String) : (∃ content, answer (.print path) = .ok content) ↔
    path ∈ compilation.entries.map ListEntry.path
  unknown (path : String) : path ∉ compilation.entries.map ListEntry.path →
    answer (.print path) = .error (.unknownArtifact path)
  check : answer .check =
    .ok ("ok: " ++ Decimal.natText compilation.entries.length ++ " artifacts ("
      ++ Text.separated ", " (ArtifactKind.all.map fun kind =>
        Decimal.natText (ListEntry.count compilation.entries kind) ++ " " ++ kind.keyword)
      ++ ")\n")
  /-- The counts by kind leave no entry out. -/
  total : compilation.entries.length =
    (ArtifactKind.all.map (ListEntry.count compilation.entries)).sum

end CommandLine

/-! ### Paths -/

namespace Schema

section Paths

variable {schema : Schema} {settings : Settings}

theorem path_eq_iff (admitted : ∀ table ∈ schema.tables, table.Admitted) {left right : Artifact}
    (leftOrigin : Origin schema settings left) (rightOrigin : Origin schema settings right) :
    left.path = right.path ↔ left.directory = right.directory ∧ left.stem = right.stem := by
  constructor
  · intro same
    have pieces := congrArg Text.segments ((String.append_left_inj ".ts").mp same)
    rw [Text.segments_append, Text.segments_append,
      Text.segments_of_no_slash (no_slash_in_stem admitted leftOrigin),
      Text.segments_of_no_slash (no_slash_in_stem admitted rightOrigin)] at pieces
    obtain ⟨directory, stem⟩ := List.append_inj' pieces rfl
    exact ⟨Text.segments_injective directory, List.singleton_inj.mp stem⟩
  · intro same
    rw [Artifact.path, Artifact.path, same.1, same.2]

theorem nodup_paths_of_compile {layout : DescriptorLayout} {enums tables : List Source}
    {compilation : Compilation} (apart : Function.Injective settings.directory)
    (loaded : load layout enums tables = .ok schema)
    (compiled : schema.compile settings = .ok compilation) : compilation.paths.Nodup := by
  have admitted := tables_admitted_of_load loaded
  obtain ⟨_, clean, _, made⟩ := compile_eq_ok_iff.mp compiled
  have distinct : (compilation.artifacts.map fun artifact =>
      (artifact.kind, artifact.stem)).Nodup :=
    nodup_pairs_iff.mpr (nodup_stems_ofKind made clean)
  apply nodup_map_of_finer distinct
  intro left inLeft right inRight same
  have leftOrigin := origin_of_mem_compilation made inLeft
  have rightOrigin := origin_of_mem_compilation made inRight
  obtain ⟨directory, stem⟩ := (path_eq_iff admitted leftOrigin rightOrigin).mp same
  rw [directory_of_origin leftOrigin, directory_of_origin rightOrigin] at directory
  exact Prod.ext (apart directory) stem

end Paths

end Schema

/-! ### Settings and compilations of a run -/

namespace Settings

theorem directory_withWorkers (settings : Settings) (workers : Nat) :
    (settings.withWorkers workers).directory = settings.directory := by
  funext kind
  cases kind <;> rfl

theorem directory_withoutSeeds (settings : Settings) :
    settings.withoutSeeds.directory = settings.directory := by
  funext kind
  cases kind <;> rfl

end Settings

namespace CommandLine

namespace Arguments

variable {arguments : Arguments} {configText : Option String} {settings : Settings}

theorem injective_directory_of_baseSettings
    (accepted : arguments.baseSettings configText = .ok settings) :
    Function.Injective settings.directory := by
  unfold baseSettings at accepted
  split at accepted
  · cases accepted
    intro left right
    cases left <;> cases right <;> simp [Settings.directory, Settings.usual]
  · cases accepted
  · intro left right
    exact (Settings.checked_of_read accepted).apart

/-- Options change no directory. -/
theorem directory_of_settings (accepted : arguments.settings configText = .ok settings) :
    ∃ base, arguments.baseSettings configText = .ok base ∧
      settings.directory = base.directory := by
  simp only [Arguments.settings, bind_eq_ok_iff, pure_eq_ok_iff] at accepted
  obtain ⟨base, given, rfl⟩ := accepted
  refine ⟨base, given, ?_⟩
  split_ifs <;> simp only [Settings.directory_withoutSeeds, Settings.directory_withWorkers]

theorem nodup_paths_of_compile {enums tables : Option Directory} {compilation : Compilation}
    (compiled : arguments.compile configText enums tables = .ok compilation) :
    compilation.paths.Nodup := by
  simp only [Arguments.compile, Schema.compileBelow, bind_eq_ok_iff, mapError_eq_ok_iff]
    at compiled
  obtain ⟨settings, accepted, schema, below, made⟩ := compiled
  obtain ⟨base, given, directories⟩ := directory_of_settings accepted
  obtain ⟨_, _, loaded⟩ := Schema.exists_load_of_loadBelow below
  have apart := injective_directory_of_baseSettings given
  rw [← directories] at apart
  exact Schema.nodup_paths_of_compile apart loaded made

end Arguments

/-! ### The JSON list -/

theorem spells_jsonEntry (artifact : Artifact) : Json.Spells (jsonEntry artifact)
    artifact.entry.tokens := by
  have ending : "\n  \x7d" = "\n" ++ "  \x7d" := by decide
  have opening : Json.Spells "  \x7b\n    \"path\": "
    [.mark .openObject, .scalar (.text (some "path")), .mark .colon] := fun _ _ => rfl
  have kind : Json.Spells ",\n    \"kind\": "
    [.mark .comma, .scalar (.text (some "kind")), .mark .colon] := fun _ _ => rfl
  have bytes : Json.Spells ",\n    \"bytes\": "
    [.mark .comma, .scalar (.text (some "bytes")), .mark .colon] := fun _ _ => rfl
  have closing : Json.Spells "  \x7d" [.mark .closeObject] := fun _ _ => rfl
  have whole := ((((opening.append (Json.spells_quote artifact.path)).append kind).append
    (Json.spells_quote artifact.kind.keyword)).append bytes).append
    ((Json.spells_natText artifact.byteCount).append closing)
  unfold jsonEntry
  simp only [ending, String.append_assoc] at whole ⊢
  exact whole

theorem builds_tokens (entry : ListEntry) : Json.Builds entry.tokens entry.tree :=
  fun _ => rfl

theorem read?_jsonList (compilation : Compilation) :
    Json.Tree.read? (jsonList compilation) =
      some (.array (compilation.entries.map ListEntry.tree)) := by
  rw [Compilation.entries, List.map_map]
  refine Json.read?_of_spells ?_
    (Json.builds_array _ _ fun artifact _ => builds_tokens artifact.entry)
  unfold jsonList
  split
  · rename_i none
    rw [none]
    exact fun _ _ => rfl
  · have opening : Json.Spells "[\n" [.mark .openArray] := fun _ _ => rfl
    have comma : Json.Spells ",\n" [.mark .comma] := fun _ _ => rfl
    have closing : Json.Spells "\n]\n" [.mark .closeArray] := fun _ _ => rfl
    have items : Json.Spells (Text.separated ",\n" (compilation.artifacts.map jsonEntry)) _ :=
      Json.spells_separated comma jsonEntry _ fun artifact _ => spells_jsonEntry artifact
    exact (opening.append items).append closing

/-! ### The answers -/

theorem keyword_beq (left right : ArtifactKind) :
    (left.keyword == right.keyword) = (left == right) := by
  cases left <;> cases right <;> decide

theorem count_entries (compilation : Compilation) (kind : ArtifactKind) :
    ListEntry.count compilation.entries kind = (compilation.ofKind kind).length := by
  rw [ListEntry.count, Compilation.entries, List.filter_map, List.length_map,
    Compilation.ofKind]
  congr 1
  apply List.filter_congr
  intro artifact _
  exact keyword_beq artifact.kind kind

theorem count_cons (entry : ListEntry) (entries : List ListEntry) (kind : ArtifactKind) :
    ListEntry.count (entry :: entries) kind =
      ListEntry.count entries kind + if entry.kind = kind.keyword then 1 else 0 := by
  rw [ListEntry.count, List.filter_cons]
  by_cases same : entry.kind = kind.keyword
  · rw [if_pos (beq_iff_eq.mpr same), if_pos same]
    rfl
  · rw [if_neg (mt beq_iff_eq.mp same), if_neg same]
    rfl

theorem length_eq_sum_count (artifacts : List Artifact) :
    (artifacts.map Artifact.entry).length =
      (ArtifactKind.all.map (ListEntry.count (artifacts.map Artifact.entry))).sum := by
  induction artifacts with
  | nil => rfl
  | cons artifact rest ih =>
      rw [List.map_cons, List.length_cons, ih]
      simp only [ArtifactKind.all, List.map_cons, List.map_nil, List.sum_cons, List.sum_nil,
        count_cons, Artifact.entry]
      cases artifact.kind <;> simp [ArtifactKind.keyword] <;> omega

section Answers

variable {compilation : Compilation}

theorem map_path_entries : compilation.entries.map ListEntry.path = compilation.paths := by
  rw [Compilation.entries, List.map_map]
  rfl

theorem answer_print_of_mem (distinct : compilation.paths.Nodup) {artifact : Artifact}
    (member : artifact ∈ compilation.artifacts) :
    answer compilation (.print artifact.path) = .ok artifact.content := by
  rw [answer, Compilation.artifact?, find?_of_distinct distinct member]

theorem answer_print_of_not_mem {path : String} (absent : path ∉ compilation.paths) :
    answer compilation (.print path) = .error (.unknownArtifact path) := by
  have none : compilation.artifact? path = none := by
    apply List.find?_eq_none.mpr
    intro artifact member same
    exact absent (List.mem_map.mpr ⟨artifact, member, eq_of_beq same⟩)
  rw [answer, none]

theorem printed_iff (distinct : compilation.paths.Nodup) (path : String) :
    (∃ content, answer compilation (.print path) = .ok content) ↔ path ∈ compilation.paths := by
  constructor
  · intro printed
    obtain ⟨content, answered⟩ := printed
    by_contra absent
    rw [answer_print_of_not_mem absent] at answered
    cases answered
  · intro listed
    obtain ⟨artifact, member, rfl⟩ := List.mem_map.mp listed
    exact ⟨artifact.content, answer_print_of_mem distinct member⟩

theorem agrees_answer (distinct : compilation.paths.Nodup) :
    Agrees (answer compilation) compilation := by
  constructor
  · rw [map_path_entries]
    exact distinct
  · rw [answer, pathLines, ← map_path_entries, List.map_map]
    rfl
  · exact ⟨jsonList compilation, rfl, read?_jsonList compilation⟩
  · intro artifact member
    exact ⟨answer_print_of_mem distinct member, rfl⟩
  · rw [map_path_entries]
    exact printed_iff distinct
  · rw [map_path_entries]
    intro path absent
    exact answer_print_of_not_mem absent
  · simp only [count_entries]
    rw [answer, summary, Compilation.entries, List.length_map]
  · exact length_eq_sum_count compilation.artifacts

end Answers

/-- Compiling does not look at the command. -/
theorem run_withCommand (arguments : Arguments) (command : Command) (configText : Option String)
    (enums tables : Option Directory) :
    (arguments.withCommand command).run configText enums tables =
      match arguments.compile configText enums tables with
      | .error error => .error (.compile error)
      | .ok compilation => answer compilation command := by
  have same : (arguments.withCommand command).compile configText enums tables =
      arguments.compile configText enums tables := rfl
  rw [Arguments.run, same]
  cases arguments.compile configText enums tables with
  | error error => rfl
  | ok compilation => rfl

/-- The commands agree, whatever arguments they share: they fail together, and only because
nothing was compiled, or tell of one compilation. -/
theorem commands_agree (arguments : Arguments) (configText : Option String)
    (enums tables : Option Directory) :
    (∃ error, arguments.compile configText enums tables = .error error ∧
      ∀ command, (arguments.withCommand command).run configText enums tables =
        .error (.compile error)) ∨
    ∃ compilation, arguments.compile configText enums tables = .ok compilation ∧
      Agrees (fun command => (arguments.withCommand command).run configText enums tables)
        compilation := by
  simp only [run_withCommand]
  cases compiled : arguments.compile configText enums tables with
  | error error => exact .inl ⟨error, rfl, fun _ => rfl⟩
  | ok compilation =>
      have distinct := Arguments.nodup_paths_of_compile compiled
      exact .inr ⟨compilation, rfl, agrees_answer distinct⟩

end CommandLine
end SchemaCompiler
