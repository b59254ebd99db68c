import SchemaCompiler.Proofs.Descriptor.Checks
import SchemaCompiler.Proofs.File.Directory

/-
Schemas below a root.

Loading below a root is loading from sources, once it is known which files are taken and all
of them can be read.  What can go wrong before comes in a fixed order: no directory of tables,
then the first file that cannot be read, those of enumerations before those of tables.  Nothing
is parsed before.
-/

namespace SchemaCompiler

/-- Files of a directory by their paths, each with its text if it can be read. -/
def contentsBelow (directory : String) (files : List DirectoryEntry) :
    List (String × Option String) :=
  files.map fun file => (Path.join directory file.name, file.text)

/-- A source as a file that can be read. -/
def Source.content (source : Source) : String × Option String :=
  (source.path, some source.text)

namespace Schema

/-- Reading the files of enumerations and then those of tables, and loading what was read. -/
structure ReadAndLoaded (layout : DescriptorLayout) (enums tables : List (String × Option String))
    (result : Except LoadError Schema) : Prop where
  readable (enumSources tableSources : List Source) :
    enums = enumSources.map Source.content → tables = tableSources.map Source.content →
      result = load layout enumSources tableSources
  unreadable (before : List (String × Option String)) (path : String)
    (after : List (String × Option String)) :
    enums ++ tables = before ++ (path, none) :: after →
      (∀ earlier ∈ before, earlier.2.isSome = true) → result = .error ⟨path, .unreadable⟩

/-- How loading below a root follows from the two directories. -/
structure LoadedBelow (layout : DescriptorLayout) (root : String)
    (enums tables : Option Directory) : Prop where
  missing : tables = none → loadBelow layout root enums tables =
    .error ⟨Path.join root layout.tables, .breach .missingDirectory⟩
  present (listing : Directory) : tables = some listing → ∃ enumFiles tableFiles,
    (∀ files, Directory.Takes layout.extension (enums.getD []) files ↔ files = enumFiles) ∧
    (∀ files, Directory.Takes layout.extension listing files ↔ files = tableFiles) ∧
    ReadAndLoaded layout (contentsBelow (Path.join root layout.enums) enumFiles)
      (contentsBelow (Path.join root layout.tables) tableFiles) (loadBelow layout root enums tables)
  reordered (otherEnums otherTables : Option Directory) : Option.Rel List.Perm enums otherEnums →
    Option.Rel List.Perm tables otherTables →
      loadBelow layout root otherEnums otherTables = loadBelow layout root enums tables

theorem readFiles_of_readable {directory : String} {files : List DirectoryEntry}
    {sources : List Source} (read : contentsBelow directory files = sources.map Source.content) :
    readFiles directory files = .ok sources := by
  induction files generalizing sources with
  | nil =>
      rw [List.map_eq_nil_iff.mp read.symm]
      rfl
  | cons file rest ih =>
      cases sources with
      | nil => cases read
      | cons source others =>
          obtain ⟨first, later⟩ := List.cons.inj read
          obtain ⟨path, text⟩ := Prod.mk.inj first
          rw [readFiles, text]
          dsimp only
          rw [ih later, path]
          rfl

theorem readFiles_of_unreadable {directory : String} {files : List DirectoryEntry}
    {before : List (String × Option String)} {path : String}
    {after : List (String × Option String)}
    (split : contentsBelow directory files = before ++ (path, none) :: after)
    (readable : ∀ earlier ∈ before, earlier.2.isSome = true) :
    readFiles directory files = .error ⟨path, .unreadable⟩ := by
  induction files generalizing before with
  | nil => cases before <;> cases split
  | cons file rest ih =>
      cases before with
      | nil =>
          obtain ⟨first, _⟩ := List.cons.inj split
          obtain ⟨samePath, none⟩ := Prod.mk.inj first
          rw [readFiles, none, samePath]
      | cons earlier others =>
          obtain ⟨first, later⟩ := List.cons.inj split
          obtain ⟨readableFirst, readableRest⟩ := List.forall_mem_cons.mp readable
          rw [← first] at readableFirst
          obtain ⟨text, given⟩ : ∃ text, file.text = some text :=
            Option.isSome_iff_exists.mp readableFirst
          rw [readFiles, given]
          dsimp only
          rw [ih later readableRest]
          rfl

theorem exists_sources_of_readable {contents : List (String × Option String)}
    (readable : ∀ content ∈ contents, content.2.isSome = true) :
    ∃ sources : List Source, contents = sources.map Source.content := by
  induction contents with
  | nil => exact ⟨[], rfl⟩
  | cons content rest ih =>
      obtain ⟨first, others⟩ := List.forall_mem_cons.mp readable
      obtain ⟨text, given⟩ := Option.isSome_iff_exists.mp first
      obtain ⟨sources, read⟩ := ih others
      refine ⟨⟨content.1, text⟩ :: sources, ?_⟩
      rw [List.map_cons, ← read, Source.content, ← given]

section Below

variable {layout : DescriptorLayout} {root : String} {enums tables : Option Directory}

theorem readAndLoaded_loadBelow (listing : Directory) :
    ReadAndLoaded layout
      (contentsBelow (Path.join root layout.enums)
        (Directory.filesWith layout.extension (enums.getD [])))
      (contentsBelow (Path.join root layout.tables)
        (Directory.filesWith layout.extension listing))
      (loadBelow layout root enums (some listing)) := by
  constructor
  · intro enumSources tableSources readEnums readTables
    rw [loadBelow]
    rw [readFiles_of_readable readEnums, readFiles_of_readable readTables]
    rfl
  · intro before path after split readable
    rw [loadBelow]
    rcases List.append_eq_append_iff.mp split with ⟨rest, rfl, inTables⟩ | ⟨rest, inEnums, later⟩
    · -- All files of enumerations are readable.
      obtain ⟨readableEnums, readableRest⟩ := List.forall_mem_append.mp readable
      obtain ⟨enumSources, readEnums⟩ := exists_sources_of_readable readableEnums
      rw [readFiles_of_readable readEnums, readFiles_of_unreadable inTables readableRest]
      rfl
    · cases rest with
      | nil =>
          rw [List.append_nil] at inEnums
          rw [← inEnums] at readable
          obtain ⟨enumSources, readEnums⟩ := exists_sources_of_readable readable
          have first : contentsBelow (Path.join root layout.tables)
              (Directory.filesWith layout.extension listing) = [] ++ (path, none) :: after :=
            later.symm
          rw [readFiles_of_readable readEnums,
            readFiles_of_unreadable first (List.forall_mem_nil _)]
          rfl
      | cons first others =>
          obtain ⟨rfl, _⟩ := List.cons.inj later
          rw [readFiles_of_unreadable inEnums readable]
          rfl

theorem exists_load_of_loadBelow {schema : Schema}
    (loaded : loadBelow layout root enums tables = .ok schema) :
    ∃ enumSources tableSources, load layout enumSources tableSources = .ok schema := by
  cases tables with
  | none => cases loaded
  | some listing =>
      simp only [loadBelow, bind_eq_ok_iff] at loaded
      obtain ⟨enumSources, _, tableSources, _, found⟩ := loaded
      exact ⟨enumSources, tableSources, found⟩

theorem loadBelow_reordered (distinctEnums : ∀ listing ∈ enums, listing.Distinct)
    (distinctTables : ∀ listing ∈ tables, listing.Distinct)
    {otherEnums otherTables : Option Directory} (permEnums : Option.Rel List.Perm enums otherEnums)
    (permTables : Option.Rel List.Perm tables otherTables) :
    loadBelow layout root otherEnums otherTables = loadBelow layout root enums tables := by
  have sameEnums : Directory.filesWith layout.extension (enums.getD []) =
      Directory.filesWith layout.extension (otherEnums.getD []) := by
    cases permEnums with
    | none => rfl
    | some reordered => exact Directory.filesWith_of_perm (distinctEnums _ rfl) reordered
  cases permTables with
  | none => rfl
  | some reordered =>
      rw [loadBelow, loadBelow, sameEnums,
        Directory.filesWith_of_perm (distinctTables _ rfl) reordered]

/-- Loading below a root is loading from the files of the two directories, in the order of the
bytes of their names. -/
theorem loaded_below (layout : DescriptorLayout) (root : String)
    (distinctEnums : ∀ listing ∈ enums, listing.Distinct)
    (distinctTables : ∀ listing ∈ tables, listing.Distinct) :
    LoadedBelow layout root enums tables := by
  have distinctGiven : (enums.getD []).Distinct := by
    cases enums with
    | none => exact List.nodup_nil
    | some listing => exact distinctEnums listing rfl
  constructor
  · intro missing
    rw [missing]
    rfl
  · intro listing given
    rw [given]
    exact ⟨_, _, fun _ => Directory.takes_iff distinctGiven,
      fun _ => Directory.takes_iff (distinctTables listing given), readAndLoaded_loadBelow listing⟩
  · intro otherEnums otherTables
    exact loadBelow_reordered distinctEnums distinctTables

end Below

/-- A root whose tables stand in another order than their names, beside a file that is no
descriptor and cannot be read. -/
def menagerie : FileTree where
  files :=
    [(["db", "enums", "mood.json"], some "[]"), (["db", "tables", "dogs.json"], some "\x7b\x7d"),
      (["db", "tables", "notes.txt"], none), (["db", "tables", "Cats.json"], some "\x7b\x7d")]
  directories := []

def menagerieEnums : Directory :=
  [⟨"mood.json", true, some "[]"⟩]

def menagerieTables : Directory :=
  [⟨"dogs.json", true, some "\x7b\x7d"⟩, ⟨"notes.txt", true, none⟩,
    ⟨"Cats.json", true, some "\x7b\x7d"⟩]

theorem loaded_below_of_menagerie :
    menagerie.directory? "db/enums" = some menagerieEnums ∧
      menagerie.directory? "db/tables" = some menagerieTables ∧
      LoadedBelow .usual "db" (some menagerieEnums) (some menagerieTables) := by
  have foundEnums : menagerie.directory? "db/enums" = some menagerieEnums := by decide +kernel
  have foundTables : menagerie.directory? "db/tables" = some menagerieTables := by decide +kernel
  have distinct {path : String} {listing : Directory}
      (found : menagerie.directory? path = some listing) :
      ∀ other ∈ some listing, other.Distinct := by
    intro other member
    cases member
    exact FileTree.distinct_of_directory? found
  exact ⟨foundEnums, foundTables,
    loaded_below .usual "db" (distinct foundEnums) (distinct foundTables)⟩

end Schema
end SchemaCompiler
