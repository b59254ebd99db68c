import SchemaCompiler.Proofs.Schema.Loading

/-
Schemas put together from sources.

A schema is loaded when every source can be read on its own and no name is given twice, and
then it holds what the sources hold, one after another.  Otherwise the first source is reported
that cannot be read or that gives a name again.  Whatever comes after it is of no account.

Sources of enumerations and of tables are gathered by the same rule.  They differ in what one
source gives, and in which names that takes.
-/

namespace SchemaCompiler
namespace Descriptor

section Gather

variable {α : Type} (read : Source → Except Problem α) (names : α → List String)
  (breach : String → Breach)

/-- What sources give, in order, after some names were taken. -/
def gather (taken : List String) : List Source → Except LoadError (List α)
  | [] => .ok []
  | source :: rest => do
      let found ← inFile source.path do
        let found ← read source
        checkNew breach taken (names found)
        return found
      let others ← gather (taken ++ names found) rest
      return found :: others

/-- What sources give when each can be read and all names are new. -/
structure Gathered (taken : List String) (sources : List Source) (founds : List α) : Prop where
  each : List.Forall₂ (fun source found => read source = .ok found) sources founds
  distinct : (taken ++ founds.flatMap names).Nodup

/-- Why a source is refused after some names were taken: it cannot be read, or the first of its
names that is not new. -/
inductive Refuses (taken : List String) (source : Source) : Problem → Prop
  | unread {problem : Problem} (fails : read source = .error problem) :
      Refuses taken source problem
  | repeated {found : α} {name : String} (reads : read source = .ok found)
      (again : FirstRepeated taken (names found) name) :
      Refuses taken source (.breach (breach name))

/-- The first source that is refused, after those before it were gathered. -/
inductive StopsAt (taken : List String) (sources : List Source) : LoadError → Prop
  | intro {before after : List Source} {source : Source} {founds : List α} {problem : Problem}
      (split : sources = before ++ source :: after)
      (earlier : Gathered read names taken before founds)
      (refused : Refuses read names breach (taken ++ founds.flatMap names) source problem) :
      StopsAt taken sources ⟨source.path, problem⟩

variable {read names breach} {taken : List String}

theorem gathered_cons_iff {source : Source} {rest : List Source} {found : α} {others : List α} :
    Gathered read names taken (source :: rest) (found :: others) ↔
      read source = .ok found ∧ Gathered read names (taken ++ names found) rest others := by
  constructor
  · intro gathered
    obtain ⟨each, distinct⟩ := gathered
    cases each with
    | cons first later =>
        rw [List.flatMap_cons, ← List.append_assoc] at distinct
        exact ⟨first, later, distinct⟩
  · intro both
    obtain ⟨first, each, distinct⟩ := both
    refine ⟨.cons first each, ?_⟩
    rw [List.flatMap_cons, ← List.append_assoc]
    exact distinct

theorem gather_eq_ok_iff {sources : List Source} {founds : List α} (free : taken.Nodup) :
    gather read names breach taken sources = .ok founds ↔
      Gathered read names taken sources founds := by
  induction sources generalizing taken founds with
  | nil =>
      constructor
      · intro found
        cases found
        refine ⟨.nil, ?_⟩
        rwa [List.flatMap_nil, List.append_nil]
      · intro gathered
        cases gathered.each
        rfl
  | cons source rest ih =>
      simp only [gather, bind_eq_ok_iff, pure_eq_ok_iff, inFile_eq_ok_iff]
      constructor
      · intro steps
        obtain ⟨found, ⟨_, reads, done, passes, rfl⟩, others, later, rfl⟩ := steps
        have distinct := (checkNew_eq_ok_iff free).mp passes
        exact gathered_cons_iff.mpr ⟨reads, (ih distinct).mp later⟩
      · intro gathered
        cases founds with
        | nil => cases gathered.each
        | cons found others =>
            obtain ⟨reads, later⟩ := gathered_cons_iff.mp gathered
            have distinct : (taken ++ names found).Nodup :=
              (List.nodup_append.mp later.distinct).1
            exact ⟨found, ⟨found, reads, (), (checkNew_eq_ok_iff free).mpr distinct, rfl⟩,
              others, (ih distinct).mpr later, rfl⟩

theorem refuses_iff {source : Source} {error : LoadError} (free : taken.Nodup) :
    (inFile source.path do
        let found ← read source
        checkNew breach taken (names found)
        return found) = .error error ↔
      ∃ problem, Refuses read names breach taken source problem ∧
        error = ⟨source.path, problem⟩ := by
  rw [inFile_eq_error_iff]
  apply exists_congr
  intro problem
  apply and_congr_left
  intro _
  simp only [bind_eq_error_iff]
  constructor
  · intro fails
    rcases fails with unread | ⟨found, reads, repeated | ⟨_, _, impossible⟩⟩
    · exact .unread unread
    · obtain ⟨name, again, rfl⟩ := (checkNew_eq_error_iff free).mp repeated
      exact .repeated reads again
    · cases impossible
  · intro refused
    cases refused with
    | unread fails => exact .inl fails
    | repeated reads again =>
        exact .inr ⟨_, reads, .inl ((checkNew_eq_error_iff free).mpr ⟨_, again, rfl⟩)⟩

theorem stopsAt_cons_iff {source : Source} {rest : List Source} {error : LoadError}
    (free : taken.Nodup) :
    StopsAt read names breach taken (source :: rest) error ↔
      (∃ problem, Refuses read names breach taken source problem ∧
        error = ⟨source.path, problem⟩) ∨
      ∃ found, read source = .ok found ∧ (taken ++ names found).Nodup ∧
        StopsAt read names breach (taken ++ names found) rest error := by
  constructor
  · intro stops
    cases stops with
    | @intro before after stopped founds problem split earlier refused =>
        cases before with
        | nil =>
            obtain ⟨rfl, _⟩ := List.cons.inj split
            cases earlier.each
            rw [List.flatMap_nil, List.append_nil] at refused
            exact .inl ⟨problem, refused, rfl⟩
        | cons first before =>
            obtain ⟨rfl, later⟩ := List.cons.inj split
            cases founds with
            | nil => cases earlier.each
            | cons found others =>
                obtain ⟨reads, gathered⟩ := gathered_cons_iff.mp earlier
                rw [List.flatMap_cons, ← List.append_assoc] at refused
                exact .inr ⟨found, reads, (List.nodup_append.mp gathered.distinct).1,
                  .intro later gathered refused⟩
  · intro either
    rcases either with ⟨problem, refused, rfl⟩ | ⟨found, reads, _, stops⟩
    · have nothing : Gathered read names taken [] [] := by
        refine ⟨.nil, ?_⟩
        rwa [List.flatMap_nil, List.append_nil]
      refine .intro rfl nothing ?_
      rwa [List.flatMap_nil, List.append_nil]
    · cases stops with
      | intro split earlier refused =>
          refine .intro (by rw [split]; rfl) (gathered_cons_iff.mpr ⟨reads, earlier⟩) ?_
          rwa [List.flatMap_cons, ← List.append_assoc]

theorem gather_eq_error_iff {sources : List Source} {error : LoadError} (free : taken.Nodup) :
    gather read names breach taken sources = .error error ↔
      StopsAt read names breach taken sources error := by
  induction sources generalizing taken with
  | nil =>
      constructor
      · intro fails
        cases fails
      · intro stops
        cases stops with
        | @intro before after source founds problem split _ _ => cases before <;> cases split
  | cons source rest ih =>
      rw [gather, bind_eq_error_iff, refuses_iff free, stopsAt_cons_iff free]
      apply or_congr_right
      apply exists_congr
      intro found
      simp only [inFile_eq_ok_iff, bind_eq_ok_iff, bind_eq_error_iff, pure_eq_ok_iff,
        checkNew_eq_ok_iff free, exists_const]
      constructor
      · intro steps
        obtain ⟨⟨_, reads, distinct, rfl⟩, later | ⟨_, _, impossible⟩⟩ := steps
        · exact ⟨reads, distinct, (ih distinct).mp later⟩
        · cases impossible
      · intro steps
        obtain ⟨reads, distinct, stops⟩ := steps
        exact ⟨⟨found, reads, distinct, rfl⟩, .inl ((ih distinct).mpr stops)⟩

end Gather

/-- What a source of enumerations gives on its own. -/
def enumsOf (layout : DescriptorLayout) (source : Source) : Except Problem (List Enumeration) :=
  readEnums (Path.stem layout.extension source.path) source.text

/-- What a source of a table gives on its own. -/
def tableOf (source : Source) : Except Problem Table :=
  readTable source.text

theorem loadEnums_eq_gather (layout : DescriptorLayout) (taken : List String)
    (sources : List Source) : loadEnums layout.extension taken sources =
      (gather (enumsOf layout) (List.map Enumeration.name) .repeatedEnum taken sources).map
        List.flatten := by
  induction sources generalizing taken with
  | nil => rfl
  | cons source rest ih =>
      rw [loadEnums, gather, enumsOfSource, enumsOf]
      cases inFile source.path do
          let found ← readEnums (Path.stem layout.extension source.path) source.text
          checkNew .repeatedEnum taken (found.map Enumeration.name)
          return found with
      | error error => rfl
      | ok found =>
          simp only [bind, Except.bind, ih]
          cases gather (enumsOf layout) (List.map Enumeration.name) .repeatedEnum
            (taken ++ found.map Enumeration.name) rest with
          | error error => rfl
          | ok others => rfl

theorem loadTables_eq_gather (taken : List String) (sources : List Source) :
    loadTables taken sources = gather tableOf claimedName .repeatedTable taken sources := by
  induction sources generalizing taken with
  | nil => rfl
  | cons source rest ih => simp only [loadTables, gather, tableOfSource, tableOf, ih]

theorem loadEnums_eq_ok_iff {layout : DescriptorLayout} {sources : List Source}
    {enumerations : List Enumeration} : loadEnums layout.extension [] sources = .ok enumerations ↔
      ∃ parts, Gathered (enumsOf layout) (List.map Enumeration.name) [] sources parts ∧
        enumerations = parts.flatten := by
  have gathers (parts : List (List Enumeration)) :
      Gathered (enumsOf layout) (List.map Enumeration.name) [] sources parts ↔
        gather (enumsOf layout) (List.map Enumeration.name) .repeatedEnum [] sources =
          .ok parts :=
    (gather_eq_ok_iff List.nodup_nil).symm
  rw [loadEnums_eq_gather]
  simp only [gathers]
  cases gather (enumsOf layout) (List.map Enumeration.name) .repeatedEnum [] sources with
  | error error => simp [Except.map]
  | ok parts => simp [Except.map, eq_comm]

theorem loadEnums_eq_error_iff {layout : DescriptorLayout} {sources : List Source}
    {error : LoadError} : loadEnums layout.extension [] sources = .error error ↔
      StopsAt (enumsOf layout) (List.map Enumeration.name) .repeatedEnum [] sources error := by
  rw [loadEnums_eq_gather, ← gather_eq_error_iff List.nodup_nil]
  cases gather (enumsOf layout) (List.map Enumeration.name) .repeatedEnum [] sources with
  | error other => simp [Except.map]
  | ok parts => simp [Except.map]

end Descriptor

namespace Schema

open Descriptor (enumsOf tableOf claimedName Refuses Gathered StopsAt)

/-- A schema that holds what its sources hold. -/
structure MadeOf (layout : DescriptorLayout) (enums tables : List Source) (schema : Schema) :
    Prop where
  enumerations : ∃ parts, List.Forall₂ (fun source part => enumsOf layout source = .ok part)
    enums parts ∧ schema.enumerations = parts.flatten
  tables : List.Forall₂ (fun source table => tableOf source = .ok table) tables schema.tables
  nodup_enumerations : (schema.enumerations.map Enumeration.name).Nodup
  nodup_tables : ((schema.tables.map Table.name).filter fun name => name ≠ "").Nodup

/-- The first source that is refused, sources of enumerations being the earlier ones. -/
inductive RefusedAt (layout : DescriptorLayout) (enums tables : List Source) : LoadError → Prop
  | enums {before after : List Source} {source : Source} {earlier : Schema}
      {problem : Descriptor.Problem} (split : enums = before ++ source :: after)
      (loaded : MadeOf layout before [] earlier)
      (refused : Refuses (enumsOf layout) (List.map Enumeration.name) .repeatedEnum
        (earlier.enumerations.map Enumeration.name) source problem) :
      RefusedAt layout enums tables ⟨source.path, problem⟩
  | tables {before after : List Source} {source : Source} {earlier : Schema}
      {problem : Descriptor.Problem} (split : tables = before ++ source :: after)
      (loaded : MadeOf layout enums before earlier)
      (refused : Refuses tableOf claimedName .repeatedTable
        ((earlier.tables.map Table.name).filter fun name => name ≠ "") source problem) :
      RefusedAt layout enums tables ⟨source.path, problem⟩

/-- What loading comes to, said of the sources alone. -/
structure Composed (layout : DescriptorLayout) (enums tables : List Source) : Prop where
  ok_iff (schema : Schema) :
    load layout enums tables = .ok schema ↔ MadeOf layout enums tables schema
  error_iff (error : LoadError) :
    load layout enums tables = .error error ↔ RefusedAt layout enums tables error
  later_enums (error : LoadError) : load layout enums [] = .error error →
    ∀ later others, load layout (enums ++ later) others = .error error
  later_tables (error : LoadError) : load layout enums tables = .error error →
    ∀ later, load layout enums (tables ++ later) = .error error

section Composition

variable {layout : DescriptorLayout} {enums tables : List Source}

theorem madeOf_iff {schema : Schema} : MadeOf layout enums tables schema ↔
    (∃ parts, Gathered (enumsOf layout) (List.map Enumeration.name) [] enums parts ∧
      schema.enumerations = parts.flatten) ∧
    Gathered tableOf claimedName [] tables schema.tables := by
  have flattened (parts : List (List Enumeration)) :
      parts.flatMap (List.map Enumeration.name) = parts.flatten.map Enumeration.name :=
    List.map_flatten.symm
  constructor
  · intro made
    obtain ⟨parts, each, joined⟩ := made.enumerations
    refine ⟨⟨parts, ⟨each, ?_⟩, joined⟩, ⟨made.tables, ?_⟩⟩
    · rw [List.nil_append, flattened, ← joined]
      exact made.nodup_enumerations
    · rw [List.nil_append, Descriptor.flatMap_claimedName]
      exact made.nodup_tables
  · intro gathered
    obtain ⟨⟨parts, ⟨each, distinctEnums⟩, joined⟩, ⟨read, distinctTables⟩⟩ := gathered
    refine ⟨⟨parts, each, joined⟩, read, ?_, ?_⟩
    · rwa [List.nil_append, flattened, ← joined] at distinctEnums
    · rwa [List.nil_append, Descriptor.flatMap_claimedName] at distinctTables

theorem load_eq_ok_iff {schema : Schema} :
    load layout enums tables = .ok schema ↔ MadeOf layout enums tables schema := by
  simp only [load, bind_eq_ok_iff, pure_eq_ok_iff, Descriptor.loadEnums_eq_ok_iff,
    Descriptor.loadTables_eq_gather, Descriptor.gather_eq_ok_iff List.nodup_nil, madeOf_iff]
  constructor
  · intro steps
    obtain ⟨enumerations, fromEnums, found, fromTables, rfl⟩ := steps
    exact ⟨fromEnums, fromTables⟩
  · intro both
    exact ⟨schema.enumerations, both.1, schema.tables, both.2, rfl⟩

theorem refusedAt_iff {error : LoadError} : RefusedAt layout enums tables error ↔
    StopsAt (enumsOf layout) (List.map Enumeration.name) .repeatedEnum [] enums error ∨
    (∃ parts, Gathered (enumsOf layout) (List.map Enumeration.name) [] enums parts) ∧
      StopsAt tableOf claimedName .repeatedTable [] tables error := by
  constructor
  · intro refusedAt
    cases refusedAt with
    | enums split loaded refused =>
        obtain ⟨⟨parts, gathered, joined⟩, _⟩ := madeOf_iff.mp loaded
        rw [joined, List.map_flatten] at refused
        exact .inl (.intro split gathered refused)
    | tables split loaded refused =>
        obtain ⟨⟨parts, gathered, _⟩, earlier⟩ := madeOf_iff.mp loaded
        rw [← Descriptor.flatMap_claimedName] at refused
        exact .inr ⟨⟨parts, gathered⟩, .intro split earlier refused⟩
  · intro stops
    rcases stops with inEnums | ⟨⟨parts, gathered⟩, inTables⟩
    · cases inEnums with
      | @intro before after source founds problem split earlier refused =>
          have made : MadeOf layout before [] ⟨founds.flatten, []⟩ :=
            madeOf_iff.mpr ⟨⟨founds, earlier, rfl⟩, .nil, List.nodup_nil⟩
          refine .enums split made ?_
          rwa [List.map_flatten]
    · cases inTables with
      | @intro before after source founds problem split earlier refused =>
          have made : MadeOf layout enums before ⟨parts.flatten, founds⟩ :=
            madeOf_iff.mpr ⟨⟨parts, gathered, rfl⟩, earlier⟩
          refine .tables split made ?_
          rwa [← Descriptor.flatMap_claimedName]

theorem load_eq_error_iff {error : LoadError} :
    load layout enums tables = .error error ↔ RefusedAt layout enums tables error := by
  rw [load, bind_eq_error_iff, Descriptor.loadEnums_eq_error_iff, refusedAt_iff]
  apply or_congr_right
  simp only [bind_eq_error_iff, Descriptor.loadEnums_eq_ok_iff, Descriptor.loadTables_eq_gather,
    Descriptor.gather_eq_error_iff List.nodup_nil]
  constructor
  · intro steps
    obtain ⟨_, ⟨parts, gathered, _⟩, stops | ⟨_, _, impossible⟩⟩ := steps
    · exact ⟨⟨parts, gathered⟩, stops⟩
    · cases impossible
  · intro steps
    obtain ⟨⟨parts, gathered⟩, stops⟩ := steps
    exact ⟨_, ⟨parts, gathered, rfl⟩, .inl stops⟩

/-- Loading is settled by the first source that is refused, and by all sources if none is. -/
theorem load_composed (layout : DescriptorLayout) (enums tables : List Source) :
    Composed layout enums tables := by
  constructor
  · intro schema
    exact load_eq_ok_iff
  · intro error
    exact load_eq_error_iff
  · intro error fails later others
    rw [load_eq_error_iff] at fails ⊢
    cases fails with
    | @enums before after source _ _ split loaded refused =>
        have extended : enums ++ later = before ++ source :: (after ++ later) := by
          rw [split, List.append_assoc, List.cons_append]
        exact .enums extended loaded refused
    | @tables before _ _ _ _ split _ _ => cases before <;> cases split
  · intro error fails later
    rw [load_eq_error_iff] at fails ⊢
    cases fails with
    | enums split loaded refused => exact .enums split loaded refused
    | @tables before after source _ _ split loaded refused =>
        have extended : tables ++ later = before ++ source :: (after ++ later) := by
          rw [split, List.append_assoc, List.cons_append]
        exact .tables extended loaded refused

/-- A name that is given again is reported although the source after it is no JSON at all. -/
example : load .usual []
    [⟨"a.json", "\x7b\"name\":\"cats\"\x7d"⟩, ⟨"b.json", "\x7b\"name\":\"cats\"\x7d"⟩,
      ⟨"c.json", "\x7b"⟩] = .error ⟨"b.json", .breach (.repeatedTable "cats")⟩ := by cbv

end Composition

end Schema
end SchemaCompiler
