import Mathlib
import SchemaCompiler.Artifact.Settings
import SchemaCompiler.Proofs.Descriptor.Checks
import SchemaCompiler.Proofs.File.Path
import SchemaCompiler.TypeScript.Import

/-
Specifiers between directories.

From one directory to another a specifier first goes up, once for each segment of the
directory it is written in, and then down from the root.  Empty segments are not counted, but
single dots are, although they are no way down: a directory with one of them sends its
specifiers out of the root.  And where there is nothing to go up, because the directory is
written with slashes alone, the specifier starts with the other directory as it is written,
and may pass for the name of a package.
-/

namespace SchemaCompiler

open TypeScript (isRelative)

namespace Path

theorem steps_climb (levels : Nat) (path : String) :
    steps (Text.concat (List.replicate levels "../") ++ path) =
      List.replicate levels ".." ++ steps path := by
  induction levels with
  | zero =>
      rw [List.replicate_zero, List.replicate_zero, Text.concat, String.empty_append,
        List.nil_append]
  | succ levels ih =>
      have apart : Text.concat (List.replicate (levels + 1) "../") ++ path =
          ".." ++ "/" ++ (Text.concat (List.replicate levels "../") ++ path) := by
        rw [List.replicate_succ, Text.concat, String.append_assoc]
        rfl
      have up : steps ".." = [".."] := by decide
      rw [apart, steps_append, ih, up, List.replicate_succ]
      rfl

end Path

/-- The segments of a directory that specifiers go up for. -/
def levels (directory : String) : List String :=
  (Text.segments directory).filter fun segment => !segment.isEmpty

section Written

variable {origin target : String} (stem : String)

theorem mem_levels {segment : String} :
    segment ∈ levels origin ↔ segment ∈ Text.segments origin ∧ segment ≠ "" := by
  simp only [levels, List.mem_filter, Bool.not_eq_true', ne_eq, String.isEmpty_eq_false_iff]

theorem steps_eq_filter_levels :
    Path.steps origin = (levels origin).filter fun segment => segment != "." := by
  rw [levels, List.filter_filter, Path.steps]
  apply List.filter_congr
  intro segment _
  rw [Bool.and_comm]
  congr 1
  rw [Bool.eq_iff_iff, bne_iff_ne, Bool.not_eq_true', String.isEmpty_eq_false_iff]

theorem length_steps_le_levels (directory : String) :
    (Path.steps directory).length ≤ (levels directory).length := by
  rw [steps_eq_filter_levels]
  exact List.length_filter_le ..

theorem length_levels_le_iff :
    (levels origin).length ≤ (Path.steps origin).length ↔ "." ∉ Text.segments origin := by
  have fewer := length_steps_le_levels origin
  have dots : (Path.steps origin).length = (levels origin).length ↔
      "." ∉ Text.segments origin := by
    rw [steps_eq_filter_levels, List.length_filter_eq_length_iff]
    constructor
    · intro plain dotted
      have kept := plain "." (mem_levels.mpr ⟨dotted, by decide⟩)
      exact absurd kept (by decide)
    · intro plain segment counted
      rw [bne_iff_ne]
      rintro rfl
      exact plain (mem_levels.mp counted).1
  rw [← dots]
  omega

theorem relativeModule_of_ne (apart : origin ≠ target) :
    relativeModule origin target stem =
      Text.concat (List.replicate (levels origin).length "../") ++ (target ++ "/" ++ stem) := by
  rw [relativeModule, if_neg apart, levels]
  simp only [String.append_assoc]

theorem isRelative_relativeModule_iff (apart : origin ≠ target) (given : target ≠ "") :
    isRelative (relativeModule origin target stem) = true ↔
      levels origin ≠ [] ∨ isRelative target = true := by
  rw [relativeModule_of_ne stem apart]
  cases levels origin with
  | nil =>
      have chars : target.toList ≠ [] := fun none => given (String.toList_injective none)
      simp [isRelative, Text.concat, List.head?_append_of_ne_nil _ chars]
  | cons first rest =>
      simp [isRelative, Text.concat, List.replicate_succ]

/-- A specifier leads to its file unless a single dot sends it out of the root. -/
theorem placeFrom?_relativeModule (inside : ".." ∉ Text.segments origin) (apart : origin ≠ target) :
    Path.placeFrom? origin (relativeModule origin target stem) =
      if "." ∉ Text.segments origin then Path.place? (target ++ "/" ++ stem) else none := by
  rw [Path.placeFrom?, Path.place?_of_inside inside, Option.bind_some,
    relativeModule_of_ne stem apart, Path.steps_climb, Path.walk_up]
  simp only [length_levels_le_iff]
  split
  case isTrue plain =>
    have emptied : (Path.steps origin).length - (levels origin).length = 0 :=
      Nat.sub_eq_zero_of_le (length_steps_le_levels origin)
    rw [emptied, List.take_zero]
    rfl
  case isFalse => rfl

theorem isRelative_relativeModule_self (origin : String) :
    isRelative (relativeModule origin origin stem) = true := by
  rw [relativeModule, if_pos rfl]
  simp [isRelative]

theorem placeFrom?_relativeModule_self (origin : String) :
    Path.placeFrom? origin (relativeModule origin origin stem) =
      Path.place? (origin ++ "/" ++ stem) := by
  have below : Path.steps ("./" ++ stem) = Path.steps stem := by
    have here : Path.steps "." = [] := by decide
    have apart : "./" ++ stem = "." ++ "/" ++ stem := rfl
    rw [apart, Path.steps_append, here, List.nil_append]
  rw [relativeModule, if_pos rfl, Path.placeFrom?, below, Path.place?, Path.place?,
    Path.steps_append, Path.walk_append]

end Written

namespace Settings

/-- What the check of settings makes sure of. -/
structure Checked (settings : Settings) : Prop where
  nonempty (kind : ArtifactKind) : settings.directory kind ≠ ""
  inside (kind : ArtifactKind) : ".." ∉ Text.segments (settings.directory kind)
  apart {left right : ArtifactKind} :
    settings.directory left = settings.directory right → left = right

theorem checkDirectories_eq_ok_iff {settings : Settings} {inUse : List String}
    {kinds : List ArtifactKind} :
    checkDirectories settings inUse kinds = .ok () ↔
      (∀ kind ∈ kinds, settings.directory kind ≠ "" ∧
        ".." ∉ Text.segments (settings.directory kind) ∧ settings.directory kind ∉ inUse) ∧
      (kinds.map settings.directory).Nodup := by
  induction kinds generalizing inUse with
  | nil => simp [checkDirectories]
  | cons kind rest ih =>
      rw [checkDirectories]
      by_cases empty : settings.directory kind = ""
      · simp [empty]
      by_cases outside : ".." ∈ Text.segments (settings.directory kind)
      · simp [empty, outside]
      by_cases shared : settings.directory kind ∈ inUse
      · simp [empty, outside, shared]
      rw [if_neg (by simpa using empty), if_neg (by simpa using outside),
        if_neg (by simpa using shared), ih, List.forall_mem_cons, List.map_cons,
        List.nodup_cons, List.mem_map]
      constructor
      · rintro ⟨each, distinct⟩
        refine ⟨⟨⟨empty, outside, shared⟩, ?_⟩, ?_, distinct⟩
        · intro other member
          obtain ⟨given, within, fresh⟩ := each other member
          exact ⟨given, within, fun used => fresh (List.mem_cons_of_mem _ used)⟩
        · rintro ⟨other, member, same⟩
          exact (each other member).2.2 (same ▸ List.mem_cons_self)
      · rintro ⟨⟨_, each⟩, fresh, distinct⟩
        refine ⟨?_, distinct⟩
        intro other member
        obtain ⟨given, within, unused⟩ := each other member
        refine ⟨given, within, ?_⟩
        intro used
        rcases List.mem_cons.mp used with same | earlier
        · exact fresh ⟨other, member, same⟩
        · exact unused earlier

theorem checked_of_read {text : String} {settings : Settings}
    (accepted : read text = .ok settings) : settings.Checked := by
  have every (kind : ArtifactKind) : kind ∈ ArtifactKind.all := by
    cases kind <;> decide
  unfold read at accepted
  split at accepted
  · simp only [check, bind_eq_ok_iff, pure_eq_ok_iff] at accepted
    obtain ⟨_, passed, rfl⟩ := accepted
    obtain ⟨each, distinct⟩ := checkDirectories_eq_ok_iff.mp passed
    constructor
    · intro kind
      exact (each kind (every kind)).1
    · intro kind
      exact (each kind (every kind)).2.1
    · intro left right same
      exact List.inj_on_of_nodup_map distinct (every left) (every right) same
  · cases accepted

/-- A specifier from a directory leads to the file of a stem in another one, and does not pass
for the name of a package. -/
structure Resolves (settings : Settings) (origin target : ArtifactKind) (stem : String) :
    Prop where
  relative : isRelative
    (relativeModule (settings.directory origin) (settings.directory target) stem) = true
  leads : Path.placeFrom? (settings.directory origin)
      (relativeModule (settings.directory origin) (settings.directory target) stem) =
    Path.place? (settings.directory target ++ "/" ++ stem)

/-- Whether specifiers between two directories are right: no single dot stands in the way up,
and if there is none to go, the other directory is written relative. -/
def Reaches (settings : Settings) (origin target : ArtifactKind) : Prop :=
  origin = target ∨ "." ∉ Text.segments (settings.directory origin) ∧
    (levels (settings.directory origin) ≠ [] ∨ isRelative (settings.directory target) = true)

/-- Where a specifier leads, and when it is right. -/
structure Specified (settings : Settings) (origin target : ArtifactKind) (stem : String) :
    Prop where
  relative_iff : isRelative
      (relativeModule (settings.directory origin) (settings.directory target) stem) = true ↔
    origin = target ∨ levels (settings.directory origin) ≠ [] ∨
      isRelative (settings.directory target) = true
  leads : Path.placeFrom? (settings.directory origin)
      (relativeModule (settings.directory origin) (settings.directory target) stem) =
    if origin = target ∨ "." ∉ Text.segments (settings.directory origin) then
      Path.place? (settings.directory target ++ "/" ++ stem)
    else none
  place : ".." ∉ Text.segments stem → Path.place? (settings.directory target ++ "/" ++ stem) =
    some (Path.steps (settings.directory target) ++ Path.steps stem)
  resolves : settings.Reaches origin target → settings.Resolves origin target stem
  reaches : ".." ∉ Text.segments stem → settings.Resolves origin target stem →
    settings.Reaches origin target

theorem specified_of_read {text : String} {settings : Settings}
    (accepted : read text = .ok settings) (origin target : ArtifactKind) (stem : String) :
    settings.Specified origin target stem := by
  have checked := checked_of_read accepted
  have relativeIff : isRelative
      (relativeModule (settings.directory origin) (settings.directory target) stem) = true ↔
      origin = target ∨ levels (settings.directory origin) ≠ [] ∨
        isRelative (settings.directory target) = true := by
    by_cases same : origin = target
    · rw [same]
      exact iff_of_true (isRelative_relativeModule_self stem _) (Or.inl rfl)
    · rw [or_iff_right same]
      exact isRelative_relativeModule_iff stem (mt checked.apart same) (checked.nonempty target)
  have leads : Path.placeFrom? (settings.directory origin)
        (relativeModule (settings.directory origin) (settings.directory target) stem) =
      if origin = target ∨ "." ∉ Text.segments (settings.directory origin) then
        Path.place? (settings.directory target ++ "/" ++ stem)
      else none := by
    by_cases same : origin = target
    · rw [if_pos (Or.inl same), same]
      exact placeFrom?_relativeModule_self stem _
    · simp only [same, false_or]
      exact placeFrom?_relativeModule stem (checked.inside origin) (mt checked.apart same)
  have place (inside : ".." ∉ Text.segments stem) :
      Path.place? (settings.directory target ++ "/" ++ stem) =
        some (Path.steps (settings.directory target) ++ Path.steps stem) := by
    rw [← Path.steps_append]
    apply Path.place?_of_inside
    rw [Text.segments_append, List.mem_append, not_or]
    exact ⟨checked.inside target, inside⟩
  refine ⟨relativeIff, leads, place, ?_, ?_⟩
  · intro reaches
    refine ⟨relativeIff.mpr (reaches.imp_right And.right), ?_⟩
    rw [leads, if_pos (reaches.imp_right And.left)]
  · rintro inside ⟨relative, led⟩
    by_cases same : origin = target
    · exact Or.inl same
    · refine Or.inr ⟨?_, (relativeIff.mp relative).resolve_left same⟩
      -- A dot leads out of the root, but the file itself has a place.
      intro dotted
      rw [leads, if_neg (not_or.mpr ⟨same, not_not_intro dotted⟩), place inside] at led
      cases led

theorem read_of_tree {text : String} {tree : Json.Tree} {base settings : Settings}
    (parsed : Json.Tree.read? text = some tree) (found : ofTree? tree = some base)
    (passes : base.check = .ok settings) : read text = .ok settings := by
  rw [read, parsed, Option.bind_some, found]
  exact passes

/-- Types two levels down, with slashes to spare. -/
def nestedTypes : String :=
  "\x7b\"typesDir\":\"/api//types/\",\"validationDir\":\"checks//\"\x7d"

def nestedSettings : Settings :=
  { usual with typesDirectory := "/api//types/", validationDirectory := "checks//" }

theorem read_nestedTypes : read nestedTypes = .ok nestedSettings := by
  have parsed : Json.Tree.read? nestedTypes =
      some (.object [(some "typesDir", .scalar (.text (some "/api//types/"))),
        (some "validationDir", .scalar (.text (some "checks//")))]) := by cbv
  exact read_of_tree parsed rfl (by decide)

theorem specified_of_read_nested : read nestedTypes = .ok nestedSettings ∧
    nestedSettings.Specified .types .validation "user" :=
  ⟨read_nestedTypes, specified_of_read read_nestedTypes .types .validation "user"⟩

example : relativeModule "/api//types/" "checks//" "user" = "../../checks///user" := by decide

/-- Types that lie in the root are given a package to import. -/
theorem specifiers_may_not_resolve :
    ¬∀ (text : String) (settings : Settings) (origin target : ArtifactKind) (stem : String),
      read text = .ok settings → settings.Resolves origin target stem := by
  intro right
  have parsed : Json.Tree.read? "\x7b\"typesDir\":\"/\"\x7d" =
      some (.object [(some "typesDir", .scalar (.text (some "/")))]) := by cbv
  have accepted : read "\x7b\"typesDir\":\"/\"\x7d" = .ok { usual with typesDirectory := "/" } :=
    read_of_tree parsed rfl (by decide)
  have resolved := right _ _ .types .validation "user" accepted
  have absolute : isRelative (relativeModule "/" "validation" "user") = false := by decide
  exact absurd resolved.relative (absolute ▸ Bool.false_ne_true)

example : Path.placeFrom? "./types" (relativeModule "./types" "validation" "user") = none := by
  decide

end Settings
end SchemaCompiler
