import Mathlib
import SchemaCompiler.Proofs.Text.Bytes
import SchemaCompiler.TypeScript.Import

/-
The lines of an import block.

Imports are noted one by one while a file is put together, in an order that depends on its
columns and relations, and often more than once.  What is written is determined by which
imports there are: sources and symbols are put in ascending order first, and a list in
ascending order is known by its members.
-/

namespace SchemaCompiler

theorem Text.concat_append (first second : List String) :
    concat (first ++ second) = concat first ++ concat second := by
  induction first with
  | nil => exact String.empty_append.symm
  | cons s rest ih => rw [List.cons_append, concat, concat, ih, String.append_assoc]

namespace TypeScript

/-! ### Ascending texts -/

section Ascending

variable {s t : String} {texts : List String}

theorem mem_insertOnce : t ∈ insertOnce s texts ↔ t = s ∨ t ∈ texts := by
  induction texts with
  | nil => exact List.mem_cons
  | cons first rest ih =>
      unfold insertOnce
      split_ifs with before after
      · exact List.mem_cons
      · rw [List.mem_cons, ih, List.mem_cons, or_left_comm]
      · obtain rfl : s = first := le_antisymm (not_lt.mp after) (not_lt.mp before)
        rw [List.mem_cons, or_self_left]

theorem pairwise_insertOnce (ordered : texts.Pairwise (· < ·)) :
    (insertOnce s texts).Pairwise (· < ·) := by
  induction texts with
  | nil => exact List.pairwise_singleton _ s
  | cons first rest ih =>
      obtain ⟨least, others⟩ := List.pairwise_cons.mp ordered
      unfold insertOnce
      split_ifs with before after
      · refine List.pairwise_cons.mpr ⟨?_, ordered⟩
        exact List.forall_mem_cons.mpr ⟨before, fun t member => before.trans (least t member)⟩
      · refine List.pairwise_cons.mpr ⟨?_, ih others⟩
        intro t member
        rcases mem_insertOnce.mp member with rfl | later
        · exact after
        · exact least t later
      · exact ordered

theorem mem_ascending : t ∈ ascending texts ↔ t ∈ texts := by
  induction texts with
  | nil => rfl
  | cons first rest ih =>
      show t ∈ insertOnce first (ascending rest) ↔ _
      rw [mem_insertOnce, ih, List.mem_cons]

theorem pairwise_ascending (texts : List String) : (ascending texts).Pairwise (· < ·) := by
  induction texts with
  | nil => exact List.Pairwise.nil
  | cons first rest ih => exact pairwise_insertOnce ih

/-- Texts in ascending order are known by their members. -/
theorem ascending_congr {others : List String} (same : ∀ t, t ∈ texts ↔ t ∈ others) :
    ascending texts = ascending others := by
  have reordered : (ascending texts).Perm (ascending others) := by
    rw [List.perm_ext_iff_of_nodup (pairwise_ascending texts).nodup
      (pairwise_ascending others).nodup]
    intro t
    rw [mem_ascending, mem_ascending, same]
  apply List.Perm.eq_of_pairwise _ (pairwise_ascending texts) (pairwise_ascending others) reordered
  intro first second _ _ less greater
  exact absurd greater less.asymm

end Ascending

/-! ### Lines -/

/-- A line of an import block: the kind of import, the source, and the symbols. -/
structure ImportLine where
  typeOnly : Bool
  source : String
  symbols : List String

/-- The text of a line. -/
def ImportLine.text (line : ImportLine) : String :=
  (if line.typeOnly then "import type \x7b " else "import \x7b ")
    ++ Text.separated ", " line.symbols ++ " \x7d from '" ++ line.source ++ "';\n"

/-- The lines in which imports are laid out. -/
structure LaidOut (imports : List Import) (lines : List ImportLine) : Prop where
  written : Imports.render imports =
    Text.concat (lines.map ImportLine.text) ++ (if lines = [] then "" else "\n")
  line_once : (lines.map fun line => (line.typeOnly, line.source)).Nodup
  line_needed : ∀ line ∈ lines, line.symbols ≠ []
  listed_iff (entry : Import) : entry ∈ imports ↔
    ∃ line ∈ lines, line.typeOnly = entry.typeOnly ∧ line.source = entry.source ∧
      entry.symbol ∈ line.symbols
  symbols_ascend : ∀ line ∈ lines, line.symbols.Pairwise fun earlier later =>
    Text.bytes earlier < Text.bytes later
  packages_first : lines.Pairwise fun earlier later =>
    isRelative earlier.source = true → isRelative later.source = true
  sources_ascend : lines.Pairwise fun earlier later =>
    isRelative earlier.source = isRelative later.source → earlier.source ≠ later.source →
      Text.bytes earlier.source < Text.bytes later.source
  types_follow : ∀ values ∈ lines, ∀ types ∈ lines, values.typeOnly = false →
    types.typeOnly = true → values.source = types.source →
      ∃ before after, lines = before ++ values :: types :: after

namespace Imports

variable {imports : List Import} {typeOnly : Bool} {source : String}

theorem mem_sources : source ∈ sources imports ↔ ∃ entry ∈ imports, entry.source = source := by
  rw [sources, List.mem_append, List.mem_filter, List.mem_filter, ← and_or_left, mem_ascending,
    List.mem_map, and_iff_left_iff_imp]
  intro _
  cases isRelative source <;> simp

theorem mem_symbols {symbol : String} :
    symbol ∈ symbols imports typeOnly source ↔ ⟨typeOnly, source, symbol⟩ ∈ imports := by
  rw [symbols, mem_ascending, List.mem_map]
  constructor
  · rintro ⟨entry, member, rfl⟩
    simp only [List.mem_filter, Bool.and_eq_true, beq_iff_eq] at member
    obtain ⟨noted, rfl, rfl⟩ := member
    exact noted
  · intro noted
    exact ⟨_, List.mem_filter.mpr ⟨noted, by simp⟩, rfl⟩

/-- Which source comes before which: packages before files, and else the smaller one. -/
def Precedes (earlier later : String) : Prop :=
  (isRelative earlier = true → isRelative later = true) ∧
    (isRelative earlier = isRelative later → earlier < later)

theorem Precedes.ne {earlier later : String} (precedes : Precedes earlier later) :
    earlier ≠ later := by
  rintro rfl
  exact lt_irrefl _ (precedes.2 rfl)

theorem pairwise_sources (imports : List Import) : (sources imports).Pairwise Precedes := by
  have ordered := pairwise_ascending (imports.map Import.source)
  rw [sources, List.pairwise_append]
  refine ⟨?_, ?_, ?_⟩
  · refine (ordered.filter _).imp_of_mem ?_
    intro earlier later inEarlier _ less
    have package := (List.mem_filter.mp inEarlier).2
    exact ⟨fun relative => by simp [relative] at package, fun _ => less⟩
  · refine (ordered.filter _).imp_of_mem ?_
    intro earlier later _ inLater less
    exact ⟨fun _ => (List.mem_filter.mp inLater).2, fun _ => less⟩
  · intro earlier inEarlier later inLater
    have package := (List.mem_filter.mp inEarlier).2
    have file := (List.mem_filter.mp inLater).2
    exact ⟨fun _ => file, fun same => by simp [same, file] at package⟩

/-- The line for one kind of import from one source, if there are any. -/
def importLine? (imports : List Import) (typeOnly : Bool) (source : String) : Option ImportLine :=
  if symbols imports typeOnly source = [] then none
  else some ⟨typeOnly, source, symbols imports typeOnly source⟩

/-- The lines for one source. -/
def linesFrom (imports : List Import) (source : String) : List ImportLine :=
  (importLine? imports false source).toList ++ (importLine? imports true source).toList

/-- The lines of imports. -/
def lines (imports : List Import) : List ImportLine :=
  (sources imports).flatMap (linesFrom imports)

theorem importLine?_eq_some_iff {line : ImportLine} :
    importLine? imports typeOnly source = some line ↔
      symbols imports typeOnly source ≠ [] ∧
        line = ⟨typeOnly, source, symbols imports typeOnly source⟩ := by
  unfold importLine?
  split_ifs with none
  · simp [none]
  · simp [none, eq_comm]

theorem mem_linesFrom {line : ImportLine} : line ∈ linesFrom imports source ↔
    line.source = source ∧ line.symbols ≠ [] ∧
      line.symbols = symbols imports line.typeOnly source := by
  rw [linesFrom, List.mem_append, Option.mem_toList, Option.mem_toList, importLine?_eq_some_iff,
    importLine?_eq_some_iff]
  constructor
  · rintro (⟨some, rfl⟩ | ⟨some, rfl⟩)
    · exact ⟨rfl, some, rfl⟩
    · exact ⟨rfl, some, rfl⟩
  · obtain ⟨typeOnly, own, found⟩ := line
    rintro ⟨same, some, listed⟩
    dsimp only at same some listed
    subst same listed
    cases typeOnly with
    | false => exact .inl ⟨some, rfl⟩
    | true => exact .inr ⟨some, rfl⟩

theorem mem_lines {line : ImportLine} : line ∈ lines imports ↔
    line.symbols ≠ [] ∧ line.symbols = symbols imports line.typeOnly line.source := by
  rw [lines, List.mem_flatMap]
  constructor
  · rintro ⟨source, _, member⟩
    obtain ⟨rfl, some, listed⟩ := mem_linesFrom.mp member
    exact ⟨some, listed⟩
  · rintro ⟨some, listed⟩
    obtain ⟨symbol, member⟩ := List.exists_mem_of_ne_nil _ some
    rw [listed, mem_symbols] at member
    exact ⟨line.source, mem_sources.mpr ⟨_, member, rfl⟩, mem_linesFrom.mpr ⟨rfl, some, listed⟩⟩

theorem line_eq (imports : List Import) (typeOnly : Bool) (source : String) :
    line imports typeOnly source =
      (importLine? imports typeOnly source).elim "" ImportLine.text := by
  unfold line importLine?
  split
  · next none => rw [if_pos none]; rfl
  · next some => rw [if_neg some]; rfl

theorem linesFrom_ne_nil (noted : source ∈ sources imports) : linesFrom imports source ≠ [] := by
  obtain ⟨entry, member, rfl⟩ := mem_sources.mp noted
  have listed : entry.symbol ∈ symbols imports entry.typeOnly entry.source :=
    mem_symbols.mpr member
  have line : ⟨entry.typeOnly, entry.source, symbols imports entry.typeOnly entry.source⟩ ∈
      linesFrom imports entry.source :=
    mem_linesFrom.mpr ⟨rfl, List.ne_nil_of_mem listed, rfl⟩
  exact List.ne_nil_of_mem line

theorem lines_eq_nil_iff : lines imports = [] ↔ sources imports = [] := by
  constructor
  · intro empty
    by_contra given
    obtain ⟨source, noted⟩ := List.exists_mem_of_ne_nil _ given
    exact linesFrom_ne_nil noted (List.flatMap_eq_nil_iff.mp empty source noted)
  · intro empty
    rw [lines, empty, List.flatMap_nil]

theorem concat_linesFrom (imports : List Import) (source : String) :
    Text.concat ((linesFrom imports source).map ImportLine.text) =
      line imports false source ++ line imports true source := by
  rw [line_eq, line_eq, linesFrom]
  cases importLine? imports false source <;> cases importLine? imports true source <;>
    simp [Text.concat]

theorem concat_lines (imports : List Import) :
    Text.concat ((lines imports).map ImportLine.text) =
      Text.concat ((sources imports).map fun source =>
        line imports false source ++ line imports true source) := by
  rw [lines]
  induction sources imports with
  | nil => rfl
  | cons source rest ih =>
      rw [List.flatMap_cons, List.map_append, Text.concat_append, ih, concat_linesFrom]
      rfl

theorem render_eq (imports : List Import) : render imports =
    Text.concat ((lines imports).map ImportLine.text) ++
      (if lines imports = [] then "" else "\n") := by
  rw [concat_lines]
  simp only [lines_eq_nil_iff]
  unfold render
  split
  · next none => simp [none, Text.concat]
  · next some => rw [if_neg some]

/-- Two lines for one source are for different kinds of import. -/
theorem pairwise_linesFrom (imports : List Import) (source : String) :
    (linesFrom imports source).Pairwise fun earlier later =>
      earlier.source = later.source ∧ earlier.typeOnly = false ∧ later.typeOnly = true := by
  unfold linesFrom importLine?
  split_ifs <;> simp

theorem pairwise_lines (imports : List Import) :
    (lines imports).Pairwise fun earlier later =>
      Precedes earlier.source later.source ∨
        earlier.source = later.source ∧ earlier.typeOnly = false ∧ later.typeOnly = true := by
  rw [lines, List.pairwise_flatMap]
  constructor
  · intro source _
    exact (pairwise_linesFrom imports source).imp .inr
  · refine (pairwise_sources imports).imp ?_
    intro earlier later precedes first inEarlier second inLater
    rw [(mem_linesFrom.mp inEarlier).1, (mem_linesFrom.mp inLater).1]
    exact .inl precedes

theorem linesFrom_of_both {values types : ImportLine} (inValues : values ∈ linesFrom imports source)
    (inTypes : types ∈ linesFrom imports source) (ofValues : values.typeOnly = false)
    (ofTypes : types.typeOnly = true) : linesFrom imports source = [values, types] := by
  obtain ⟨own, someValues, listedValues⟩ := mem_linesFrom.mp inValues
  obtain ⟨same, someTypes, listedTypes⟩ := mem_linesFrom.mp inTypes
  have first : importLine? imports false source = some values := by
    rw [importLine?_eq_some_iff, ← ofValues, ← listedValues]
    exact ⟨someValues, by rw [← own]⟩
  have second : importLine? imports true source = some types := by
    rw [importLine?_eq_some_iff, ← ofTypes, ← listedTypes]
    exact ⟨someTypes, by rw [← same]⟩
  rw [linesFrom, first, second]
  rfl

theorem laidOut_lines (imports : List Import) : LaidOut imports (lines imports) where
  written := render_eq imports
  line_once := by
    refine List.pairwise_map.mpr ((pairwise_lines imports).imp ?_)
    rintro earlier later (precedes | ⟨_, values, types⟩) same
    · exact precedes.ne (Prod.mk.inj same).2
    · have kinds := (Prod.mk.inj same).1
      rw [values, types] at kinds
      cases kinds
  line_needed line member := (mem_lines.mp member).1
  listed_iff entry := by
    constructor
    · intro noted
      have listed := mem_symbols.mpr noted
      exact ⟨⟨entry.typeOnly, entry.source, _⟩, mem_lines.mpr ⟨List.ne_nil_of_mem listed, rfl⟩,
        rfl, rfl, listed⟩
    · rintro ⟨line, member, kind, source, listed⟩
      rw [(mem_lines.mp member).2, kind, source] at listed
      exact mem_symbols.mp listed
  symbols_ascend line member := by
    rw [(mem_lines.mp member).2]
    exact (pairwise_ascending _).imp Text.bytes_lt_of_lt
  packages_first := by
    refine (pairwise_lines imports).imp ?_
    rintro earlier later (precedes | ⟨same, _⟩)
    · exact precedes.1
    · exact fun relative => same ▸ relative
  sources_ascend := by
    refine (pairwise_lines imports).imp ?_
    rintro earlier later (precedes | ⟨same, _⟩) alike differ
    · exact Text.bytes_lt_of_lt (precedes.2 alike)
    · exact absurd same differ
  types_follow values inValues types inTypes ofValues ofTypes same := by
    obtain ⟨source, noted, fromSource⟩ := List.mem_flatMap.mp inValues
    obtain ⟨other, _, fromOther⟩ := List.mem_flatMap.mp inTypes
    obtain rfl : source = other := by
      rw [← (mem_linesFrom.mp fromSource).1, same, (mem_linesFrom.mp fromOther).1]
    obtain ⟨before, after, split⟩ := List.append_of_mem noted
    refine ⟨before.flatMap (linesFrom imports), after.flatMap (linesFrom imports), ?_⟩
    rw [lines, split, List.flatMap_append, List.flatMap_cons,
      linesFrom_of_both fromSource fromOther ofValues ofTypes]
    rfl

theorem sources_congr {first second : List Import}
    (same : ∀ entry, entry ∈ first ↔ entry ∈ second) : sources first = sources second := by
  have mapped : ∀ source, source ∈ first.map Import.source ↔ source ∈ second.map Import.source := by
    intro source
    simp only [List.mem_map, same]
  simp only [sources, ascending_congr mapped]

theorem symbols_congr {first second : List Import}
    (same : ∀ entry, entry ∈ first ↔ entry ∈ second) (typeOnly : Bool) (source : String) :
    symbols first typeOnly source = symbols second typeOnly source := by
  apply ascending_congr
  intro symbol
  simp only [List.mem_map, List.mem_filter, same]

/-- What is written depends only on which imports were noted, and it is laid out in lines. -/
theorem block_of_noted {first second : List Import}
    (same : ∀ entry, entry ∈ first ↔ entry ∈ second) :
    render first = render second ∧ ∃ lines, LaidOut first lines := by
  refine ⟨?_, lines first, laidOut_lines first⟩
  unfold render line
  simp only [sources_congr same, symbols_congr same]

/-- The imports of a table with a reference to itself, as its file notes them. -/
def ofMenu : List Import :=
  [.value "drizzle-orm/pg-core" "pgTable", .value "drizzle-orm/pg-core" "serial",
    .value "drizzle-orm/pg-core" "integer", .type "drizzle-orm/pg-core" "AnyPgColumn",
    .value "./guest" "guests", .value "./enums" "courseEnum"]

theorem block_of_noted_menu : (∀ entry, entry ∈ ofMenu ↔ entry ∈ ofMenu.reverse ++ ofMenu) ∧
    render ofMenu = render (ofMenu.reverse ++ ofMenu) ∧ ∃ lines, LaidOut ofMenu lines := by
  have same : ∀ entry, entry ∈ ofMenu ↔ entry ∈ ofMenu.reverse ++ ofMenu := by
    intro entry
    rw [List.mem_append, List.mem_reverse, or_self]
  exact ⟨same, block_of_noted same⟩

example : render ofMenu =
    "import \x7b integer, pgTable, serial \x7d from 'drizzle-orm/pg-core';\n"
      ++ "import type \x7b AnyPgColumn \x7d from 'drizzle-orm/pg-core';\n"
      ++ "import \x7b courseEnum \x7d from './enums';\n"
      ++ "import \x7b guests \x7d from './guest';\n\n" := by
  cbv

end Imports
end TypeScript
end SchemaCompiler
