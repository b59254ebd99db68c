import SchemaCompiler.Proofs.Column.Chains

/-
The order of the two chains of a column.

A chain is fixed by its links and their order.  Both chains hold the links for which there
is a reason, in ascending order of ranks, so that of each rank there is at most one.  What
says that a value may be null or left out is of the highest rank in its chain, which is why
it is enough to look for it at the end.
-/

namespace SchemaCompiler

/-- The place of a modifier in the order of a storage chain. -/
def StorageModifier.rank : StorageModifier → Nat
  | notNull => 0
  | fallback _ | fallbackNow => 1
  | unique => 2
  | primaryKey => 3
  | references _ _ _ _ => 4

namespace Column

/-- Each chain has the links that there is a reason for, in order, and its last link tells
whether it has one that says that a value may be missing. -/
structure ChainsInOrder (column : Column) (table : Table) (enumerations : List Enumeration) :
    Prop where
  modifiers_ascend : (column.storage table enumerations).modifiers.Pairwise
    fun earlier later => earlier.rank < later.rank
  modifier_iff (modifier : StorageModifier) :
    modifier ∈ (column.storage table enumerations).modifiers ↔ column.Carries table modifier
  /-- A column that counts up has none of the first three kinds. -/
  counting_bare (modifier : StorageModifier) : column.type = .autoIncrement →
    modifier ∈ (column.storage table enumerations).modifiers →
      StorageModifier.unique.rank < modifier.rank
  refinements_ascend : (column.validation enumerations).refinements.Pairwise
    fun earlier later => earlier.rank < later.rank
  refinement_iff (refinement : Refinement) :
    refinement ∈ (column.validation enumerations).refinements ↔
      column.Demands enumerations refinement
  nullable_iff : .nullable ∈ (column.validation enumerations).refinements ↔
    column.isNullable = true
  optional_iff : .optional ∈ (column.validation enumerations).refinements ↔
    column.isNullable = false ∧ column.isRequired = false ∧ column.fallback = none
  ends_nullable_iff : (column.validation enumerations).isNullable = true ↔
    .nullable ∈ (column.validation enumerations).refinements
  ends_optional_iff : (column.validation enumerations).isOptional = true ↔
    .optional ∈ (column.validation enumerations).refinements

section Storage

variable (column : Column) (table : Table) (enumerations : List Enumeration)

theorem ascends_storageDefault : Ascends StorageModifier.rank 1 2 column.storageDefault := by
  unfold storageDefault
  split
  · exact .nil
  · exact .singleton (by decide)
  · exact .singleton ⟨Nat.le_refl 1, Nat.lt_succ_self 1⟩
  · refine .ite (.singleton ?_) (.singleton ?_)
    · exact ⟨Nat.le_refl 1, Nat.lt_succ_self 1⟩
    · exact ⟨Nat.le_refl 1, Nat.lt_succ_self 1⟩
  · exact .singleton ⟨Nat.le_refl 1, Nat.lt_succ_self 1⟩

theorem ascends_storageConstraints :
    Ascends StorageModifier.rank 0 3 column.storageConstraints := by
  have filled : Ascends StorageModifier.rank 0 1 (if column.isNullable then [] else [.notNull]) :=
    .ite .nil (.singleton (by decide))
  have distinct : Ascends StorageModifier.rank 2 3 (if column.unique then [.unique] else []) :=
    .ite (.singleton (by decide)) .nil
  have given := filled.append column.ascends_storageDefault (by decide)
  exact .ite .nil (given.append distinct (by decide))

theorem ascends_storageKey : Ascends StorageModifier.rank 3 4 (column.storageKey table) :=
  .ite (.singleton (by decide)) .nil

theorem ascends_storageReference :
    Ascends StorageModifier.rank 4 5 (column.storageReference table) := by
  unfold storageReference
  apply Ascends.toList_map
  intro reference
  rfl

/-- The modifiers of the storage chain are in order, and no two are of one rank. -/
theorem ascends_modifiers :
    Ascends StorageModifier.rank 0 5 (column.storage table enumerations).modifiers := by
  have keyed := column.ascends_storageConstraints.append (column.ascends_storageKey table)
    (by decide)
  exact keyed.append (column.ascends_storageReference table) (by decide)

theorem rank_of_counting {modifier : StorageModifier} (counts : column.type = .autoIncrement)
    (carried : column.Carries table modifier) :
    StorageModifier.unique.rank < modifier.rank := by
  cases carried with
  | notNull given => exact absurd counts given
  | fallback given => exact absurd counts given
  | fallbackNow given => exact absurd counts given
  | unique given => exact absurd counts given
  | primaryKey => decide
  | references => exact Nat.lt_add_of_pos_right Nat.two_pos

end Storage

theorem chains_in_order (column : Column) (table : Table) (enumerations : List Enumeration) :
    column.ChainsInOrder table enumerations where
  modifiers_ascend := (column.ascends_modifiers table enumerations).ordered
  modifier_iff _ := mem_modifiers_iff
  counting_bare modifier counts member :=
    column.rank_of_counting table counts (mem_modifiers_iff.mp member)
  refinements_ascend := (column.ascends_refinements enumerations).ordered
  refinement_iff _ := mem_refinements_iff
  nullable_iff := nullable_mem_iff
  optional_iff := by
    rw [← column.isOptional_iff_mem enumerations, column.isOptional_validation enumerations,
      hasDefault, Option.isSome_eq_false_iff, Option.isNone_iff_eq_none]
  ends_nullable_iff := by
    rw [column.isNullable_validation enumerations, nullable_mem_iff]
  ends_optional_iff := column.isOptional_iff_mem enumerations

end Column
end SchemaCompiler
