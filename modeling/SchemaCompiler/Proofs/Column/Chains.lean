import SchemaCompiler.Column.Storage
import SchemaCompiler.Column.Validation

/-
The links of the two chains of a column.

Why a modifier stands in the storage chain is said once, one reason for each
modifier.  In the validation chain, only what comes last can say that a value may be
null or may be left out, so the questions that look at the last link alone miss
nothing.

A chain is put together from pieces, each of which takes up a range of ranks after the
pieces before it.
-/

namespace SchemaCompiler

/-- Links in strictly ascending order of their ranks, which lie from `low` up to below
`high`. -/
structure Ascends {α : Type} (rank : α → Nat) (low high : Nat) (links : List α) : Prop where
  ordered : links.Pairwise fun earlier later => rank earlier < rank later
  within (link : α) : link ∈ links → low ≤ rank link ∧ rank link < high

namespace Ascends

variable {α β : Type} {rank : α → Nat} {low middle high : Nat}

theorem nil : Ascends rank low high [] where
  ordered := .nil
  within _ member := by cases member

theorem singleton {link : α} (ranked : low ≤ rank link ∧ rank link < high) :
    Ascends rank low high [link] where
  ordered := List.pairwise_singleton _ link
  within _ member := List.mem_singleton.mp member ▸ ranked

theorem ite {condition : Prop} [Decidable condition] {first second : List α}
    (ifTrue : Ascends rank low high first) (ifFalse : Ascends rank low high second) :
    Ascends rank low high (if condition then first else second) := by
  split
  · exact ifTrue
  · exact ifFalse

theorem toList_map {link : β → α} (ranked : ∀ b, rank (link b) = low) (option : Option β) :
    Ascends rank low (low + 1) (option.toList.map link) := by
  cases option with
  | none => exact nil
  | some b =>
      apply singleton
      rw [ranked b]
      exact ⟨Nat.le_refl low, Nat.lt_succ_self low⟩

/-- Pieces can be put together where the ranks of the second begin at those that the first
leaves off. -/
theorem append {first second : List α} (before : Ascends rank low middle first)
    (after : Ascends rank middle high second) (apart : low ≤ middle ∧ middle ≤ high) :
    Ascends rank low high (first ++ second) where
  ordered := by
    apply List.pairwise_append.mpr
    refine ⟨before.ordered, after.ordered, ?_⟩
    intro earlier inFirst later inSecond
    have below := (before.within earlier inFirst).2
    have above := (after.within later inSecond).1
    omega
  within link member := by
    rcases List.mem_append.mp member with inFirst | inSecond
    · have ranked := before.within link inFirst
      omega
    · have ranked := after.within link inSecond
      omega

/-- What is of the highest rank stands last. -/
theorem getLast?_eq {links : List α} {link : α} (ascends : Ascends rank low (rank link + 1) links)
    (member : link ∈ links) : links.getLast? = some link := by
  rcases List.eq_nil_or_concat links with rfl | ⟨earlier, last, rfl⟩
  · cases member
  · rw [List.concat_eq_append] at ascends member ⊢
    rcases List.mem_append.mp member with inEarlier | isLast
    · have below := (ascends.within last (List.mem_append_right _ List.mem_cons_self)).2
      have above := (List.pairwise_append.mp ascends.ordered).2.2 link inEarlier last
        List.mem_cons_self
      omega
    · rw [List.getLast?_concat, List.mem_singleton.mp isLast]

end Ascends

theorem ColumnType.isAutoIncrement_eq_true_iff {type : ColumnType} :
    type.isAutoIncrement = true ↔ type = .autoIncrement := by
  cases type <;> simp [isAutoIncrement]

namespace Column

/-- The reasons for which a storage column has a modifier. -/
inductive Carries (column : Column) (table : Table) : StorageModifier → Prop
  | notNull (given : column.type ≠ .autoIncrement) (filled : column.isNullable = false) :
      Carries column table .notNull
  | fallback {literal : String} (given : column.type ≠ .autoIncrement)
      (written : .fallback literal ∈ column.storageDefault) :
      Carries column table (.fallback literal)
  | fallbackNow (given : column.type ≠ .autoIncrement)
      (stamped : .fallbackNow ∈ column.storageDefault) :
      Carries column table .fallbackNow
  | unique (given : column.type ≠ .autoIncrement) (distinct : column.unique = true) :
      Carries column table .unique
  | primaryKey (single : table.compositeKey? = none) (isKey : table.isKey column.name = true) :
      Carries column table .primaryKey
  | references {reference : ForeignKey} (refers : column.reference = some reference) :
      Carries column table
        (.references (Name.camel reference.table) (Name.camel reference.column)
          (if reference.onDelete = .noAction then none else some reference.onDelete)
          (reference.table == table.name))

section Storage

variable {column : Column} {table : Table} {enumerations : List Enumeration}
  {modifier : StorageModifier}

theorem isDefault_of_mem_storageDefault (member : modifier ∈ column.storageDefault) :
    modifier = .fallbackNow ∨ ∃ literal, modifier = .fallback literal := by
  unfold storageDefault at member
  split at member
  · cases member
  · exact .inl (List.mem_singleton.mp member)
  · exact .inr ⟨_, List.mem_singleton.mp member⟩
  · split at member
    · exact .inr ⟨_, List.mem_singleton.mp member⟩
    · exact .inr ⟨_, List.mem_singleton.mp member⟩
  · exact .inr ⟨_, List.mem_singleton.mp member⟩

theorem storageDefault_of_none (absent : column.fallback = none) :
    column.storageDefault = [] := by
  rw [storageDefault, absent]

theorem carries_of_mem_storageConstraints (member : modifier ∈ column.storageConstraints) :
    column.Carries table modifier := by
  unfold storageConstraints at member
  split at member
  case isTrue => cases member
  case isFalse counting =>
    have given : column.type ≠ .autoIncrement := fun counts =>
      counting (ColumnType.isAutoIncrement_eq_true_iff.mpr counts)
    rcases List.mem_append.mp member with earlier | isUnique
    · rcases List.mem_append.mp earlier with isNotNull | isDefault
      · split at isNotNull
        case isTrue => cases isNotNull
        case isFalse filled =>
          rw [List.mem_singleton.mp isNotNull]
          exact .notNull given (Bool.not_eq_true _ ▸ filled)
      · rcases isDefault_of_mem_storageDefault isDefault with rfl | ⟨literal, rfl⟩
        · exact .fallbackNow given isDefault
        · exact .fallback given isDefault
    · split at isUnique
      case isTrue distinct =>
        rw [List.mem_singleton.mp isUnique]
        exact .unique given distinct
      case isFalse => cases isUnique

/-- A modifier stands in the chain exactly when there is a reason for it. -/
theorem mem_modifiers_iff :
    modifier ∈ (column.storage table enumerations).modifiers ↔ column.Carries table modifier := by
  simp only [storage, List.mem_append, or_assoc]
  constructor
  · rintro (inConstraints | isKey | isReference)
    · exact carries_of_mem_storageConstraints inConstraints
    · unfold storageKey at isKey
      split at isKey
      case isTrue holds =>
        rw [Bool.and_eq_true, Option.isNone_iff_eq_none] at holds
        rw [List.mem_singleton.mp isKey]
        exact .primaryKey holds.1 holds.2
      case isFalse => cases isKey
    · obtain ⟨reference, refers, rfl⟩ := List.mem_map.mp isReference
      exact .references (Option.mem_toList.mp refers)
  · have constrained (given : column.type ≠ .autoIncrement) :
        column.storageConstraints = (if column.isNullable then [] else [.notNull])
          ++ column.storageDefault ++ if column.unique then [.unique] else [] := by
      rw [storageConstraints, if_neg]
      exact fun counts => given (ColumnType.isAutoIncrement_eq_true_iff.mp counts)
    intro carried
    cases carried with
    | notNull given filled =>
        rw [constrained given, filled]
        exact .inl List.mem_cons_self
    | fallback given written =>
        rw [constrained given]
        exact .inl (List.mem_append_left _ (List.mem_append_right _ written))
    | fallbackNow given stamped =>
        rw [constrained given]
        exact .inl (List.mem_append_left _ (List.mem_append_right _ stamped))
    | unique given distinct =>
        rw [constrained given, distinct]
        exact .inl (List.mem_append_right _ List.mem_cons_self)
    | primaryKey single isKey =>
        rw [storageKey, single, isKey]
        exact .inr (.inl List.mem_cons_self)
    | references refers =>
        rw [storageReference, refers]
        exact .inr (.inr List.mem_cons_self)

theorem notNull_mem_iff : .notNull ∈ (column.storage table enumerations).modifiers ↔
    column.type ≠ .autoIncrement ∧ column.isNullable = false := by
  rw [mem_modifiers_iff]
  constructor
  · intro carried
    cases carried with
    | notNull given filled => exact ⟨given, filled⟩
  · rintro ⟨given, filled⟩
    exact .notNull given filled

theorem fallback_mem_storage_iff {literal : String} :
    .fallback literal ∈ (column.storage table enumerations).modifiers ↔
      column.type ≠ .autoIncrement ∧ .fallback literal ∈ column.storageDefault := by
  rw [mem_modifiers_iff]
  constructor
  · intro carried
    cases carried with
    | fallback given written => exact ⟨given, written⟩
  · rintro ⟨given, written⟩
    exact .fallback given written

theorem primaryKey_mem_iff : .primaryKey ∈ (column.storage table enumerations).modifiers ↔
    table.compositeKey? = none ∧ table.isKey column.name = true := by
  rw [mem_modifiers_iff]
  constructor
  · intro carried
    cases carried with
    | primaryKey single isKey => exact ⟨single, isKey⟩
  · rintro ⟨single, isKey⟩
    exact .primaryKey single isKey

theorem not_mem_of_no_default (absent : column.fallback = none) :
    (∀ literal, .fallback literal ∉ (column.storage table enumerations).modifiers) ∧
      .fallbackNow ∉ (column.storage table enumerations).modifiers := by
  have none := storageDefault_of_none absent
  simp only [mem_modifiers_iff]
  constructor
  · intro literal carried
    cases carried with
    | fallback _ written =>
        rw [none] at written
        cases written
  · intro carried
    cases carried with
    | fallbackNow _ stamped =>
        rw [none] at stamped
        cases stamped

end Storage

end Column

theorem ColumnType.isInteger_eq_true_iff {type : ColumnType} :
    type.isInteger = true ↔ type = .integer ∨ type = .autoIncrement := by
  cases type <;> simp [isInteger]

namespace Column

/-- The reasons for which a validation chain has a link. -/
inductive Demands (column : Column) (enumerations : List Enumeration) : Refinement → Prop
  | email (plain : column.type.isText = true) (asked : column.rules.email = true) :
      Demands column enumerations .email
  | url (plain : column.type.isText = true) (asked : column.rules.url = true) :
      Demands column enumerations .url
  | least {x : Decimal.Binary64} (counts : column.type.isInteger = true)
      (bounded : column.rules.min = some x) :
      Demands column enumerations (.min (TypeScript.bound x))
  | greatest {x : Decimal.Binary64} (counts : column.type.isInteger = true)
      (bounded : column.rules.max = some x) :
      Demands column enumerations (.max (TypeScript.bound x))
  | atLeast {x : Decimal.Binary64} (decimal : column.type = .decimal)
      (bounded : column.rules.min = some x) :
      Demands column enumerations (.atLeast (TypeScript.bound x))
  | atMost {x : Decimal.Binary64} (decimal : column.type = .decimal)
      (bounded : column.rules.max = some x) :
      Demands column enumerations (.atMost (TypeScript.bound x))
  | shortest {n : Nat} (plain : column.type.isText = true)
      (bounded : column.rules.minLength = some n) :
      Demands column enumerations (.min (Decimal.natText n))
  | longest {n : Nat} (plain : column.type.isText = true)
      (bounded : column.rules.maxLength.or column.length = some n) :
      Demands column enumerations (.max (Decimal.natText n))
  | regex {pattern : String}
      (textual : (column.validationBase enumerations).isTextual = true)
      (given : column.rules.pattern = some pattern) :
      Demands column enumerations (.regex pattern)
  | fallback {literal : String}
      (written : column.fallback.bind (validationLiteral? (column.validationBase enumerations)) =
        some literal) :
      Demands column enumerations (.fallback literal)
  | nullable (accepts : column.isNullable = true) : Demands column enumerations .nullable
  | optional (filled : column.isNullable = false) (waived : column.isRequired = false)
      (bare : column.hasDefault = false) : Demands column enumerations .optional

section Reasons

variable {column : Column} {enumerations : List Enumeration} {refinement : Refinement}

/-- The types whose base checks take truth values, numbers, dates and decimals. -/
theorem validationBase_eq_iff :
    (column.validationBase enumerations = .boolean ↔ column.type = .boolean) ∧
      (column.validationBase enumerations = .integer ↔
        column.type = .integer ∨ column.type = .autoIncrement) ∧
      (column.validationBase enumerations = .date ↔
        column.type = .date ∨ column.type = .dateTime) ∧
      (column.validationBase enumerations = .decimal ↔ column.type = .decimal) := by
  unfold validationBase
  cases column.type with
  | named tag =>
      dsimp only
      cases Enumeration.ofTag? tag enumerations with
      | none => simp
      | some enumeration => simp
  | _ => simp

theorem validationBase_eq_integer_iff :
    column.validationBase enumerations = .integer ↔ column.type.isInteger = true :=
  validationBase_eq_iff.2.1.trans ColumnType.isInteger_eq_true_iff.symm

theorem validationBase_eq_decimal_iff :
    column.validationBase enumerations = .decimal ↔ column.type = .decimal :=
  validationBase_eq_iff.2.2.2

theorem boundRefinements_of_integer (counts : column.type.isInteger = true) :
    column.boundRefinements (column.validationBase enumerations) =
      column.rules.min.toList.map (fun x => .min (TypeScript.bound x)) ++
        column.rules.max.toList.map fun x => .max (TypeScript.bound x) := by
  rw [boundRefinements, validationBase_eq_integer_iff.mpr counts]
  rfl

theorem boundRefinements_of_decimal (decimal : column.type = .decimal) :
    column.boundRefinements (column.validationBase enumerations) =
      column.rules.min.toList.map (fun x => .atLeast (TypeScript.bound x)) ++
        column.rules.max.toList.map fun x => .atMost (TypeScript.bound x) := by
  rw [boundRefinements, validationBase_eq_decimal_iff.mpr decimal]
  rfl

theorem boundRefinements_of_text (plain : column.type.isText = true) :
    column.boundRefinements (column.validationBase enumerations) =
      column.rules.minLength.toList.map (fun n => .min (Decimal.natText n)) ++
        (column.rules.maxLength.or column.length).toList.map fun n =>
          .max (Decimal.natText n) := by
  have base : column.validationBase enumerations = .string := by
    unfold validationBase
    generalize column.type = type at plain
    cases type with
    | shortText => rfl
    | longText => rfl
    | _ => cases plain
  rw [boundRefinements, base, plain]
  rfl

theorem boundRefinements_of_other (uncounted : ¬column.type.isInteger = true)
    (whole : ¬column.type = .decimal) (other : ¬column.type.isText = true) :
    column.boundRefinements (column.validationBase enumerations) = [] := by
  rw [boundRefinements, if_neg (mt validationBase_eq_integer_iff.mp uncounted),
    if_neg (mt validationBase_eq_decimal_iff.mp whole), if_neg other]

theorem mem_bounds_iff {α : Type} {low high : Option α} {lower upper : α → Refinement} :
    refinement ∈ low.toList.map lower ++ high.toList.map upper ↔
      (∃ a, low = some a ∧ lower a = refinement) ∨ ∃ a, high = some a ∧ upper a = refinement := by
  simp only [List.mem_append, List.mem_map, Option.mem_toList]

theorem mem_defaultRefinement_iff {base : ValidationBase} :
    refinement ∈ column.defaultRefinement base ↔
      ∃ literal, column.fallback.bind (validationLiteral? base) = some literal ∧
        refinement = .fallback literal := by
  rw [defaultRefinement, Option.mem_toList, Option.map_eq_some_iff]
  simp only [eq_comm]

theorem demands_of_mem_formatRefinements (member : refinement ∈ column.formatRefinements) :
    column.Demands enumerations refinement := by
  simp only [formatRefinements, List.mem_ite_nil_right, List.mem_append,
    List.mem_singleton] at member
  rcases member with ⟨plain, ⟨asked, rfl⟩ | ⟨asked, rfl⟩⟩
  · exact .email plain asked
  · exact .url plain asked

theorem demands_of_mem_boundRefinements
    (member : refinement ∈ column.boundRefinements (column.validationBase enumerations)) :
    column.Demands enumerations refinement := by
  by_cases counts : column.type.isInteger = true
  · rw [boundRefinements_of_integer counts, mem_bounds_iff] at member
    rcases member with ⟨x, bounded, rfl⟩ | ⟨x, bounded, rfl⟩
    · exact .least counts bounded
    · exact .greatest counts bounded
  by_cases decimal : column.type = .decimal
  · rw [boundRefinements_of_decimal decimal, mem_bounds_iff] at member
    rcases member with ⟨x, bounded, rfl⟩ | ⟨x, bounded, rfl⟩
    · exact .atLeast decimal bounded
    · exact .atMost decimal bounded
  by_cases plain : column.type.isText = true
  · rw [boundRefinements_of_text plain, mem_bounds_iff] at member
    rcases member with ⟨n, bounded, rfl⟩ | ⟨n, bounded, rfl⟩
    · exact .shortest plain bounded
    · exact .longest plain bounded
  rw [boundRefinements_of_other counts decimal plain] at member
  cases member

theorem demands_of_mem_presenceRefinement (member : refinement ∈ column.presenceRefinement) :
    column.Demands enumerations refinement := by
  unfold presenceRefinement at member
  split at member
  case isTrue accepts =>
    rw [List.mem_singleton.mp member]
    exact .nullable accepts
  case isFalse filled =>
    split at member
    case isTrue absent =>
      rw [Bool.and_eq_true, Bool.not_eq_true', Bool.not_eq_true'] at absent
      rw [List.mem_singleton.mp member]
      exact .optional (Bool.not_eq_true _ ▸ filled) absent.1 absent.2
    case isFalse => cases member

/-- A link stands in the validation chain exactly when there is a reason for it. -/
theorem mem_refinements_iff :
    refinement ∈ (column.validation enumerations).refinements ↔
      column.Demands enumerations refinement := by
  simp only [validation, List.mem_append, or_assoc]
  constructor
  · intro member
    rcases member with inFormat | inBounds | inPattern | inDefault | inPresence
    · exact demands_of_mem_formatRefinements inFormat
    · exact demands_of_mem_boundRefinements inBounds
    · rw [patternRefinement, List.mem_ite_nil_right] at inPattern
      obtain ⟨textual, pattern⟩ := inPattern
      obtain ⟨_, given, rfl⟩ := List.mem_map.mp pattern
      exact .regex textual (Option.mem_toList.mp given)
    · obtain ⟨_, written, rfl⟩ := mem_defaultRefinement_iff.mp inDefault
      exact .fallback written
    · exact demands_of_mem_presenceRefinement inPresence
  · intro demanded
    cases demanded with
    | email plain asked => exact .inl (by simp [formatRefinements, plain, asked])
    | url plain asked => exact .inl (by simp [formatRefinements, plain, asked])
    | least counts bounded =>
        rw [boundRefinements_of_integer counts, mem_bounds_iff]
        exact .inr (.inl (.inl ⟨_, bounded, rfl⟩))
    | greatest counts bounded =>
        rw [boundRefinements_of_integer counts, mem_bounds_iff]
        exact .inr (.inl (.inr ⟨_, bounded, rfl⟩))
    | atLeast decimal bounded =>
        rw [boundRefinements_of_decimal decimal, mem_bounds_iff]
        exact .inr (.inl (.inl ⟨_, bounded, rfl⟩))
    | atMost decimal bounded =>
        rw [boundRefinements_of_decimal decimal, mem_bounds_iff]
        exact .inr (.inl (.inr ⟨_, bounded, rfl⟩))
    | shortest plain bounded =>
        rw [boundRefinements_of_text plain, mem_bounds_iff]
        exact .inr (.inl (.inl ⟨_, bounded, rfl⟩))
    | longest plain bounded =>
        rw [boundRefinements_of_text plain, mem_bounds_iff]
        exact .inr (.inl (.inr ⟨_, bounded, rfl⟩))
    | regex textual given => exact .inr (.inr (.inl (by simp [patternRefinement, textual, given])))
    | fallback written =>
        exact .inr (.inr (.inr (.inl (mem_defaultRefinement_iff.mpr ⟨_, written, rfl⟩))))
    | nullable accepts =>
        exact .inr (.inr (.inr (.inr (by simp [presenceRefinement, accepts]))))
    | optional filled waived bare =>
        exact .inr (.inr (.inr (.inr (by simp [presenceRefinement, filled, waived, bare]))))

/-- The chain has the literal of the default and no other. -/
theorem fallback_mem_validation_iff (column : Column) (enumerations : List Enumeration)
    {literal : String} :
    .fallback literal ∈ (column.validation enumerations).refinements ↔
      column.fallback.bind (validationLiteral? (column.validationBase enumerations)) =
        some literal := by
  rw [mem_refinements_iff]
  constructor
  · intro demanded
    cases demanded with
    | fallback written => exact written
  · exact .fallback

theorem nullable_mem_iff :
    .nullable ∈ (column.validation enumerations).refinements ↔ column.isNullable = true := by
  rw [mem_refinements_iff]
  constructor
  · intro demanded
    cases demanded with
    | nullable accepts => exact accepts
  · exact .nullable

end Reasons

end Column

/-- The place of a link in the order of a validation chain. -/
def Refinement.rank : Refinement → Nat
  | email => 0
  | url => 1
  | min _ | atLeast _ => 2
  | max _ | atMost _ => 3
  | regex _ => 4
  | fallback _ => 5
  | nullable | optional => 6

namespace Column

section Order

variable (column : Column) (base : ValidationBase) (enumerations : List Enumeration)

theorem ascends_formatRefinements : Ascends Refinement.rank 0 2 column.formatRefinements := by
  have email : Ascends Refinement.rank 0 1 (if column.rules.email then [.email] else []) :=
    .ite (.singleton (by decide)) .nil
  have url : Ascends Refinement.rank 1 2 (if column.rules.url then [.url] else []) :=
    .ite (.singleton (by decide)) .nil
  exact .ite (email.append url (by decide)) .nil

theorem ascends_boundRefinements :
    Ascends Refinement.rank 2 4 (column.boundRefinements base) := by
  have pair {α : Type} (low high : Option α) {lower upper : α → Refinement}
      (lowers : ∀ a, (lower a).rank = 2) (uppers : ∀ a, (upper a).rank = 3) :
      Ascends Refinement.rank 2 4 (low.toList.map lower ++ high.toList.map upper) := by
    have lowest : Ascends Refinement.rank 2 3 (low.toList.map lower) := .toList_map lowers low
    have highest : Ascends Refinement.rank 3 4 (high.toList.map upper) := .toList_map uppers high
    exact lowest.append highest (by decide)
  refine .ite ?_ (.ite ?_ (.ite ?_ .nil))
  · exact pair _ _ (fun _ => rfl) fun _ => rfl
  · exact pair _ _ (fun _ => rfl) fun _ => rfl
  · exact pair _ _ (fun _ => rfl) fun _ => rfl

theorem ascends_patternRefinement :
    Ascends Refinement.rank 4 5 (column.patternRefinement base) := by
  have ranked (pattern : String) : (Refinement.regex pattern).rank = 4 := rfl
  exact .ite (.toList_map ranked _) .nil

theorem ascends_defaultRefinement :
    Ascends Refinement.rank 5 6 (column.defaultRefinement base) := by
  have ranked (literal : String) : (Refinement.fallback literal).rank = 5 := rfl
  rw [defaultRefinement, Option.toList_map]
  exact .toList_map ranked _

theorem ascends_presenceRefinement : Ascends Refinement.rank 6 7 column.presenceRefinement :=
  .ite (.singleton (by decide)) (.ite (.singleton (by decide)) .nil)

/-- The links of the validation chain are in order, and no two are of one rank. -/
theorem ascends_refinements :
    Ascends Refinement.rank 0 7 (column.validation enumerations).refinements :=
  (column.ascends_formatRefinements.append (column.ascends_boundRefinements _) (by decide)
    |>.append (column.ascends_patternRefinement _) (by decide)
    |>.append (column.ascends_defaultRefinement _) (by decide)
    |>.append column.ascends_presenceRefinement (by decide))

/-- What is of the highest rank stands in the chain exactly when it stands last. -/
theorem mem_iff_last {closing : Refinement} (highest : closing.rank = 6) :
    closing ∈ (column.validation enumerations).refinements ↔
      (column.validation enumerations).refinements.getLast? = some closing := by
  constructor
  · intro member
    have ascends := column.ascends_refinements enumerations
    rw [show 7 = closing.rank + 1 by rw [highest]] at ascends
    exact ascends.getLast?_eq member
  · exact List.mem_of_getLast?

theorem isNullable_validation :
    (column.validation enumerations).isNullable = true ↔ column.isNullable = true := by
  rw [ValidationChain.isNullable, beq_iff_eq, ← column.mem_iff_last enumerations rfl,
    nullable_mem_iff]

theorem isOptional_iff_mem : (column.validation enumerations).isOptional = true ↔
    .optional ∈ (column.validation enumerations).refinements := by
  rw [ValidationChain.isOptional, beq_iff_eq, ← column.mem_iff_last enumerations rfl]

theorem isOptional_validation :
    (column.validation enumerations).isOptional = true ↔
      column.isNullable = false ∧ column.isRequired = false ∧ column.hasDefault = false := by
  rw [isOptional_iff_mem, mem_refinements_iff]
  constructor
  · intro demanded
    cases demanded with
    | optional filled waived bare => exact ⟨filled, waived, bare⟩
  · intro absent
    exact .optional absent.1 absent.2.1 absent.2.2

end Order

end Column
end SchemaCompiler
