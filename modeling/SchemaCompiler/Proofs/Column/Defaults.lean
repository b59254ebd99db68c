import SchemaCompiler.Proofs.Column.Chains
import SchemaCompiler.Proofs.TypeScript.Quoting

/-
Defaults in storage and in validation.

Both mappings of a column write the literal of its default, each by a rule of its own.
Storage quotes texts, and numbers in columns of decimals.  Validation quotes whatever the
base check does not take as it is, and makes a date of a text where the check is one of
dates.  The two rules part where a default is not of the kind of its column: a truth value
or a number is then written bare in storage and quoted in validation.
-/

namespace SchemaCompiler
namespace Column

/-- Whether the default is of the kind of its column: any text, a truth value in a column of
truth values, a number in a column of numbers. -/
def takesDefault (column : Column) : Bool :=
  match column.fallback with
  | some (.bool _) => column.type == .boolean
  | some (.number _) => column.type == .integer || column.type == .decimal
  | _ => true

/-- The literals that stand for one default: the same text twice, or a text and the date
that is made of it. -/
inductive SameDefault (column : Column) (stored : String) : String → Prop
  | verbatim : SameDefault column stored stored
  | dated {content : String} (temporal : column.type = .date ∨ column.type = .dateTime)
      (given : column.fallback = some (.text content)) :
      SameDefault column stored ("new Date(" ++ stored ++ ")")

/-- Storage has a default exactly when validation has one, and then it is the same. -/
structure DefaultsAgree (column : Column) (table : Table) (enumerations : List Enumeration) :
    Prop where
  together : (∃ stored, .fallback stored ∈ (column.storage table enumerations).modifiers) ↔
    ∃ checked, .fallback checked ∈ (column.validation enumerations).refinements
  same (stored checked : String) :
    .fallback stored ∈ (column.storage table enumerations).modifiers →
      .fallback checked ∈ (column.validation enumerations).refinements →
        column.SameDefault stored checked

/-- How the defaults of the two mappings stand to each other. -/
structure DefaultsCompared (column : Column) (table : Table) (enumerations : List Enumeration) :
    Prop where
  stored_iff : (∃ stored, .fallback stored ∈ (column.storage table enumerations).modifiers) ↔
    ∃ value, column.fallback = some value ∧ value ≠ .currentTimestamp
  checked_iff : (∃ checked, .fallback checked ∈ (column.validation enumerations).refinements) ↔
    ∃ value, column.fallback = some value ∧ value ≠ .currentTimestamp
  same (stored checked : String) :
    .fallback stored ∈ (column.storage table enumerations).modifiers →
      .fallback checked ∈ (column.validation enumerations).refinements →
        column.takesDefault = true → column.SameDefault stored checked
  quoted (stored checked : String) :
    .fallback stored ∈ (column.storage table enumerations).modifiers →
      .fallback checked ∈ (column.validation enumerations).refinements →
        column.takesDefault = false → checked = TypeScript.quote stored
  agree_iff : column.DefaultsAgree table enumerations ↔ column.takesDefault = true

section Literals

variable {column : Column} {table : Table} {enumerations : List Enumeration}
  {stored checked : String}

/-- Storage writes a default exactly when validation does: when it is a literal. -/
theorem stored_iff_literal (given : column.type ≠ .autoIncrement) :
    (∃ stored, .fallback stored ∈ (column.storage table enumerations).modifiers) ↔
      ∃ value, column.fallback = some value ∧ value ≠ .currentTimestamp := by
  simp only [fallback_mem_storage_iff, and_iff_right given, storageDefault]
  cases column.fallback with
  | none => simp
  | some value =>
      cases value with
      | bool value => simp
      | number written => by_cases decimal : column.type = .decimal <;> simp [decimal]
      | text content => simp
      | currentTimestamp => simp

theorem checked_iff_literal :
    (∃ checked, .fallback checked ∈ (column.validation enumerations).refinements) ↔
      ∃ value, column.fallback = some value ∧ value ≠ .currentTimestamp := by
  simp only [fallback_mem_validation_iff]
  cases column.fallback with
  | none => simp
  | some value => cases value <;> simp [validationLiteral?]

theorem fallback_of_takesDefault_eq_false (refused : column.takesDefault = false) :
    (∃ value, column.fallback = some value ∧ value ≠ .currentTimestamp) ∧
      ∀ content, column.fallback ≠ some (.text content) := by
  unfold takesDefault at refused
  cases held : column.fallback with
  | none =>
      rw [held] at refused
      cases refused
  | some value =>
      cases value with
      | bool value => simp
      | number written => simp
      | text content =>
          rw [held] at refused
          cases refused
      | currentTimestamp =>
          rw [held] at refused
          cases refused

/-- What validation writes is what storage writes, or a date made of it, where the default is
of the kind of its column; and that in quotes where it is not. -/
theorem checked_cases (inStorage : .fallback stored ∈ (column.storage table enumerations).modifiers)
    (inValidation : .fallback checked ∈ (column.validation enumerations).refinements) :
    (column.takesDefault = true ∧ column.SameDefault stored checked) ∨
      (column.takesDefault = false ∧ checked = TypeScript.quote stored) := by
  obtain ⟨given, written⟩ := fallback_mem_storage_iff.mp inStorage
  have literal := (fallback_mem_validation_iff column enumerations).mp inValidation
  cases held : column.fallback with
  | none =>
      rw [storageDefault_of_none held] at written
      cases written
  | some value =>
      rw [storageDefault, held] at written
      rw [held, Option.bind_some] at literal
      cases value with
      | bool value =>
          obtain rfl := StorageModifier.fallback.inj (List.mem_singleton.mp written)
          simp only [validationLiteral?, validationBase_eq_iff.1, Option.some.injEq]
            at literal
          by_cases boolean : column.type = .boolean
          · rw [if_pos boolean] at literal
            exact .inl ⟨by simp [takesDefault, held, boolean], literal ▸ .verbatim⟩
          · rw [if_neg boolean] at literal
            exact .inr ⟨by simp [takesDefault, held, boolean], literal.symm⟩
      | number number =>
          dsimp only at written
          simp only [validationLiteral?, validationBase_eq_iff.2.1, or_iff_left given,
            Option.some.injEq] at literal
          by_cases decimal : column.type = .decimal
          · have notInteger : column.type ≠ .integer := by simp [decimal]
            rw [if_pos decimal] at written
            obtain rfl := StorageModifier.fallback.inj (List.mem_singleton.mp written)
            rw [if_neg notInteger] at literal
            exact .inl ⟨by simp [takesDefault, held, decimal], literal ▸ .verbatim⟩
          · rw [if_neg decimal] at written
            obtain rfl := StorageModifier.fallback.inj (List.mem_singleton.mp written)
            by_cases integer : column.type = .integer
            · rw [if_pos integer] at literal
              exact .inl ⟨by simp [takesDefault, held, integer], literal ▸ .verbatim⟩
            · rw [if_neg integer] at literal
              exact .inr ⟨by simp [takesDefault, held, decimal, integer], literal.symm⟩
      | text content =>
          obtain rfl := StorageModifier.fallback.inj (List.mem_singleton.mp written)
          have takes : column.takesDefault = true := by simp only [takesDefault, held]
          simp only [validationLiteral?, validationBase_eq_iff.2.2.1, Option.some.injEq] at literal
          refine .inl ⟨takes, ?_⟩
          by_cases temporal : column.type = .date ∨ column.type = .dateTime
          · rw [if_pos temporal] at literal
            exact literal ▸ .dated temporal held
          · rw [if_neg temporal] at literal
            exact literal ▸ .verbatim
      | currentTimestamp => cases List.mem_singleton.mp written

theorem not_sameDefault_quote (refused : column.takesDefault = false) :
    ¬column.SameDefault stored (TypeScript.quote stored) := by
  intro same
  generalize quoted : TypeScript.quote stored = checked at same
  cases same with
  | verbatim => exact TypeScript.quote_ne_self _ quoted
  | dated _ given => exact (fallback_of_takesDefault_eq_false refused).2 _ given

theorem defaultsAgree_iff (given : column.type ≠ .autoIncrement) :
    column.DefaultsAgree table enumerations ↔ column.takesDefault = true := by
  constructor
  · intro agree
    cases takes : column.takesDefault with
    | true => rfl
    | false =>
        have literal := (fallback_of_takesDefault_eq_false takes).1
        obtain ⟨stored, inStorage⟩ :
            ∃ stored, .fallback stored ∈ (column.storage table enumerations).modifiers :=
          (stored_iff_literal given).mpr literal
        obtain ⟨checked, inValidation⟩ :
            ∃ checked, .fallback checked ∈ (column.validation enumerations).refinements :=
          checked_iff_literal.mpr literal
        have same := agree.same stored checked inStorage inValidation
        rcases checked_cases inStorage inValidation with ⟨other, _⟩ | ⟨_, quoted⟩
        · exact takes.symm.trans other
        · exact absurd (quoted ▸ same) (not_sameDefault_quote takes)
  · intro takes
    constructor
    · exact (stored_iff_literal given).trans checked_iff_literal.symm
    · intro stored checked inStorage inValidation
      rcases checked_cases inStorage inValidation with ⟨_, same⟩ | ⟨refused, _⟩
      · exact same
      · rw [takes] at refused
        cases refused

end Literals

/-- The defaults of a column that does not count up. -/
theorem defaults_compared {column : Column} (table : Table) (enumerations : List Enumeration)
    (given : column.type ≠ .autoIncrement) : column.DefaultsCompared table enumerations where
  stored_iff := stored_iff_literal given
  checked_iff := checked_iff_literal
  same stored checked inStorage inValidation takes := by
    rcases checked_cases inStorage inValidation with ⟨_, same⟩ | ⟨refused, _⟩
    · exact same
    · rw [takes] at refused
      cases refused
  quoted stored checked inStorage inValidation refused := by
    rcases checked_cases inStorage inValidation with ⟨takes, _⟩ | ⟨_, quoted⟩
    · rw [refused] at takes
      cases takes
    · exact quoted
  agree_iff := defaultsAgree_iff given

/-- A column of dates with a text for default. -/
def openingDay : Column :=
  { Column.plain "opened_on" .date with fallback := some (.text "2020-01-15") }

theorem defaults_compared_of_openingDay :
    openingDay.type ≠ .autoIncrement ∧ openingDay.DefaultsCompared (.plain "rooms") [] := by
  have given : openingDay.type ≠ .autoIncrement := by decide
  exact ⟨given, defaults_compared (.plain "rooms") [] given⟩

/-- A column of text with a number for default. -/
def roomNumber : Column :=
  { Column.plain "number" .shortText with fallback := some (.number "101") }

/-- A number is the default of a text in storage, and its digits are in validation. -/
theorem defaults_may_differ :
    ¬∀ (column : Column) (table : Table) (enumerations : List Enumeration),
        column.type ≠ .autoIncrement → column.DefaultsAgree table enumerations := by
  intro agree
  have given : roomNumber.type ≠ .autoIncrement := by decide
  have takes := (defaultsAgree_iff given).mp (agree roomNumber (.plain "rooms") [] given)
  cases takes

end Column
end SchemaCompiler
