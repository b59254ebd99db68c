import SchemaCompiler.Artifact.SeedModule
import SchemaCompiler.Descriptor.Column
import SchemaCompiler.Proofs.Column.Chains
import SchemaCompiler.Proofs.Descriptor.Checks
import SchemaCompiler.Proofs.Json.NumberText

/-
Numbers in columns of decimals.

A number that is given to a column of decimals is written in three places: as the default
of the stored column, as the default of its check, and in seed rows.  In each of them it is
the written form of the number between quotes, and the check takes that exactly when it has
no exponent.
-/

namespace SchemaCompiler
namespace Column

open Descriptor (WrittenColumn)
open Text.Pattern (decimalNumber)

/-- Whether a literal is a decimal number between quotes. -/
def IsQuotedDecimal (literal : String) : Prop :=
  ∃ content : String, literal = "'" ++ content ++ "'" ∧ content.toList ∈ decimalNumber.language

/-- The literals of a number are decimal numbers between quotes. -/
structure DecimalsAccepted (column : Column) (written : WrittenColumn) (table : Table)
    (enumerations : List Enumeration) (number : Json.Number) : Prop where
  stored (literal : String) : written.fallback = some (.number number) →
    .fallback literal ∈ (column.storage table enumerations).modifiers → IsQuotedDecimal literal
  checked (literal : String) : written.fallback = some (.number number) →
    .fallback literal ∈ (column.validation enumerations).refinements → IsQuotedDecimal literal
  seeded (indent : Nat) :
    IsQuotedDecimal ((SeedModule.cellExpr column.type (.number number)).render indent)

/-- How a number is written for a column, and what the check of the column says to that. -/
structure DecimalsWritten (column : Column) (written : WrittenColumn) (table : Table)
    (enumerations : List Enumeration) (number : Json.Number) : Prop where
  base : (column.validation enumerations).base.expr =
    ValidationBase.patternExpr ("^" ++ decimalNumber.source ++ "$")
  stored : written.fallback = some (.number number) → ∀ literal,
    .fallback literal ∈ (column.storage table enumerations).modifiers ↔
      literal = "'" ++ number.text ++ "'"
  checked : written.fallback = some (.number number) → ∀ literal,
    .fallback literal ∈ (column.validation enumerations).refinements ↔
      literal = "'" ++ number.text ++ "'"
  seeded (indent : Nat) :
    (SeedModule.cellExpr column.type (.number number)).render indent = "'" ++ number.text ++ "'"
  accepted_iff : column.DecimalsAccepted written table enumerations number ↔ number.IsPlain

theorem isQuotedDecimal_iff {content : String} :
    IsQuotedDecimal ("'" ++ content ++ "'") ↔ content.toList ∈ decimalNumber.language := by
  constructor
  · rintro ⟨other, same, matched⟩
    obtain rfl := (String.append_right_inj _).mp ((String.append_left_inj _).mp same)
    exact matched
  · exact fun matched => ⟨content, rfl, matched⟩

theorem fallback_of_toColumn {written : WrittenColumn} {name : String} {column : Column}
    {number : Json.Number} (read : written.toColumn name = .ok column)
    (given : written.fallback = some (.number number)) :
    column.fallback = some (.number number.text) := by
  simp only [WrittenColumn.toColumn, given, Option.getD_some, Descriptor.defaultOfValue,
    bind_eq_ok_iff, pure_eq_ok_iff] at read
  obtain ⟨_, _, fallback, standard, _, _, rfl⟩ := read
  exact (Except.ok.inj standard).symm

section Decimal

variable {column : Column} {number : Json.Number} (decimal : column.type = .decimal)

include decimal

theorem base_validation_of_decimal (enumerations : List Enumeration) :
    (column.validation enumerations).base = .decimal := by
  show column.validationBase enumerations = .decimal
  rw [validationBase, decimal]

theorem fallback_mem_storage_of_decimal (given : column.fallback = some (.number number.text))
    (table : Table) (enumerations : List Enumeration) (literal : String) :
    .fallback literal ∈ (column.storage table enumerations).modifiers ↔
      literal = "'" ++ number.text ++ "'" := by
  rw [fallback_mem_storage_iff, storageDefault, given]
  simp [decimal, Json.Number.quote_text]

theorem fallback_mem_validation_of_decimal (given : column.fallback = some (.number number.text))
    (enumerations : List Enumeration) (literal : String) :
    .fallback literal ∈ (column.validation enumerations).refinements ↔
      literal = "'" ++ number.text ++ "'" := by
  have base : column.validationBase enumerations = .decimal :=
    base_validation_of_decimal decimal enumerations
  rw [fallback_mem_validation_iff, given, base, Option.bind_some, validationLiteral?]
  simp [Json.Number.quote_text, eq_comm]

theorem render_cell_of_decimal (indent : Nat) :
    (SeedModule.cellExpr column.type (.number number)).render indent =
      "'" ++ number.text ++ "'" := by
  rw [decimal, ← Json.Number.quote_text]
  rfl

end Decimal

/-- Every number that is given to a column of decimals is written between quotes in all three
places, and is accepted by the check of the column exactly when it is written without an
exponent. -/
theorem decimals_written {written : WrittenColumn} {name : String} {column : Column}
    (read : written.toColumn name = .ok column) (decimal : column.type = .decimal)
    (table : Table) (enumerations : List Enumeration) (number : Json.Number) :
    column.DecimalsWritten written table enumerations number where
  base := by
    rw [base_validation_of_decimal decimal]
    rfl
  stored given := fallback_mem_storage_of_decimal decimal (fallback_of_toColumn read given) _ _
  checked given := fallback_mem_validation_of_decimal decimal (fallback_of_toColumn read given) _
  seeded := render_cell_of_decimal decimal
  accepted_iff := by
    rw [← Json.Number.text_mem_iff, ← isQuotedDecimal_iff]
    constructor
    · intro accepted
      have seeded := accepted.seeded 0
      rwa [render_cell_of_decimal decimal] at seeded
    · intro matched
      constructor
      · intro literal given stored
        have default := fallback_of_toColumn read given
        rwa [(fallback_mem_storage_of_decimal decimal default _ _ _).mp stored]
      · intro literal given checked
        have default := fallback_of_toColumn read given
        rwa [(fallback_mem_validation_of_decimal decimal default _ _).mp checked]
      · intro indent
        rwa [render_cell_of_decimal decimal]

/-- A column of rates with a number for default. -/
def writtenRate (number : Json.Number) : WrittenColumn where
  tag := "decimal"
  nullable := false
  length := none
  precision := some 10
  scale := some 2
  fallback := some (.number number)
  unique := false
  primaryKey := false
  reference := none
  rules := .none
  form := .none

/-- The column of rates. -/
def rate (number : Json.Number) : Column :=
  { Column.plain "rate" .decimal with
    precision := some 10, scale := some 2, fallback := some (.number number.text) }

theorem toColumn_writtenRate (number : Json.Number) :
    (writtenRate number).toColumn "rate" = .ok (rate number) :=
  rfl

theorem decimals_written_of_rate :
    (writtenRate (.whole 9)).toColumn "rate" = .ok (rate (.whole 9)) ∧
      (rate (.whole 9)).type = .decimal ∧
      (rate (.whole 9)).DecimalsWritten (writtenRate (.whole 9)) (.plain "rooms") []
        (.whole 9) := by
  have read := toColumn_writtenRate (.whole 9)
  exact ⟨read, rfl, decimals_written read rfl (.plain "rooms") [] (.whole 9)⟩

/-- One ten-millionth. -/
def tenMillionth : Json.Number :=
  .double ⟨0x3E7AD7F29ABCAF48⟩

example : tenMillionth.text = "1e-7" := by decide +kernel

theorem not_isPlain_tenMillionth : ¬tenMillionth.IsPlain := by
  rintro ⟨value, denotes, range⟩
  have held : (⟨0x3E7AD7F29ABCAF48⟩ : Decimal.Binary64).magnitude =
      .finite 0x1AD7F29ABCAF48 (-76) := by decide
  rw [held] at denotes
  obtain rfl := Option.some.inj denotes
  norm_num at range

/-- A number close to zero is written with an exponent, which the check of the column
refuses. -/
theorem decimals_may_be_refused :
    ¬∀ (written : WrittenColumn) (name : String) (column : Column),
        written.toColumn name = .ok column → column.type = .decimal →
          ∀ (table : Table) (enumerations : List Enumeration) (number : Json.Number),
            column.DecimalsAccepted written table enumerations number := by
  intro all
  have accepted := all (writtenRate tenMillionth) "rate" (rate tenMillionth)
    (toColumn_writtenRate tenMillionth) rfl (.plain "rooms") [] tenMillionth
  have literal := accepted.seeded 0
  rw [render_cell_of_decimal rfl, isQuotedDecimal_iff, Json.Number.text_mem_iff] at literal
  exact not_isPlain_tenMillionth literal

end Column
end SchemaCompiler
