import SchemaCompiler.Proofs.Name.Identifier
import SchemaCompiler.Proofs.Relation.Names

/-
Relations with names that are identifiers.

A relation gets the name that is preferred for it, or one that starts with it.  Of identifiers
only identifiers are made in this way, and what opens the preferred name opens the chosen one.
A preferred name without any word has the empty property, which no column takes whose own
property is an identifier: such a name is chosen as it is.
-/

namespace SchemaCompiler

open Name (isIdentifier continuesIdentifier opening? opensWithLetter)

theorem continuesIdentifier_of_mem_number (n : Nat) :
    ∀ c ∈ ("_" ++ Decimal.natText n).toList, continuesIdentifier c = true := by
  intro c member
  rw [String.toList_append, List.mem_append] at member
  rcases member with underscore | inDigits
  · rw [List.mem_singleton.mp underscore]
    decide
  · rw [Decimal.natText, String.toList_ofList] at inDigits
    rw [continuesIdentifier,
      Name.isAlphanum_of_isDigit (Decimal.isDigit_of_mem_digits inDigits), Bool.true_or]

theorem freeName_cases (taken : List String) (preferred qualified : String) :
    freeName taken preferred qualified = preferred ∨
      Name.camel preferred ∈ taken ∧
        ∃ ending, freeName taken preferred qualified = qualified ++ ending ∧
          ∀ c ∈ ending.toList, continuesIdentifier c = true := by
  have first := firstFree_freeName taken preferred qualified
  generalize freeName taken preferred qualified = name at first ⊢
  cases first with
  | preferred => exact Or.inl rfl
  | qualified before => exact Or.inr ⟨before, "", by simp⟩
  | @numbered before _ n _ =>
      exact Or.inr ⟨before, _, String.append_assoc, continuesIdentifier_of_mem_number n⟩

theorem isIdentifier_freeName {taken : List String} {preferred qualified : String}
    (isPreferred : isIdentifier preferred = true) (isQualified : isIdentifier qualified = true) :
    isIdentifier (freeName taken preferred qualified) = true := by
  rcases freeName_cases taken preferred qualified with same | ⟨_, ending, found, continues⟩
  · rwa [same]
  · rw [found]
    exact Name.isIdentifier_append isQualified continues

/-- A chosen name opens as the preferred one does. -/
theorem opensWithLetter_freeName_iff {taken : List String} (fresh : "" ∉ taken)
    (preferred addition : String) :
    opensWithLetter (freeName taken preferred (preferred ++ addition)) = true ↔
      opensWithLetter preferred = true := by
  rcases freeName_cases taken preferred (preferred ++ addition) with
    same | ⟨occupied, ending, found, _⟩
  · rw [same]
  · cases opens : opening? preferred with
    | none =>
        -- The property is empty then, and no column has taken it.
        rw [Name.camel_eq_empty_iff.mpr opens] at occupied
        exact absurd occupied fresh
    | some c =>
        rw [found, String.append_assoc, opensWithLetter, Name.opening?_append opens,
          opensWithLetter, opens]

theorem isIdentifier_relationName {reference : ForeignKey} {column : String}
    (ofColumn : isIdentifier column = true) (ofTable : isIdentifier reference.table = true) :
    isIdentifier (reference.relationName column) = true := by
  unfold ForeignKey.relationName
  split
  case h_1 c rest found => exact Name.isIdentifier_of_beforeEnding? found ofColumn
  case h_2 => exact Name.isIdentifier_singular ofTable

theorem isIdentifier_plural {name : String} (identifier : isIdentifier name = true) :
    isIdentifier (Name.plural name) = true := by
  unfold Name.plural
  split
  · exact identifier
  · have ending : isIdentifier "s" = true := by decide
    exact Name.isIdentifier_append identifier (Name.continuesIdentifier_of_mem ending)

namespace Table

theorem fresh_of_columns {table : Table}
    (columns : ∀ column ∈ table.columns, opensWithLetter column.name = true) :
    "" ∉ table.columnProperties := by
  intro empty
  obtain ⟨column, member, none⟩ := List.mem_map.mp empty
  exact Name.camel_ne_empty (columns column member) none

/-- What is added to the preferred name of an outgoing relation to qualify it. -/
theorem exists_addition {column : String} (identifier : isIdentifier column = true)
    (preferred : String) :
    ∃ addition,
      (if preferred = column then preferred ++ "_record" else preferred ++ "_by_" ++ column) =
        preferred ++ addition ∧ ∀ c ∈ addition.toList, continuesIdentifier c = true := by
  have record : isIdentifier "_record" = true := by decide
  have infixed : isIdentifier "_by_" = true := by decide
  split
  · exact ⟨_, rfl, Name.continuesIdentifier_of_mem record⟩
  · refine ⟨_, String.append_assoc, ?_⟩
    rw [String.toList_append, List.forall_mem_append]
    exact ⟨Name.continuesIdentifier_of_mem infixed, Name.continuesIdentifier_of_mem identifier⟩

section Outgoing

variable {references : List (Column × ForeignKey)}
  (columns : ∀ entry ∈ references, isIdentifier entry.1.name = true)
include columns

theorem isIdentifier_of_mem_outgoingFrom
    (tables : ∀ entry ∈ references, isIdentifier entry.2.table = true) (taken : List String) :
    ∀ relation ∈ outgoingFrom taken references, isIdentifier relation.name = true := by
  induction references generalizing taken with
  | nil => exact List.forall_mem_nil _
  | cons entry rest ih =>
      obtain ⟨column, reference⟩ := entry
      rw [List.forall_mem_cons] at columns tables
      rw [outgoingFrom, List.forall_mem_cons]
      refine ⟨?_, ih columns.2 tables.2 _⟩
      obtain ⟨addition, made, continues⟩ :=
        exists_addition columns.1 (reference.relationName column.name)
      have preferred := isIdentifier_relationName columns.1 tables.1
      rw [made]
      exact isIdentifier_freeName preferred (Name.isIdentifier_append preferred continues)

/-- Outgoing relations open with letters when the names that their columns suggest do. -/
theorem opensWithLetter_outgoingFrom_iff {taken : List String} (fresh : "" ∉ taken) :
    (∀ relation ∈ outgoingFrom taken references, opensWithLetter relation.name = true) ↔
      ∀ entry ∈ references, opensWithLetter (entry.2.relationName entry.1.name) = true := by
  induction references generalizing taken with
  | nil => exact iff_of_true (List.forall_mem_nil _) (List.forall_mem_nil _)
  | cons entry rest ih =>
      obtain ⟨column, reference⟩ := entry
      rw [List.forall_mem_cons] at columns
      obtain ⟨addition, made, _⟩ :=
        exists_addition columns.1 (reference.relationName column.name)
      rw [outgoingFrom, List.forall_mem_cons, List.forall_mem_cons, made,
        opensWithLetter_freeName_iff fresh]
      apply and_congr_right
      intro opens
      have chosen := (opensWithLetter_freeName_iff fresh _ addition).mpr opens
      apply ih columns.2
      rw [List.mem_append, List.mem_singleton, not_or]
      exact ⟨fresh, (Name.camel_ne_empty chosen).symm⟩

end Outgoing

section Incoming

variable {references : List (String × Column × ForeignKey)}

theorem isIdentifier_of_mem_incomingFrom
    (sources : ∀ entry ∈ references, isIdentifier entry.1 = true)
    (columns : ∀ entry ∈ references, isIdentifier entry.2.1.name = true)
    (tables : ∀ entry ∈ references, isIdentifier entry.2.2.table = true) (taken : List String) :
    ∀ relation ∈ incomingFrom taken references, isIdentifier relation.name = true := by
  induction references generalizing taken with
  | nil => exact List.forall_mem_nil _
  | cons entry rest ih =>
      obtain ⟨source, column, reference⟩ := entry
      rw [List.forall_mem_cons] at sources columns tables
      rw [incomingFrom, List.forall_mem_cons]
      refine ⟨?_, ih sources.2 columns.2 tables.2 _⟩
      have infixed : isIdentifier "_by_" = true := by decide
      have preferred := isIdentifier_plural sources.1
      have between := Name.isIdentifier_append preferred (Name.continuesIdentifier_of_mem infixed)
      have suggested := isIdentifier_relationName columns.1 tables.1
      exact isIdentifier_freeName preferred
        (Name.isIdentifier_append between (Name.continuesIdentifier_of_mem suggested))

/-- Incoming relations open with letters when the names of their tables do. -/
theorem opensWithLetter_of_mem_incomingFrom {taken : List String} (fresh : "" ∉ taken)
    (opens : ∀ entry ∈ references, opensWithLetter entry.1 = true) :
    ∀ relation ∈ incomingFrom taken references, opensWithLetter relation.name = true := by
  induction references generalizing taken with
  | nil => exact List.forall_mem_nil _
  | cons entry rest ih =>
      obtain ⟨source, column, reference⟩ := entry
      rw [List.forall_mem_cons] at opens
      have preferred : opensWithLetter (Name.plural source) = true := by
        unfold Name.plural
        split
        · exact opens.1
        · exact Name.opensWithLetter_append opens.1 "s"
      have chosen := (opensWithLetter_freeName_iff fresh (Name.plural source)
        ("_by_" ++ reference.relationName column.name)).mpr preferred
      rw [← String.append_assoc] at chosen
      rw [incomingFrom, List.forall_mem_cons]
      refine ⟨chosen, ih ?_ opens.2⟩
      rw [List.mem_append, List.mem_singleton, not_or]
      exact ⟨fresh, (Name.camel_ne_empty chosen).symm⟩

end Incoming

end Table

end SchemaCompiler
