import Mathlib.Order.Nat
import SchemaCompiler.Name.Derived
import SchemaCompiler.Proofs.Name.Case
import SchemaCompiler.Table.Relation

/-
Names of relations.

A chosen name is the first in the order of the choice that has a property that was not taken.
There is one: among one more number than there are taken properties, one gives a property of
its own.  Each choice takes its property, so the names chosen one after another stay apart from
those before the first and from each other.  Hence the properties of all relations of a table,
in both directions, differ from each other and from those of its columns.
-/

namespace SchemaCompiler

theorem isFree_iff {taken : List String} {name : String} :
    isFree taken name = true ↔ Name.camel name ∉ taken := by
  simp only [isFree, Bool.not_eq_true', List.contains_eq_mem, decide_eq_false_iff_not]

theorem not_isFree_iff {taken : List String} {name : String} :
    ¬isFree taken name = true ↔ Name.camel name ∈ taken := by
  rw [isFree_iff, Decidable.not_not]

theorem camel_numbered (name : String) (n : Nat) :
    Name.camel (numbered name n) = Name.camel name ++ Decimal.natText n := by
  have chars : (numbered name n).toList = name.toList ++ '_' :: Decimal.digits n := by
    simp [numbered, Decimal.natText]
  rw [Name.camel, chars, Name.camelChars_append_digits, String.ofList_append, Name.camel,
    Decimal.natText]

theorem camel_numbered_injective {name : String} {m n : Nat}
    (same : Name.camel (numbered name m) = Name.camel (numbered name n)) : m = n := by
  rw [camel_numbered, camel_numbered] at same
  have chars := congrArg String.toList same
  rw [String.toList_append, String.toList_append] at chars
  have digits := List.append_cancel_left chars
  simp only [Decimal.natText, String.toList_ofList] at digits
  exact Decimal.digits_injective digits

/-- The numbers from `first` on that give a name a free property. -/
def freeNumbers (taken : List String) (name : String) (first : Nat) : Set Nat :=
  { n | first ≤ n ∧ Name.camel (numbered name n) ∉ taken }

/-- Of more numbers than there are taken properties, one is free. -/
theorem exists_free_number (taken : List String) (name : String) (first : Nat) :
    ∃ n ∈ freeNumbers taken name first, n ≤ first + taken.length := by
  apply Classical.byContradiction
  intro none
  let candidates := (List.range (taken.length + 1)).map fun i =>
    Name.camel (numbered name (first + i))
  have distinct : candidates.Nodup := by
    apply List.Pairwise.map _ _ List.nodup_range
    intro i j different same
    have equal := camel_numbered_injective same
    omega
  have covered : candidates ⊆ taken := by
    intro property member
    obtain ⟨i, inRange, rfl⟩ := List.mem_map.mp member
    have bound := List.mem_range.mp inRange
    apply Decidable.byContradiction
    intro free
    exact none ⟨first + i, ⟨by omega, free⟩, by omega⟩
  have short := distinct.length_le_of_subset covered
  simp only [candidates, List.length_map, List.length_range] at short
  omega

section Least

variable {taken : List String} {name : String} {first n : Nat}

theorem exists_least_number (taken : List String) (name : String) (first : Nat) :
    ∃ n, IsLeast (freeNumbers taken name first) n := by
  obtain ⟨n, member, _⟩ := exists_free_number taken name first
  have some : ∃ n, first ≤ n ∧ Name.camel (numbered name n) ∉ taken := ⟨n, member⟩
  exact ⟨Nat.find some, Nat.isLeast_find some⟩

theorem least_number_le (least : IsLeast (freeNumbers taken name first) n) :
    n ≤ first + taken.length := by
  obtain ⟨other, member, upper⟩ := exists_free_number taken name first
  exact (least.2 member).trans upper

theorem taken_below_least (least : IsLeast (freeNumbers taken name first) n) {other : Nat}
    (lower : first ≤ other) (upper : other < n) : Name.camel (numbered name other) ∈ taken := by
  apply Decidable.byContradiction
  intro free
  exact Nat.not_le_of_lt upper (least.2 ⟨lower, free⟩)

theorem least_after (least : IsLeast (freeNumbers taken name first) n) (later : first < n) :
    IsLeast (freeNumbers taken name (first + 1)) n := by
  refine ⟨⟨later, least.1.2⟩, ?_⟩
  intro other member
  exact least.2 ⟨Nat.le_of_succ_le member.1, member.2⟩

/-- The bounded search finds the least free number that is within its reach. -/
theorem freeNumbered_eq {tries : Nat} (least : IsLeast (freeNumbers taken name first) n)
    (within : n ≤ first + tries) : freeNumbered taken name tries first = numbered name n := by
  have lower := least.1.1
  induction tries generalizing first with
  | zero =>
      have same : first = n := by omega
      rw [freeNumbered, same]
  | succ tries ih =>
      unfold freeNumbered
      by_cases same : first = n
      · rw [same, if_pos (isFree_iff.mpr least.1.2)]
      · have later : first < n := by omega
        rw [if_neg (not_isFree_iff.mpr (taken_below_least least (Nat.le_refl first) later))]
        exact ih (least_after least later) (by omega) later

end Least

/-- The name that is free first: the preferred one, or else the qualified one, or else the
qualified one with the least free number. -/
inductive FirstFree (taken : List String) (preferred qualified : String) : String → Prop where
  | preferred (free : Name.camel preferred ∉ taken) : FirstFree taken preferred qualified preferred
  | qualified (before : Name.camel preferred ∈ taken) (free : Name.camel qualified ∉ taken) :
      FirstFree taken preferred qualified qualified
  | numbered (before : Name.camel preferred ∈ taken) (next : Name.camel qualified ∈ taken)
      {n : Nat} (least : IsLeast (freeNumbers taken qualified 2) n) :
      FirstFree taken preferred qualified (numbered qualified n)

theorem firstFree_freeName (taken : List String) (preferred qualified : String) :
    FirstFree taken preferred qualified (freeName taken preferred qualified) := by
  unfold freeName
  split
  case isTrue free => exact .preferred (isFree_iff.mp free)
  case isFalse before =>
    split
    case isTrue free => exact .qualified (not_isFree_iff.mp before) (isFree_iff.mp free)
    case isFalse next =>
      obtain ⟨n, least⟩ := exists_least_number taken qualified 2
      rw [freeNumbered_eq least (least_number_le least)]
      exact .numbered (not_isFree_iff.mp before) (not_isFree_iff.mp next) least

theorem FirstFree.free {taken : List String} {preferred qualified name : String}
    (first : FirstFree taken preferred qualified name) : Name.camel name ∉ taken := by
  cases first with
  | preferred free => exact free
  | qualified _ free => exact free
  | numbered _ _ least => exact least.1.2

/-- Properties that differ from each other and from those taken before. -/
structure Apart (taken properties : List String) : Prop where
  distinct : properties.Nodup
  unused : ∀ property ∈ properties, property ∉ taken

namespace Apart

theorem nil (taken : List String) : Apart taken [] where
  distinct := List.nodup_nil
  unused := nofun

theorem append {taken first second : List String} (left : Apart taken first)
    (right : Apart (taken ++ first) second) : Apart taken (first ++ second) where
  distinct := by
    apply List.nodup_append.mpr
    refine ⟨left.distinct, right.distinct, ?_⟩
    intro property inFirst other inSecond same
    subst other
    exact right.unused property inSecond (List.mem_append_right taken inFirst)
  unused property member := by
    rcases List.mem_append.mp member with inFirst | inSecond
    · exact left.unused property inFirst
    · intro before
      exact right.unused property inSecond (List.mem_append_left first before)

theorem singleton {taken : List String} {property : String} (free : property ∉ taken) :
    Apart taken [property] where
  distinct := List.nodup_cons.mpr ⟨List.not_mem_nil, List.nodup_nil⟩
  unused other member := by
    rw [List.mem_singleton.mp member]
    exact free

/-- A name that is chosen first stays apart, and so do those chosen after it. -/
theorem chosen {taken rest : List String} (preferred qualified : String)
    (later : Apart (taken ++ [Name.camel (freeName taken preferred qualified)]) rest) :
    Apart taken (Name.camel (freeName taken preferred qualified) :: rest) :=
  append (singleton (firstFree_freeName taken preferred qualified).free) later

end Apart

namespace OutgoingRelation

/-- The property of a relation. -/
def property (relation : OutgoingRelation) : String := Name.camel relation.name

end OutgoingRelation

namespace IncomingRelation

/-- The property of a relation. -/
def property (relation : IncomingRelation) : String := Name.camel relation.name

end IncomingRelation

namespace Table

theorem outgoingFrom_apart (taken : List String) (references : List (Column × ForeignKey)) :
    Apart taken ((outgoingFrom taken references).map OutgoingRelation.property) := by
  induction references generalizing taken with
  | nil => exact Apart.nil taken
  | cons entry rest ih =>
      obtain ⟨column, reference⟩ := entry
      exact Apart.chosen _ _ (ih _)

theorem incomingFrom_apart (taken : List String)
    (references : List (String × Column × ForeignKey)) :
    Apart taken ((incomingFrom taken references).map IncomingRelation.property) := by
  induction references generalizing taken with
  | nil => exact Apart.nil taken
  | cons entry rest ih =>
      obtain ⟨source, column, reference⟩ := entry
      exact Apart.chosen _ _ (ih _)

/-- The relations of both directions stay apart from the columns and each other. -/
theorem relations_apart (table : Table) (others : List Table) :
    Apart table.columnProperties
      (table.outgoing.map OutgoingRelation.property ++
        (table.incoming others).map IncomingRelation.property) :=
  Apart.append (outgoingFrom_apart _ _) (incomingFrom_apart _ _)

/-- Interfaces for distinct properties have distinct names. -/
theorem withRelation_nodup (names : TableNames) {relations : List OutgoingRelation}
    (distinct : (relations.map OutgoingRelation.property).Nodup) :
    (relations.map fun relation => names.withRelation relation.name).Nodup := by
  apply List.Pairwise.map _ _ (List.pairwise_map.mp distinct)
  intro left right different same
  have pascal : Name.pascal left.name = Name.pascal right.name := by
    have chars := congrArg String.toList same
    simp only [TableNames.withRelation, String.toList_append] at chars
    exact String.toList_injective (List.append_cancel_left chars)
  exact different (Name.camel_eq_of_pascal_eq pascal)

/-- No two relations of a table, those of either direction together, share a
property, and none has that of a column, whatever the other tables are.  Interfaces
of rows with one related row have names of their own. -/
theorem relation_names_never_clash (table : Table) (others : List Table) :
    Apart (table.columns.map fun column => Name.camel column.name)
        ((table.outgoing.map fun relation => Name.camel relation.name) ++
          (table.incoming others).map fun relation => Name.camel relation.name) ∧
      (table.outgoing.map fun relation =>
        (TableNames.ofTable table.name).withRelation relation.name).Nodup :=
  ⟨table.relations_apart others, withRelation_nodup _ (outgoingFrom_apart _ _).distinct⟩

end Table
end SchemaCompiler
