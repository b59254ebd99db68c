import SchemaCompiler.Artifact.EnumModule
import SchemaCompiler.Artifact.ValidationModule
import SchemaCompiler.Proofs.Schema.Lookup
import SchemaCompiler.Proofs.TypeScript.Parts

/-
What validation schemas read.

The schemas of new and changed rows take fields out of the schema of a row, and
leave fields of it out.  Both name fields that the schema of a row has, which are
the properties of the columns of the table.
-/

namespace SchemaCompiler
namespace ValidationModule

open TypeScript

/-- A property of what an expression takes out of a schema and of what it leaves
out. -/
structure Narrows (takes : String → String → Prop) (leaves : Expr → List Expr → Prop)
    (e : Expr) : Prop where
  /-- A field is taken out of a schema. -/
  taken : ∀ base field, e = .member (.access base "shape") field → takes base field
  /-- Fields are left out of what an expression denotes. -/
  left : ∀ owner arguments, e.methodCall? = some (owner, "omit", arguments) →
    leaves owner arguments

theorem Narrows.mono {takes takes' : String → String → Prop}
    {leaves leaves' : Expr → List Expr → Prop} {e : Expr} (narrows : Narrows takes leaves e)
    (takesMore : ∀ base field, takes base field → takes' base field)
    (leavesMore : ∀ owner arguments, leaves owner arguments → leaves' owner arguments) :
    Narrows takes' leaves' e where
  taken base field same := takesMore base field (narrows.taken base field same)
  left owner arguments called := leavesMore owner arguments (narrows.left owner arguments called)

theorem lenient_narrows (takes : String → String → Prop) (leaves : Expr → List Expr → Prop) :
    Lenient fun _ e => Narrows takes leaves e := by
  intro scope e noMember noCall
  constructor
  · intro base field same
    exact absurd same (noMember _ _)
  · intro owner arguments same
    rw [noCall] at same
    cases same

/-- The property of all parts of an expression. -/
def Keeps (takes : String → String → Prop) (leaves : Expr → List Expr → Prop)
    (scope : List String) (e : Expr) : Prop :=
  e.Throughout (fun _ part => Narrows takes leaves part) scope

section Keeps

variable {takes : String → String → Prop} {leaves : Expr → List Expr → Prop}
  {scope : List String}

theorem narrows_of_method {method : String} (keeping : method ≠ "omit") {e owner : Expr}
    {arguments : List Expr} (noMember : ∀ owner property, e ≠ .member owner property)
    (called : e.methodCall? = some (owner, method, arguments)) : Narrows takes leaves e := by
  constructor
  · intro base field same
    exact absurd same (noMember _ _)
  · intro other given same
    have sameCall := Option.some.inj (called.symm.trans same)
    exact absurd (congrArg (fun call => call.2.1) sameCall) keeping

theorem keeps_access (constant property : String) :
    Keeps takes leaves scope (.access constant property) := by
  refine throughout_member.mpr ⟨⟨?_, ?_⟩, (lenient_narrows takes leaves).name constant⟩
  · intro base field same
    cases same
  · intro owner arguments same
    cases same

theorem keeps_method {owner : Expr} (other : ∀ constant, owner ≠ .access constant "shape")
    {method : String} (keeping : method ≠ "omit") {arguments : List Expr}
    (inOwner : Keeps takes leaves scope owner)
    (each : ∀ argument ∈ arguments, Keeps takes leaves scope argument) :
    Keeps takes leaves scope (owner.method method arguments) := by
  refine throughout_method.mpr ⟨narrows_of_method keeping ?_ rfl, ⟨?_, ?_⟩, inOwner, each⟩
  · intro constant property same
    cases same
  · intro base field same
    exact absurd (Expr.member.inj same).1 (other base)
  · intro constant given same
    cases same

theorem keeps_callBelow {owner : Expr} {method : String} (keeping : method ≠ "omit")
    {arguments : List Expr} (inOwner : Keeps takes leaves scope owner)
    (each : ∀ argument ∈ arguments, Keeps takes leaves scope argument) :
    Keeps takes leaves scope (.callBelow owner method arguments) := by
  refine throughout_callBelow.mpr ⟨narrows_of_method keeping ?_ rfl, inOwner, each⟩
  intro constant property same
  cases same

theorem keeps_shape {base field : String} (holds : takes base field) :
    Keeps takes leaves scope (.member (.access base "shape") field) := by
  refine throughout_member.mpr ⟨⟨?_, ?_⟩, keeps_access base "shape"⟩
  · intro owner other same
    cases same
    exact holds
  · intro owner arguments same
    cases same

theorem keeps_omitting {base : String} {omitted : List String}
    (holds : leaves (.name base) [.object (omitted.map fun field => (field, .verbatim "true"))]) :
    Keeps takes leaves scope (omitting (.name base) omitted) := by
  have lenient := lenient_narrows takes leaves
  unfold omitting
  split
  · exact lenient.name base
  · refine throughout_callBelow.mpr ⟨⟨?_, ?_⟩, lenient.name base, ?_⟩
    · intro owner field same
      cases same
    · intro owner arguments same
      cases same
      exact holds
    · intro argument inArguments
      rw [List.mem_singleton.mp inArguments]
      apply lenient.object
      intro entry inEntries
      obtain ⟨field, _, rfl⟩ := List.mem_map.mp inEntries
      exact lenient.verbatim "true"

private theorem keeps_comparison (operator bound wording : String) :
    ∀ argument ∈ Refinement.comparison operator bound wording,
      Keeps takes leaves scope argument := by
  intro argument member
  rcases List.mem_cons.mp member with rfl | member
  · exact (lenient_narrows takes leaves).verbatim _
  · rw [List.mem_singleton.mp member]
    apply (lenient_narrows takes leaves).object
    intro entry inEntries
    rw [List.mem_singleton.mp inEntries]
    exact (lenient_narrows takes leaves).string _

theorem keeps_onto {owner : Expr} (other : ∀ constant, owner ≠ .access constant "shape")
    (inOwner : Keeps takes leaves scope owner) (refinement : Refinement) :
    Keeps takes leaves scope (refinement.onto owner) := by
  have lenient := lenient_narrows takes leaves
  cases refinement with
  | email => exact keeps_method other (by decide) inOwner (List.forall_mem_nil _)
  | url => exact keeps_method other (by decide) inOwner (List.forall_mem_nil _)
  | min bound =>
      exact keeps_method other (by decide) inOwner
        (List.forall_mem_singleton.mpr (lenient.verbatim bound))
  | max bound =>
      exact keeps_method other (by decide) inOwner
        (List.forall_mem_singleton.mpr (lenient.verbatim bound))
  | atLeast bound => exact keeps_method other (by decide) inOwner (keeps_comparison _ _ _)
  | atMost bound => exact keeps_method other (by decide) inOwner (keeps_comparison _ _ _)
  | regex pattern =>
      exact keeps_method other (by decide) inOwner
        (List.forall_mem_singleton.mpr (lenient.verbatim _))
  | fallback literal =>
      exact keeps_method other (by decide) inOwner
        (List.forall_mem_singleton.mpr (lenient.verbatim literal))
  | nullable => exact keeps_method other (by decide) inOwner (List.forall_mem_nil _)
  | optional => exact keeps_method other (by decide) inOwner (List.forall_mem_nil _)

theorem method_ne_access (owner : Expr) (method : String) (arguments : List Expr)
    (constant property : String) : owner.method method arguments ≠ .access constant property := by
  intro same
  cases same

theorem onto_ne_access (owner : Expr) (refinement : Refinement) (constant property : String) :
    refinement.onto owner ≠ .access constant property := by
  cases refinement <;> exact method_ne_access _ _ _ _ _

theorem keeps_ofName {method : String} (keeping : method ≠ "omit") (constant : String)
    {arguments : List Expr} (each : ∀ argument ∈ arguments, Keeps takes leaves scope argument) :
    Keeps takes leaves scope ((Expr.name constant).method method arguments) := by
  refine keeps_method ?_ keeping ((lenient_narrows takes leaves).name constant) each
  intro other same
  cases same

theorem keeps_pattern (pattern : String) :
    Keeps takes leaves scope (ValidationBase.patternExpr pattern) :=
  keeps_method (fun _ => method_ne_access _ _ _ _ _) (by decide)
    (keeps_ofName (by decide) "z" (List.forall_mem_nil _))
    (List.forall_mem_singleton.mpr ((lenient_narrows takes leaves).verbatim _))

theorem keeps_base (check : ValidationBase) : Keeps takes leaves scope check.expr := by
  cases check with
  | string => exact keeps_ofName (by decide) "z" (List.forall_mem_nil _)
  | integer =>
      exact keeps_method (fun _ => method_ne_access _ _ _ _ _) (by decide)
        (keeps_ofName (by decide) "z" (List.forall_mem_nil _)) (List.forall_mem_nil _)
  | decimal => exact keeps_pattern _
  | boolean => exact keeps_ofName (by decide) "z" (List.forall_mem_nil _)
  | date =>
      refine keeps_method ?_ (by decide) (keeps_access "z" "coerce") (List.forall_mem_nil _)
      intro constant same
      exact absurd (Expr.member.inj same).2 (by decide)
  | geographic => exact keeps_pattern _
  | enumeration schema => exact (lenient_narrows takes leaves).name schema

theorem base_ne_shape (check : ValidationBase) (constant : String) :
    check.expr ≠ .access constant "shape" := by
  cases check with
  | enumeration schema =>
      intro same
      cases same
  | _ => exact method_ne_access _ _ _ _ _

theorem keeps_chain (chain : ValidationChain) : Keeps takes leaves scope chain.expr := by
  have each : ∀ refinements : List Refinement, ∀ owner : Expr,
      (∀ constant, owner ≠ .access constant "shape") → Keeps takes leaves scope owner →
        Keeps takes leaves scope (refinements.foldl Refinement.onto owner) := by
    intro refinements
    induction refinements with
    | nil =>
        intro owner _ inOwner
        exact inOwner
    | cons refinement rest ih =>
        intro owner other inOwner
        exact ih _ (fun constant => onto_ne_access owner refinement constant "shape")
          (keeps_onto other inOwner refinement)
  exact each chain.refinements chain.base.expr (base_ne_shape chain.base) (keeps_base chain.base)

end Keeps

/-- What the file of a table takes out: fields of its own schema. -/
def Takes (table : Table) (base field : String) : Prop :=
  base = (TableNames.ofTable table.name).baseSchema ∧ field ∈ table.columnProperties

/-- What the file of a table leaves out: fields of its own schema. -/
def Leaves (table : Table) (owner : Expr) (arguments : List Expr) : Prop :=
  owner = .name (TableNames.ofTable table.name).baseSchema ∧
    ∃ omitted, arguments = [.object omitted] ∧
      ∀ field ∈ omitted, field.1 ∈ table.columnProperties

section Tables

variable (table : Table) (others : List Table) (schema : Schema)

theorem omitted_sublist :
    (table.fieldSets schema.enumerations).omitted.Sublist table.columnProperties :=
  List.filter_sublist.map _

theorem widened_sublist :
    (table.fieldSets schema.enumerations).widened.Sublist table.columnProperties :=
  List.filter_sublist.map _

theorem primaryKey_sublist :
    (table.fieldSets schema.enumerations).primaryKey.Sublist table.columnProperties := by
  apply List.Sublist.map
  unfold Table.keyColumns
  split
  · exact List.filter_sublist
  · exact List.filter_sublist

theorem keeps_baseConstant {takes : String → String → Prop}
    {leaves : Expr → List Expr → Prop} {value : Expr}
    (written : value ∈ (baseConstant (table.resolved others schema)).values) :
    Keeps takes leaves [] value := by
  rw [List.mem_singleton.mp written]
  refine keeps_ofName (by decide) "z" ?_
  intro argument inArguments
  rw [List.mem_singleton.mp inArguments]
  apply (lenient_narrows takes leaves).objectBlock
  intro key e inEntries
  obtain ⟨column, _, made⟩ := List.mem_map.mp inEntries
  obtain ⟨_, rfl⟩ := Entry.field.inj made
  exact keeps_chain column.validation

theorem keeps_insertConstant {value : Expr}
    (written : value ∈ (insertConstant (table.resolved others schema)).values) :
    Keeps (Takes table) (Leaves table) [] value := by
  rw [List.mem_singleton.mp written]
  have leaving : Keeps (Takes table) (Leaves table) []
      (omitting (.name (TableNames.ofTable table.name).baseSchema)
        (table.fieldSets schema.enumerations).omitted) := by
    refine keeps_omitting ⟨rfl, _, rfl, ?_⟩
    intro entry inEntries
    obtain ⟨field, isOmitted, rfl⟩ := List.mem_map.mp inEntries
    exact (omitted_sublist table schema).subset isOmitted
  unfold widening
  split
  · exact leaving
  · refine keeps_callBelow (by decide) leaving ?_
    intro argument inArguments
    rw [List.mem_singleton.mp inArguments]
    apply (lenient_narrows (Takes table) (Leaves table)).objectBlock
    intro key e inEntries
    obtain ⟨field, isWidened, made⟩ := List.mem_map.mp inEntries
    obtain ⟨_, rfl⟩ := Entry.field.inj made
    refine keeps_method ?_ (by decide)
      (keeps_shape ⟨rfl, (widened_sublist table schema).subset isWidened⟩) (List.forall_mem_nil _)
    intro constant same
    cases same

theorem keeps_updateConstant {value : Expr}
    (written : value ∈ (updateConstant (table.resolved others schema)).values) :
    Keeps (Takes table) (Leaves table) [] value := by
  rw [List.mem_singleton.mp written]
  have everythingOptional : Keeps (Takes table) (Leaves table) []
      ((Expr.name (TableNames.ofTable table.name).insertSchema).method "partial" []) :=
    keeps_ofName (by decide) _ (List.forall_mem_nil _)
  split
  · exact everythingOptional
  · refine keeps_method (fun _ => method_ne_access _ _ _ _ _) (by decide) everythingOptional ?_
    intro argument inArguments
    rw [List.mem_singleton.mp inArguments]
    apply (lenient_narrows (Takes table) (Leaves table)).objectBlock
    intro key e inEntries
    obtain ⟨field, isKey, made⟩ := List.mem_map.mp inEntries
    obtain ⟨_, rfl⟩ := Entry.field.inj made
    exact keeps_shape ⟨rfl, (primaryKey_sublist table schema).subset isKey⟩

/-- The file of a table takes out and leaves out fields of its own schema only. -/
theorem narrows_ofTable (settings : Settings) {part : List String × Expr}
    (member : part ∈ (ofTable settings (table.resolved others schema)).parts) :
    Narrows (Takes table) (Leaves table) part.2 := by
  refine (@Module.forall_mem_parts _ fun _ e => Narrows (Takes table) (Leaves table) e).mpr ?_
    part member
  intro paragraph inFile statement inParagraph value written
  simp only [ofTable, List.mem_cons, List.not_mem_nil, or_false] at inFile
  rcases inFile with rfl | rfl | rfl | rfl
  · rw [List.mem_singleton.mp inParagraph] at written
    exact keeps_baseConstant table others schema written
  · rw [List.mem_singleton.mp inParagraph] at written
    exact keeps_insertConstant table others schema written
  · rw [List.mem_singleton.mp inParagraph] at written
    exact keeps_updateConstant table others schema written
  · simp only [acceptedTypes, List.mem_cons, List.not_mem_nil, or_false] at inParagraph
    rcases inParagraph with rfl | rfl | rfl <;> cases written

end Tables

/-- The file of enumerations takes out and leaves out nothing. -/
theorem narrows_enums (settings : Settings) (enumerations : List Enumeration)
    {part : List String × Expr}
    (member : part ∈ (EnumModule.validation settings enumerations).parts) :
    Narrows (fun _ _ => False) (fun _ _ => False) part.2 := by
  refine (@Module.forall_mem_parts _ fun _ e =>
    Narrows (fun _ _ => False) (fun _ _ => False) e).mpr ?_ part member
  intro paragraph inFile statement inParagraph value written
  simp only [EnumModule.validation, EnumModule.file] at inFile
  split at inFile
  · rw [List.mem_singleton.mp inFile] at inParagraph
    rw [List.mem_singleton.mp inParagraph] at written
    cases written
  · obtain ⟨enumeration, _, rfl⟩ := List.mem_map.mp inFile
    simp only [EnumModule.schemaStatements, List.mem_cons, List.not_mem_nil, or_false]
      at inParagraph
    rcases inParagraph with rfl | rfl
    · rw [List.mem_singleton.mp written]
      refine keeps_ofName (by decide) "z" ?_
      intro argument inArguments
      rw [List.mem_singleton.mp inArguments]
      apply (lenient_narrows _ _).list
      intro item inItems
      obtain ⟨text, _, rfl⟩ := List.mem_map.mp inItems
      exact (lenient_narrows _ _).string text
    · cases written

end ValidationModule
end SchemaCompiler
