import SchemaCompiler.TypeScript.Module

/-
Parts of expressions.

An expression is made of others, and those inside a function see its parameters.
A property of every part is shown part by part, along the constructors.
-/

namespace SchemaCompiler
namespace TypeScript

mutual

/-- The parts of an expression, each with the parameters of the functions around
it, the innermost first. -/
@[simp] def Expr.parts (scope : List String) : Expr → List (List String × Expr)
  | .verbatim source => [(scope, .verbatim source)]
  | .name constant => [(scope, .name constant)]
  | .string content => [(scope, .string content)]
  | .json v => [(scope, .json v)]
  | .member owner property => (scope, .member owner property) :: owner.parts scope
  | .call callee arguments =>
      (scope, .call callee arguments) :: (callee.parts scope ++ partsOfItems scope arguments)
  | .callBelow owner method arguments =>
      (scope, .callBelow owner method arguments)
        :: (owner.parts scope ++ partsOfItems scope arguments)
  | .arrow parameters result =>
      (scope, .arrow parameters result) :: result.parts (parameters :: scope)
  | .grouped inner => (scope, .grouped inner) :: inner.parts scope
  | .asConst inner => (scope, .asConst inner) :: inner.parts scope
  | .list items => (scope, .list items) :: partsOfItems scope items
  | .object fields => (scope, .object fields) :: partsOfFields scope fields
  | .listBlock items => (scope, .listBlock items) :: partsOfItems scope items
  | .objectBlock entries => (scope, .objectBlock entries) :: partsOfEntries scope entries

/-- The parts of expressions. -/
@[simp] def partsOfItems (scope : List String) : List Expr → List (List String × Expr)
  | [] => []
  | item :: rest => item.parts scope ++ partsOfItems scope rest

/-- The parts of fields. -/
@[simp] def partsOfFields (scope : List String) : List (String × Expr) → List (List String × Expr)
  | [] => []
  | (_, e) :: rest => e.parts scope ++ partsOfFields scope rest

/-- The parts of entries. -/
@[simp] def partsOfEntries (scope : List String) : List (Entry Expr) → List (List String × Expr)
  | [] => []
  | .field _ e :: rest => e.parts scope ++ partsOfEntries scope rest
  | .remark _ :: rest => partsOfEntries scope rest

end

example : (Expr.arrow "()" (.access "users" "id")).parts [] =
    [([], .arrow "()" (.access "users" "id")), (["()"], .access "users" "id"),
      (["()"], .name "users")] := rfl

theorem mem_partsOfItems {scope : List String} {items : List Expr}
    {part : List String × Expr} :
    part ∈ partsOfItems scope items ↔ ∃ item ∈ items, part ∈ item.parts scope := by
  induction items with
  | nil => simp only [partsOfItems, List.not_mem_nil, false_and, exists_false]
  | cons item rest ih =>
      simp only [partsOfItems, List.mem_append, ih, List.mem_cons, or_and_right,
        exists_or, exists_eq_left]

theorem mem_partsOfFields {scope : List String} {fields : List (String × Expr)}
    {part : List String × Expr} :
    part ∈ partsOfFields scope fields ↔ ∃ field ∈ fields, part ∈ field.2.parts scope := by
  induction fields with
  | nil => simp only [partsOfFields, List.not_mem_nil, false_and, exists_false]
  | cons field rest ih =>
      simp only [partsOfFields, List.mem_append, ih, List.mem_cons, or_and_right,
        exists_or, exists_eq_left]

theorem mem_partsOfEntries {scope : List String} {entries : List (Entry Expr)}
    {part : List String × Expr} :
    part ∈ partsOfEntries scope entries ↔
      ∃ key e, Entry.field key e ∈ entries ∧ part ∈ e.parts scope := by
  induction entries with
  | nil => simp only [partsOfEntries, List.not_mem_nil, false_and, exists_false]
  | cons entry rest ih =>
      cases entry with
      | field key e =>
          simp only [partsOfEntries, List.mem_append, ih, List.mem_cons, Entry.field.injEq]
          constructor
          · rintro (first | ⟨other, value, member, later⟩)
            · exact ⟨key, e, .inl ⟨rfl, rfl⟩, first⟩
            · exact ⟨other, value, .inr member, later⟩
          · rintro ⟨other, value, ⟨rfl, rfl⟩ | member, within⟩
            · exact .inl within
            · exact .inr ⟨other, value, member, within⟩
      | remark text =>
          simp only [partsOfEntries, ih, List.mem_cons, reduceCtorEq, false_or]

/-- A property that every part of an expression has. -/
def Expr.Throughout (holds : List String → Expr → Prop) (scope : List String) (e : Expr) :
    Prop :=
  ∀ part ∈ e.parts scope, holds part.1 part.2

section Throughout

variable {holds : List String → Expr → Prop} {scope : List String}

theorem throughout_verbatim {source : String} :
    (Expr.verbatim source).Throughout holds scope ↔ holds scope (.verbatim source) := by
  simp only [Expr.Throughout, Expr.parts, List.mem_singleton, forall_eq]

theorem throughout_name {constant : String} :
    (Expr.name constant).Throughout holds scope ↔ holds scope (.name constant) := by
  simp only [Expr.Throughout, Expr.parts, List.mem_singleton, forall_eq]

theorem throughout_string {content : String} :
    (Expr.string content).Throughout holds scope ↔ holds scope (.string content) := by
  simp only [Expr.Throughout, Expr.parts, List.mem_singleton, forall_eq]

theorem throughout_json {value : Json.Value} :
    (Expr.json value).Throughout holds scope ↔ holds scope (.json value) := by
  simp only [Expr.Throughout, Expr.parts, List.mem_singleton, forall_eq]

theorem throughout_member {owner : Expr} {property : String} :
    (Expr.member owner property).Throughout holds scope ↔
      holds scope (.member owner property) ∧ owner.Throughout holds scope := by
  simp only [Expr.Throughout, Expr.parts, List.forall_mem_cons]

private theorem throughout_items {items : List Expr} :
    (∀ part ∈ partsOfItems scope items, holds part.1 part.2) ↔
      ∀ item ∈ items, item.Throughout holds scope := by
  constructor
  · intro each item member part within
    exact each part (mem_partsOfItems.mpr ⟨item, member, within⟩)
  · intro each part within
    obtain ⟨item, member, inItem⟩ := mem_partsOfItems.mp within
    exact each item member part inItem

theorem throughout_call {callee : Expr} {arguments : List Expr} :
    (Expr.call callee arguments).Throughout holds scope ↔
      holds scope (.call callee arguments) ∧ callee.Throughout holds scope ∧
        ∀ argument ∈ arguments, argument.Throughout holds scope := by
  rw [← throughout_items]
  simp only [Expr.Throughout, Expr.parts, List.forall_mem_cons, List.forall_mem_append]

theorem throughout_callBelow {owner : Expr} {method : String} {arguments : List Expr} :
    (Expr.callBelow owner method arguments).Throughout holds scope ↔
      holds scope (.callBelow owner method arguments) ∧ owner.Throughout holds scope ∧
        ∀ argument ∈ arguments, argument.Throughout holds scope := by
  rw [← throughout_items]
  simp only [Expr.Throughout, Expr.parts, List.forall_mem_cons, List.forall_mem_append]

theorem throughout_arrow {parameters : String} {result : Expr} :
    (Expr.arrow parameters result).Throughout holds scope ↔
      holds scope (.arrow parameters result) ∧
        result.Throughout holds (parameters :: scope) := by
  simp only [Expr.Throughout, Expr.parts, List.forall_mem_cons]

theorem throughout_grouped {inner : Expr} :
    (Expr.grouped inner).Throughout holds scope ↔
      holds scope (.grouped inner) ∧ inner.Throughout holds scope := by
  simp only [Expr.Throughout, Expr.parts, List.forall_mem_cons]

theorem throughout_asConst {inner : Expr} :
    (Expr.asConst inner).Throughout holds scope ↔
      holds scope (.asConst inner) ∧ inner.Throughout holds scope := by
  simp only [Expr.Throughout, Expr.parts, List.forall_mem_cons]

theorem throughout_listBlock {items : List Expr} :
    (Expr.listBlock items).Throughout holds scope ↔
      holds scope (.listBlock items) ∧ ∀ item ∈ items, item.Throughout holds scope := by
  rw [← throughout_items]
  simp only [Expr.Throughout, Expr.parts, List.forall_mem_cons]

theorem throughout_list {items : List Expr} :
    (Expr.list items).Throughout holds scope ↔
      holds scope (.list items) ∧ ∀ item ∈ items, item.Throughout holds scope := by
  rw [← throughout_items]
  simp only [Expr.Throughout, Expr.parts, List.forall_mem_cons]

theorem throughout_object {fields : List (String × Expr)} :
    (Expr.object fields).Throughout holds scope ↔
      holds scope (.object fields) ∧ ∀ field ∈ fields, field.2.Throughout holds scope := by
  simp only [Expr.Throughout, Expr.parts, List.forall_mem_cons, mem_partsOfFields]
  constructor
  · rintro ⟨whole, each⟩
    exact ⟨whole, fun field member part within => each part ⟨field, member, within⟩⟩
  · rintro ⟨whole, each⟩
    refine ⟨whole, ?_⟩
    rintro part ⟨field, member, within⟩
    exact each field member part within

theorem throughout_objectBlock {entries : List (Entry Expr)} :
    (Expr.objectBlock entries).Throughout holds scope ↔
      holds scope (.objectBlock entries) ∧
        ∀ key e, Entry.field key e ∈ entries → e.Throughout holds scope := by
  simp only [Expr.Throughout, Expr.parts, List.forall_mem_cons, mem_partsOfEntries]
  constructor
  · rintro ⟨whole, each⟩
    exact ⟨whole, fun key e member part within => each part ⟨key, e, member, within⟩⟩
  · rintro ⟨whole, each⟩
    refine ⟨whole, ?_⟩
    rintro part ⟨key, e, member, within⟩
    exact each key e member part within

theorem throughout_method {owner : Expr} {method : String} {arguments : List Expr} :
    (owner.method method arguments).Throughout holds scope ↔
      holds scope (owner.method method arguments) ∧ holds scope (.member owner method) ∧
        owner.Throughout holds scope ∧
        ∀ argument ∈ arguments, argument.Throughout holds scope := by
  rw [Expr.method, throughout_call, throughout_member, and_assoc]

end Throughout

/-- The owner, name and arguments of a method call, on one line or below. -/
def Expr.methodCall? : Expr → Option (Expr × String × List Expr)
  | .call (.member owner method) arguments => some (owner, method, arguments)
  | .callBelow owner method arguments => some (owner, method, arguments)
  | _ => none

/-- A property of members and method calls, which every other expression has. -/
def Lenient (holds : List String → Expr → Prop) : Prop :=
  ∀ scope e, (∀ owner property, e ≠ .member owner property) → e.methodCall? = none →
    holds scope e

section Lenient

variable {holds : List String → Expr → Prop} (lenient : Lenient holds) {scope : List String}
include lenient

theorem Lenient.verbatim (source : String) :
    (Expr.verbatim source).Throughout holds scope := by
  refine throughout_verbatim.mpr (lenient _ _ ?_ rfl)
  intro owner property same
  cases same

theorem Lenient.name (constant : String) : (Expr.name constant).Throughout holds scope := by
  refine throughout_name.mpr (lenient _ _ ?_ rfl)
  intro owner property same
  cases same

theorem Lenient.string (content : String) :
    (Expr.string content).Throughout holds scope := by
  refine throughout_string.mpr (lenient _ _ ?_ rfl)
  intro owner property same
  cases same

theorem Lenient.apply (function : String) {arguments : List Expr}
    (each : ∀ argument ∈ arguments, argument.Throughout holds scope) :
    (Expr.apply function arguments).Throughout holds scope := by
  refine throughout_call.mpr ⟨lenient _ _ ?_ rfl, lenient.name function, each⟩
  intro owner property same
  cases same

theorem Lenient.arrow {parameters : String} {result : Expr}
    (inResult : result.Throughout holds (parameters :: scope)) :
    (Expr.arrow parameters result).Throughout holds scope := by
  refine throughout_arrow.mpr ⟨lenient _ _ ?_ rfl, inResult⟩
  intro owner property same
  cases same

theorem Lenient.grouped {inner : Expr} (inInner : inner.Throughout holds scope) :
    (Expr.grouped inner).Throughout holds scope := by
  refine throughout_grouped.mpr ⟨lenient _ _ ?_ rfl, inInner⟩
  intro owner property same
  cases same

theorem Lenient.list {items : List Expr}
    (each : ∀ item ∈ items, item.Throughout holds scope) :
    (Expr.list items).Throughout holds scope := by
  refine throughout_list.mpr ⟨lenient _ _ ?_ rfl, each⟩
  intro owner property same
  cases same

theorem Lenient.object {fields : List (String × Expr)}
    (each : ∀ field ∈ fields, field.2.Throughout holds scope) :
    (Expr.object fields).Throughout holds scope := by
  refine throughout_object.mpr ⟨lenient _ _ ?_ rfl, each⟩
  intro owner property same
  cases same

theorem Lenient.objectBlock {entries : List (Entry Expr)}
    (each : ∀ key e, Entry.field key e ∈ entries → e.Throughout holds scope) :
    (Expr.objectBlock entries).Throughout holds scope := by
  refine throughout_objectBlock.mpr ⟨lenient _ _ ?_ rfl, each⟩
  intro owner property same
  cases same

end Lenient

/-- The expressions that a statement is written from. -/
def Statement.values : Statement → List Expr
  | .constant _ _ _ value => [value]
  | _ => []

/-- The parts of all expressions of a file. -/
def Module.parts (file : Module) : List (List String × Expr) :=
  file.paragraphs.flatten.flatMap fun statement =>
    statement.values.flatMap fun value => value.parts []

theorem Module.forall_mem_parts {file : Module} {holds : List String → Expr → Prop} :
    (∀ part ∈ file.parts, holds part.1 part.2) ↔
      ∀ paragraph ∈ file.paragraphs, ∀ statement ∈ paragraph, ∀ value ∈ statement.values,
        value.Throughout holds [] := by
  simp only [Module.parts, List.mem_flatMap, List.mem_flatten]
  constructor
  · intro each paragraph inFile statement inParagraph value written part within
    exact each part ⟨statement, ⟨paragraph, inFile, inParagraph⟩, value, written, within⟩
  · rintro each part ⟨statement, ⟨paragraph, inFile, inParagraph⟩, value, written, within⟩
    exact each paragraph inFile statement inParagraph value written part within

end TypeScript
end SchemaCompiler
