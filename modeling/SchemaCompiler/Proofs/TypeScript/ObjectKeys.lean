import Mathlib.Data.List.Nodup
import SchemaCompiler.Proofs.TypeScript.Parts

/-
Keys of objects.

Of the fields of an object that are written under one key, only the last is kept.  An
expression keeps its keys when none of the objects in it writes a key twice.  What JSON values
hold is not looked into.
-/

namespace SchemaCompiler
namespace TypeScript

def Entry.keys {α : Type} : Entry α → List String
  | .field key _ => [key]
  | .remark _ => []

/-- The keys of the fields of an object, in order. -/
def Expr.keys : Expr → List String
  | .object fields => fields.map Prod.fst
  | .objectBlock entries => entries.flatMap Entry.keys
  | _ => []

/-- An expression that is an object, in whatever scope, does not write a key twice. -/
def KeysDiffer (_ : List String) (e : Expr) : Prop :=
  e.keys.Nodup

/-- No object in an expression writes a key twice. -/
def Expr.KeepsKeys (scope : List String) (e : Expr) : Prop :=
  e.Throughout KeysDiffer scope

@[simp] def Entry.KeepsKeys (scope : List String) : Entry Expr → Prop
  | .field _ e => e.KeepsKeys scope
  | .remark _ => True

/-- No object in a file writes a key twice. -/
def Module.KeepsKeys (file : Module) : Prop :=
  ∀ part ∈ file.parts, KeysDiffer part.1 part.2

@[simp] theorem keys_of_fields {α β : Type} {key : α → String} {value : α → β}
    {items : List α} :
    (items.map fun item => Entry.field (key item) (value item)).flatMap Entry.keys =
      items.map key := by
  rw [List.flatMap_map, List.map_eq_flatMap]
  rfl

section Expressions

variable {scope : List String}

@[simp] theorem keepsKeys_verbatim (source : String) :
    (Expr.verbatim source).KeepsKeys scope :=
  throughout_verbatim.mpr List.nodup_nil

@[simp] theorem keepsKeys_name (constant : String) : (Expr.name constant).KeepsKeys scope :=
  throughout_name.mpr List.nodup_nil

@[simp] theorem keepsKeys_string (content : String) : (Expr.string content).KeepsKeys scope :=
  throughout_string.mpr List.nodup_nil

@[simp] theorem keepsKeys_json (value : Json.Value) : (Expr.json value).KeepsKeys scope :=
  throughout_json.mpr List.nodup_nil

@[simp] theorem keepsKeys_member {owner : Expr} {property : String} :
    (Expr.member owner property).KeepsKeys scope ↔ owner.KeepsKeys scope :=
  throughout_member.trans (and_iff_right List.nodup_nil)

@[simp] theorem keepsKeys_call {callee : Expr} {arguments : List Expr} :
    (Expr.call callee arguments).KeepsKeys scope ↔
      callee.KeepsKeys scope ∧ ∀ argument ∈ arguments, argument.KeepsKeys scope :=
  throughout_call.trans (and_iff_right List.nodup_nil)

@[simp] theorem keepsKeys_callBelow {owner : Expr} {method : String} {arguments : List Expr} :
    (Expr.callBelow owner method arguments).KeepsKeys scope ↔
      owner.KeepsKeys scope ∧ ∀ argument ∈ arguments, argument.KeepsKeys scope :=
  throughout_callBelow.trans (and_iff_right List.nodup_nil)

@[simp] theorem keepsKeys_arrow {parameters : String} {result : Expr} :
    (Expr.arrow parameters result).KeepsKeys scope ↔ result.KeepsKeys (parameters :: scope) :=
  throughout_arrow.trans (and_iff_right List.nodup_nil)

@[simp] theorem keepsKeys_grouped {inner : Expr} :
    (Expr.grouped inner).KeepsKeys scope ↔ inner.KeepsKeys scope :=
  throughout_grouped.trans (and_iff_right List.nodup_nil)

@[simp] theorem keepsKeys_asConst {inner : Expr} :
    (Expr.asConst inner).KeepsKeys scope ↔ inner.KeepsKeys scope :=
  throughout_asConst.trans (and_iff_right List.nodup_nil)

@[simp] theorem keepsKeys_list {items : List Expr} :
    (Expr.list items).KeepsKeys scope ↔ ∀ item ∈ items, item.KeepsKeys scope :=
  throughout_list.trans (and_iff_right List.nodup_nil)

@[simp] theorem keepsKeys_listBlock {items : List Expr} :
    (Expr.listBlock items).KeepsKeys scope ↔ ∀ item ∈ items, item.KeepsKeys scope :=
  throughout_listBlock.trans (and_iff_right List.nodup_nil)

@[simp] theorem keepsKeys_object {fields : List (String × Expr)} :
    (Expr.object fields).KeepsKeys scope ↔
      (fields.map Prod.fst).Nodup ∧ ∀ field ∈ fields, field.2.KeepsKeys scope :=
  throughout_object

@[simp] theorem keepsKeys_objectBlock {entries : List (Entry Expr)} :
    (Expr.objectBlock entries).KeepsKeys scope ↔
      (entries.flatMap Entry.keys).Nodup ∧ ∀ entry ∈ entries, entry.KeepsKeys scope := by
  rw [Expr.KeepsKeys, throughout_objectBlock]
  apply and_congr_right
  intro _
  constructor
  · rintro each (⟨key, e⟩ | text) member
    · exact each key e member
    · trivial
  · intro each key e member
    exact each _ member

@[simp] theorem keepsKeys_apply {function : String} {arguments : List Expr} :
    (Expr.apply function arguments).KeepsKeys scope ↔
      ∀ argument ∈ arguments, argument.KeepsKeys scope :=
  keepsKeys_call.trans (and_iff_right (keepsKeys_name function))

@[simp] theorem keepsKeys_method {owner : Expr} {method : String} {arguments : List Expr} :
    (owner.method method arguments).KeepsKeys scope ↔
      owner.KeepsKeys scope ∧ ∀ argument ∈ arguments, argument.KeepsKeys scope := by
  rw [Expr.method, keepsKeys_call, keepsKeys_member]

@[simp] theorem keepsKeys_access (constant property : String) :
    (Expr.access constant property).KeepsKeys scope :=
  keepsKeys_member.mpr (keepsKeys_name constant)

end Expressions

theorem Module.keepsKeys_iff {file : Module} :
    file.KeepsKeys ↔ ∀ paragraph ∈ file.paragraphs, ∀ statement ∈ paragraph,
      ∀ value ∈ statement.values, value.KeepsKeys [] :=
  Module.forall_mem_parts

end TypeScript
end SchemaCompiler
