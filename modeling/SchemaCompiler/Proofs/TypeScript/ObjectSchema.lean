import SchemaCompiler.Proofs.TypeScript.Parts

/-
Object schemas.

A schema of objects is made from entries, or from another one by leaving fields out or
setting fields.  What it comes to is, for each name of a field, the schema of the
values under it, whatever the layout of the calls.
-/

namespace SchemaCompiler
namespace TypeScript

/-- The schemas of an object schema, by field. -/
abbrev Shape := String → Option Expr

namespace Shape

/-- The fields that entries write; of two under one name the later one counts. -/
def ofEntries : List (Entry Expr) → Shape
  | [], _ => none
  | .field key e :: rest, field =>
      (ofEntries rest field).or (if field = key then some e else none)
  | .remark _ :: rest, field => ofEntries rest field

/-- A shape without some fields. -/
def leaveOut (shape : Shape) (fields : List String) : Shape :=
  fun field => if field ∈ fields then none else shape field

/-- A shape with the fields of another one in place of its own. -/
def overlay (shape upper : Shape) : Shape :=
  fun field => (upper field).or (shape field)

/-- A shape whose fields may all be left out. -/
def eased (shape : Shape) : Shape :=
  fun field => (shape field).map fun e => e.method "optional" []

theorem leaveOut_nil (shape : Shape) : shape.leaveOut [] = shape := by
  funext field
  exact if_neg List.not_mem_nil

theorem overlay_ofEntries_nil (shape : Shape) : shape.overlay (ofEntries []) = shape := by
  funext field
  exact Option.none_or

section Entries

variable {α : Type} {items : List α} (key : α → String) (value : α → Expr)

theorem ofEntries_of_not_mem {field : String} (absent : field ∉ items.map key) :
    ofEntries (items.map fun item => .field (key item) (value item)) field = none := by
  induction items with
  | nil => rfl
  | cons item rest ih =>
      rw [List.map_cons, List.mem_cons, not_or] at absent
      rw [List.map_cons, ofEntries, ih absent.2, if_neg absent.1]
      rfl

theorem ofEntries_ne_none {field : String} (present : field ∈ items.map key) :
    ofEntries (items.map fun item => .field (key item) (value item)) field ≠ none := by
  induction items with
  | nil => cases present
  | cons item rest ih =>
      rw [List.map_cons, ofEntries, ne_eq, Option.or_eq_none_iff]
      rintro ⟨notLater, notHere⟩
      rcases List.mem_cons.mp present with rfl | later
      · rw [if_pos rfl] at notHere
        cases notHere
      · exact ih later notLater

theorem ofEntries_of_mem (distinct : (items.map key).Nodup) {item : α} (member : item ∈ items) :
    ofEntries (items.map fun item => .field (key item) (value item)) (key item) =
      some (value item) := by
  induction items with
  | nil => cases member
  | cons first rest ih =>
      obtain ⟨notLater, distinctRest⟩ := List.nodup_cons.mp distinct
      rw [List.map_cons, ofEntries]
      rcases List.mem_cons.mp member with rfl | later
      · rw [ofEntries_of_not_mem key value notLater, if_pos rfl]
        rfl
      · rw [ih distinctRest later]
        rfl

/-- Entries that name fields and say the same of a field wherever they name it. -/
theorem ofEntries_fields (schema : String → Expr) (fields : List String) (field : String) :
    ofEntries (fields.map fun field => .field field (schema field)) field =
      if field ∈ fields then some (schema field) else none := by
  induction fields with
  | nil => rfl
  | cons first rest ih =>
      rw [List.map_cons, ofEntries, ih]
      by_cases later : field ∈ rest
      · rw [if_pos later, if_pos (List.mem_cons_of_mem first later)]
        rfl
      · rw [if_neg later, Option.none_or]
        by_cases here : field = first
        · rw [if_pos here, if_pos (here ▸ List.mem_cons_self), here]
        · rw [if_neg here, if_neg]
          rw [List.mem_cons, not_or]
          exact ⟨here, later⟩

end Entries

end Shape

/-- The value of the first constant of a name. -/
def Statement.valueIn? (name : String) : List Statement → Option Expr
  | [] => none
  | .constant _ other _ value :: rest => if other = name then some value else valueIn? name rest
  | _ :: rest => valueIn? name rest

/-- The shape of an object schema of a file. -/
inductive HasShape (file : Module) : Expr → Shape → Prop
  | named {name : String} {value : Expr} {shape : Shape}
      (defined : Statement.valueIn? name file.paragraphs.flatten = some value)
      (ofValue : HasShape file value shape) :
      HasShape file (.name name) shape
  | object {e : Expr} {entries : List (Entry Expr)}
      (called : e.methodCall? = some (.name "z", "object", [.objectBlock entries])) :
      HasShape file e (.ofEntries entries)
  | without {e owner : Expr} {fields : List (String × Expr)} {shape : Shape}
      (called : e.methodCall? = some (owner, "omit", [.object fields]))
      (ofOwner : HasShape file owner shape) :
      HasShape file e (shape.leaveOut (fields.map Prod.fst))
  | changed {e owner : Expr} {entries : List (Entry Expr)} {shape : Shape}
      (called : e.methodCall? = some (owner, "extend", [.objectBlock entries]))
      (ofOwner : HasShape file owner shape) :
      HasShape file e (shape.overlay (.ofEntries entries))

/-- An object schema has one shape. -/
theorem HasShape.unique {file : Module} {e : Expr} {left right : Shape}
    (hasLeft : HasShape file e left) (hasRight : HasShape file e right) : left = right := by
  induction hasLeft generalizing right with
  | named defined _ ih =>
      cases hasRight with
      | named definedToo ofValue =>
          cases defined.symm.trans definedToo
          exact ih ofValue
      | object called => cases called
      | without called _ => cases called
      | changed called _ => cases called
  | object called =>
      cases hasRight with
      | named _ _ => cases called
      | object calledToo =>
          cases called.symm.trans calledToo
          rfl
      | without calledToo _ => simp [called] at calledToo
      | changed calledToo _ => simp [called] at calledToo
  | without called _ ih =>
      cases hasRight with
      | named _ _ => cases called
      | object calledToo => simp [called] at calledToo
      | without calledToo ofOwner =>
          cases called.symm.trans calledToo
          rw [ih ofOwner]
      | changed calledToo _ => simp [called] at calledToo
  | changed called _ ih =>
      cases hasRight with
      | named _ _ => cases called
      | object calledToo => simp [called] at calledToo
      | without calledToo _ => simp [called] at calledToo
      | changed calledToo ofOwner =>
          cases called.symm.trans calledToo
          rw [ih ofOwner]

theorem HasShape.eq_iff {file : Module} {e : Expr} {shape other : Shape}
    (has : HasShape file e shape) : HasShape file e other ↔ other = shape := by
  constructor
  · intro hasOther
    exact hasOther.unique has
  · intro same
    rw [same]
    exact has

/-- The shape of an object schema of a file whose fields were all let go, some of them to
be set anew. -/
inductive HasEasedShape (file : Module) : Expr → Shape → Prop
  | named {name : String} {value : Expr} {shape : Shape}
      (defined : Statement.valueIn? name file.paragraphs.flatten = some value)
      (ofValue : HasEasedShape file value shape) :
      HasEasedShape file (.name name) shape
  | eased {e owner : Expr} {shape : Shape}
      (called : e.methodCall? = some (owner, "partial", []))
      (ofOwner : HasShape file owner shape) :
      HasEasedShape file e shape.eased
  | changed {e owner : Expr} {entries : List (Entry Expr)} {shape : Shape}
      (called : e.methodCall? = some (owner, "extend", [.objectBlock entries]))
      (ofOwner : HasEasedShape file owner shape) :
      HasEasedShape file e (shape.overlay (.ofEntries entries))

theorem HasEasedShape.unique {file : Module} {e : Expr} {left right : Shape}
    (hasLeft : HasEasedShape file e left) (hasRight : HasEasedShape file e right) :
    left = right := by
  induction hasLeft generalizing right with
  | named defined _ ih =>
      cases hasRight with
      | named definedToo ofValue =>
          cases defined.symm.trans definedToo
          exact ih ofValue
      | eased called _ => cases called
      | changed called _ => cases called
  | eased called ofOwner =>
      cases hasRight with
      | named _ _ => cases called
      | eased calledToo ofOwnerToo =>
          cases called.symm.trans calledToo
          rw [ofOwner.unique ofOwnerToo]
      | changed calledToo _ => simp [called] at calledToo
  | changed called _ ih =>
      cases hasRight with
      | named _ _ => cases called
      | eased calledToo _ => simp [called] at calledToo
      | changed calledToo ofOwner =>
          cases called.symm.trans calledToo
          rw [ih ofOwner]

theorem HasEasedShape.eq_iff {file : Module} {e : Expr} {shape other : Shape}
    (has : HasEasedShape file e shape) : HasEasedShape file e other ↔ other = shape := by
  constructor
  · intro hasOther
    exact hasOther.unique has
  · intro same
    rw [same]
    exact has

/-- A schema that is made optional last. -/
def Expr.IsOptional (e : Expr) : Prop :=
  ∃ owner, e.methodCall? = some (owner, "optional", [])

theorem isOptional_method_iff {owner : Expr} {method : String} {arguments : List Expr} :
    (owner.method method arguments).IsOptional ↔ method = "optional" ∧ arguments = [] := by
  constructor
  · rintro ⟨other, called⟩
    cases called
    exact ⟨rfl, rfl⟩
  · rintro ⟨rfl, rfl⟩
    exact ⟨owner, rfl⟩

end TypeScript
end SchemaCompiler
