import Mathlib
import SchemaCompiler.Json.Record

/-
Changes of typed objects that their readers do not notice.

The reader of a typed object asks for its declared fields, one by one, and for nothing else.
So it cannot notice in which order the members of an object stand, nor members under keys
that no field has.  The same holds of what is inside a field when the reader of the field
does not notice the change there.
-/

namespace SchemaCompiler
namespace Json

/-- Fields that differ in their places and share no key. -/
def Field.Apart (first second : Field) : Prop :=
  first.place ≠ second.place ∧ first.keys.Disjoint second.keys

instance : Std.Symm Field.Apart where
  symm _ _ apart := ⟨apart.1.symm, apart.2.symm⟩

theorem Field.pairwise_apart {fields : List Field} (places : (fields.map Field.place).Nodup)
    (keys : (fields.flatMap Field.keys).Nodup) : fields.Pairwise Field.Apart := by
  have disjoint := (List.nodup_flatMap.mp keys).2
  exact (List.pairwise_map.mp places).and disjoint

/-- A change of a typed object with some declared fields: its members are put in another
order, a member under an undeclared key is added, or what is written for one field is
changed within. -/
inductive Record.Rearranged {α : Type} (fields : List Field) (within : Field → α → α → Prop) :
    Record α → Record α → Prop
  | moved {entries others : List (String × α)} (reordered : entries.Perm others) :
      Rearranged fields within (.members entries) (.members others)
  | added {before after : List (String × α)} {key : String} {content : α}
      (undeclared : ∀ field ∈ fields, key ∉ field.keys) :
      Rearranged fields within (.members (before ++ after))
        (.members (before ++ (key, content) :: after))
  | inMember {before after : List (String × α)} {field : Field} {key : String} {old new : α}
      (declared : field ∈ fields) (named : key ∈ field.keys) (change : within field old new) :
      Rearranged fields within (.members (before ++ (key, old) :: after))
        (.members (before ++ (key, new) :: after))
  | inItem {before after : List α} {field : Field} {old new : α}
      (declared : field ∈ fields) (placed : before.length = field.place)
      (change : within field old new) :
      Rearranged fields within (.items (before ++ old :: after)) (.items (before ++ new :: after))

/-- What is written for a field in two records: the same, or something that is changed within. -/
inductive Slot.Alike {α : Type} (within : α → α → Prop) :
    Option (Slot α) → Option (Slot α) → Prop
  | same (slot : Option (Slot α)) : Alike within slot slot
  | changed {old new : α} (change : within old new) :
      Alike within (some (.given old)) (some (.given new))

namespace Record

variable {α β : Type}

/-- What the entries for one field come to. -/
def slotOf : List (String × α) → Option (Slot α)
  | [] => some .omitted
  | [entry] => some (.given entry.2)
  | _ => none

theorem slot?_members (field : Field) (entries : List (String × α)) :
    slot? field (.members entries) =
      slotOf (entries.filter fun entry => field.keys.contains entry.1) :=
  rfl

theorem slotOf_of_perm {entries others : List (String × α)} (reordered : entries.Perm others) :
    slotOf entries = slotOf others := by
  have counted := reordered.length_eq
  match entries, others with
  | [], [] => rfl
  | [entry], [other] =>
      obtain rfl := List.singleton_perm_singleton.mp reordered
      rfl
  | _ :: _ :: _, _ :: _ :: _ => rfl
  | [], _ :: _ => cases counted
  | _ :: _, [] => cases counted
  | [_], _ :: _ :: _ => cases counted
  | _ :: _ :: _, [_] => cases counted

theorem slotOf_changed {within : α → α → Prop} {key : String} {old new : α}
    (change : within old new) (before after : List (String × α)) :
    Slot.Alike within (slotOf (before ++ (key, old) :: after))
      (slotOf (before ++ (key, new) :: after)) := by
  match before, after with
  | [], [] => exact .changed change
  | [], _ :: _ => exact .same none
  | [_], _ => exact .same none
  | _ :: _ :: _, _ => exact .same none

/-- Two records with the same written for each declared field, or something that is changed
within. -/
structure Agree (fields : List Field) (within : Field → α → α → Prop)
    (record other : Record α) : Prop where
  fits (count : Nat) : record.fits count = other.fits count
  slot (field : Field) (declared : field ∈ fields) :
    Slot.Alike (within field) (record.slot? field) (other.slot? field)

theorem slot?_added {field : Field} {key : String} (undeclared : key ∉ field.keys)
    (before after : List (String × α)) (content : α) :
    slot? field (.members (before ++ after)) =
      slot? field (.members (before ++ (key, content) :: after)) := by
  have skipped : field.keys.contains key = false := by simpa using undeclared
  simp only [slot?_members, List.filter_append, List.filter_cons, skipped, Bool.false_eq_true,
    if_false]

theorem getElem?_around {before : List α} {place : Nat} (elsewhere : before.length ≠ place)
    (after : List α) (old new : α) :
    (before ++ old :: after)[place]? = (before ++ new :: after)[place]? := by
  simp only [List.getElem?_append, List.getElem?_cons]
  split_ifs <;> first | rfl | omega

theorem agree_of_rearranged {fields : List Field} {within : Field → α → α → Prop}
    {record other : Record α} (apart : fields.Pairwise Field.Apart)
    (rearranged : Rearranged fields within record other) : Agree fields within record other := by
  cases rearranged with
  | moved reordered =>
      refine ⟨fun _ => rfl, fun field _ => ?_⟩
      rw [slot?_members, slot?_members, slotOf_of_perm (reordered.filter _)]
      exact .same _
  | added undeclared =>
      refine ⟨fun _ => rfl, fun field declared => ?_⟩
      rw [slot?_added (undeclared field declared)]
      exact .same _
  | @inMember before after own key old new inOwn named change =>
      refine ⟨fun _ => rfl, fun field declared => ?_⟩
      by_cases same : own = field
      · subst same
        have taken : own.keys.contains key = true := by simpa using named
        simp only [slot?_members, List.filter_append, List.filter_cons, taken, if_true]
        exact slotOf_changed change _ _
      · have other : key ∉ field.keys := (apart.forall inOwn declared same).2 named
        rw [← slot?_added other before after old, ← slot?_added other before after new]
        exact .same _
  | @inItem before after own old new inOwn placed change =>
      refine ⟨fun _ => by simp [fits], fun field declared => ?_⟩
      by_cases same : own = field
      · subst same
        have found (item : α) : (before ++ item :: after)[own.place]? = some item := by
          rw [← placed, List.getElem?_append_right (Nat.le_refl _), Nat.sub_self]
          rfl
        simp only [slot?, found]
        exact .changed change
      · have elsewhere : before.length ≠ field.place :=
          placed ▸ (apart.forall inOwn declared same).1
        simp only [slot?, getElem?_around elsewhere after old new]
        exact .same _

/-! ### Readers of fields -/

/-- Whether a reader does not notice some changes. -/
def Ignores {α β : Type} (change : α → α → Prop) (read : α → β) : Prop :=
  ∀ old new, change old new → read old = read new

namespace Agree

variable {fields : List Field} {within : Field → α → α → Prop} {record other : Record α}
  {field : Field} {read? : α → Option β}

theorem required? (agree : Agree fields within record other) (declared : field ∈ fields)
    (ignores : Ignores (within field) read?) :
    record.required? field read? = other.required? field read? := by
  have slots := agree.slot field declared
  unfold Record.required?
  generalize record.slot? field = first at slots
  generalize other.slot? field = second at slots
  cases slots with
  | same slot => rfl
  | changed change => exact ignores _ _ change

theorem defaulted? (agree : Agree fields within record other) (declared : field ∈ fields)
    (fallback : β) (ignores : Ignores (within field) read?) :
    record.defaulted? field fallback read? = other.defaulted? field fallback read? := by
  have slots := agree.slot field declared
  unfold Record.defaulted?
  generalize record.slot? field = first at slots
  generalize other.slot? field = second at slots
  cases slots with
  | same slot => rfl
  | changed change => exact ignores _ _ change

theorem optional? (agree : Agree fields within record other) (declared : field ∈ fields)
    {isNull : α → Bool} (nulls : Ignores (within field) isNull)
    (ignores : Ignores (within field) read?) :
    record.optional? field isNull read? = other.optional? field isNull read? := by
  have slots := agree.slot field declared
  unfold Record.optional?
  generalize record.slot? field = first at slots
  generalize other.slot? field = second at slots
  cases slots with
  | same slot => rfl
  | changed change => simp only [nulls _ _ change, ignores _ _ change]

end Agree
end Record

/-! ### The order of keys in values -/

/-- Two values that differ in the order of the keys of one object. -/
inductive Value.Shuffled : Value → Value → Prop
  | keys {fields others : Fields} (reordered : fields.Perm others) :
      Shuffled (.object fields) (.object others)
  | inField {before after : Fields} {key : String} {old new : Value} (shuffled : Shuffled old new) :
      Shuffled (.object (before ++ (key, old) :: after)) (.object (before ++ (key, new) :: after))
  | inItem {before after : List Value} {old new : Value} (shuffled : Shuffled old new) :
      Shuffled (.array (before ++ old :: after)) (.array (before ++ new :: after))

namespace Value

theorem ignores_text? : Record.Ignores Shuffled text? := by
  rintro _ _ (_ | _ | _) <;> rfl

theorem ignores_bool? : Record.Ignores Shuffled bool? := by
  rintro _ _ (_ | _ | _) <;> rfl

theorem ignores_wholeIn? (least greatest : Int) :
    Record.Ignores Shuffled (wholeIn? least greatest) := by
  rintro _ _ (_ | _ | _) <;> rfl

theorem ignores_double? : Record.Ignores Shuffled double? := by
  rintro _ _ (_ | _ | _) <;> rfl

theorem ignores_isNull : Record.Ignores Shuffled isNull := by
  rintro _ _ (_ | _ | _) <;> rfl

theorem ignores_listOf? {β : Type} {read? : Value → Option β}
    (ignores : Record.Ignores Shuffled read?) : Record.Ignores Shuffled (listOf? read?) := by
  rintro _ _ (_ | _ | shuffled)
  · rfl
  · rfl
  · simp only [listOf?, List.mapM_append, List.mapM_cons, ignores _ _ shuffled]

end Value

/-- Two values that are typed objects of which one is the other one rearranged. -/
def Value.Rearranged (fields : List Field) (within : Field → Value → Value → Prop)
    (old new : Value) : Prop :=
  ∃ record other, old.record? = some record ∧ new.record? = some other ∧
    record.Rearranged fields within other

/-- Two trees that are typed objects of which one is the other one rearranged. -/
def Tree.Rearranged (fields : List Field) (within : Field → Tree → Tree → Prop)
    (old new : Tree) : Prop :=
  ∃ record other, old.record? = some record ∧ new.record? = some other ∧
    record.Rearranged fields within other

/-- Two trees that are read as values of which one is the other one changed, or are both no
values. -/
def Tree.Holds (room : Nat) (change : Value → Value → Prop) (old new : Tree) : Prop :=
  Option.Rel change (old.value? room) (new.value? room)

namespace Tree

variable {room : Nat} {change : Value → Value → Prop}

theorem ignores_through {β : Type} {read? : Value → Option β}
    (ignores : Record.Ignores change read?) :
    Record.Ignores (Holds room change) (Tree.through room read?) := by
  intro old new holds
  unfold Holds at holds
  unfold Tree.through
  generalize old.value? room = first at holds
  generalize new.value? room = second at holds
  cases holds with
  | some known => exact ignores _ _ known
  | none => rfl

theorem isNull_eq (tree : Tree) (room : Nat) :
    tree.isNull = (tree.value? room).elim false Value.isNull := by
  cases tree with
  | scalar scalar =>
      cases scalar with
      | null => rfl
      | bool value => rfl
      | number literal =>
          rw [value?, Scalar.value?]
          cases Number.ofLiteral? literal <;> rfl
      | text content => cases content <;> rfl
  | array items =>
      cases room with
      | zero => rfl
      | succ room =>
          rw [value?]
          cases itemValues? room items <;> rfl
  | object members =>
      cases room with
      | zero => rfl
      | succ room =>
          rw [value?]
          cases memberValues? room [] members <;> rfl

theorem ignores_isNull (nulls : Record.Ignores change Value.isNull) :
    Record.Ignores (Holds room change) Tree.isNull := by
  intro old new holds
  unfold Holds at holds
  rw [isNull_eq old room, isNull_eq new room]
  generalize old.value? room = first at holds
  generalize new.value? room = second at holds
  cases holds with
  | some known => exact nulls _ _ known
  | none => rfl

theorem isNull_of_record? {tree : Tree} {record : Record Tree}
    (found : tree.record? = some record) : tree.isNull = false := by
  cases tree with
  | scalar scalar => cases found
  | array items => rfl
  | object members => rfl

end Tree

theorem Value.isNull_of_record? {value : Value} {record : Record Value}
    (found : value.record? = some record) : value.isNull = false := by
  cases value <;> first | rfl | cases found

end Json
end SchemaCompiler
