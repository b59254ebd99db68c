import Mathlib.Data.List.Nodup
import SchemaCompiler.Json.Record

/-
Keys of objects.

An object is built by setting one field after another, and setting a field keeps the keys
distinct.  So however often a text repeats a key, the value that is read has it once, and what
it has there is what the text has last.  A typed object that repeats one of its keys is not read.
-/

namespace SchemaCompiler
namespace Json

/-- The keys of an object, in order. -/
def Fields.keys (fields : Fields) : List String :=
  fields.map Prod.fst

theorem Fields.mem_of_get? {key : String} {value : Value} {fields : Fields}
    (found : Fields.get? key fields = some value) : (key, value) ∈ fields := by
  obtain ⟨field, looked, rfl⟩ := Option.map_eq_some_iff.mp found
  have named : field.1 = key := by simpa using List.find?_some looked
  rw [← named]
  exact List.mem_of_find?_eq_some looked

theorem Fields.isSome_get?_iff {key : String} {fields : Fields} :
    (Fields.get? key fields).isSome = true ↔ key ∈ fields.keys := by
  rw [Fields.get?, Option.isSome_map, List.find?_isSome, Fields.keys, List.mem_map]
  simp only [beq_iff_eq]

/-- Where keys are distinct, an object has the value of every entry. -/
theorem Fields.get?_eq_some_iff {key : String} {value : Value} {fields : Fields}
    (distinct : fields.keys.Nodup) :
    Fields.get? key fields = some value ↔ (key, value) ∈ fields := by
  constructor
  · exact Fields.mem_of_get?
  · intro member
    have inKeys : key ∈ fields.keys := List.mem_map_of_mem member
    obtain ⟨other, found⟩ := Option.isSome_iff_exists.mp (Fields.isSome_get?_iff.mpr inKeys)
    have same := List.inj_on_of_nodup_map distinct (Fields.mem_of_get? found) member rfl
    rw [found, (Prod.mk.inj same).2]

theorem Fields.mem_keys_put {key other : String} {value : Value} {fields : Fields}
    (member : other ∈ (fields.put key value).keys) : other = key ∨ other ∈ fields.keys := by
  induction fields with
  | nil => exact Or.inl (List.mem_singleton.mp member)
  | cons field rest ih =>
      unfold Fields.put at member
      split at member
      · rcases List.mem_cons.mp member with same | later
        · exact Or.inl same
        · exact Or.inr (List.mem_cons_of_mem _ later)
      · rcases List.mem_cons.mp member with same | later
        · exact Or.inr (same ▸ List.mem_cons_self)
        · exact (ih later).imp_right (List.mem_cons_of_mem _)

theorem Fields.nodup_keys_put (key : String) (value : Value) {fields : Fields}
    (distinct : fields.keys.Nodup) : (fields.put key value).keys.Nodup := by
  induction fields with
  | nil => exact List.nodup_singleton key
  | cons field rest ih =>
      have ⟨new, others⟩ := List.nodup_cons.mp distinct
      unfold Fields.put
      split
      · rename_i same
        exact List.nodup_cons.mpr ⟨same ▸ new, others⟩
      · rename_i apart
        refine List.nodup_cons.mpr ⟨?_, ih others⟩
        intro member
        exact (Fields.mem_keys_put member).elim apart new

theorem nodup_keys_memberValues? {room : Nat} {before fields : Fields}
    {members : List (Option String × Tree)} (distinct : before.keys.Nodup)
    (read : memberValues? room before members = some fields) : fields.keys.Nodup := by
  induction members generalizing before with
  | nil =>
      cases read
      exact distinct
  | cons member rest ih =>
      unfold memberValues? at read
      split at read
      · exact ih (Fields.nodup_keys_put _ _ distinct) read
      · cases read

theorem record?_of_scalar {room : Nat} {scalar : Scalar} {value : Value}
    (read : (Tree.scalar scalar).value? room = some value) : value.record? = none := by
  cases scalar with
  | null =>
      cases read
      rfl
  | bool known =>
      cases read
      rfl
  | number literal =>
      obtain ⟨number, _, rfl⟩ := Option.map_eq_some_iff.mp read
      rfl
  | text content =>
      obtain ⟨text, _, rfl⟩ := Option.map_eq_some_iff.mp read
      rfl

theorem exists_of_value?_object {room : Nat} {tree : Tree} {fields : Fields}
    (read : tree.value? room = some (.object fields)) : ∃ inner members,
      tree = .object members ∧ memberValues? inner [] members = some fields := by
  cases tree with
  | scalar scalar => cases record?_of_scalar read
  | array items =>
      cases room with
      | zero => cases read
      | succ room =>
          obtain ⟨values, _, made⟩ := Option.map_eq_some_iff.mp read
          cases made
  | object members =>
      cases room with
      | zero => cases read
      | succ room =>
          obtain ⟨found, given, made⟩ := Option.map_eq_some_iff.mp read
          cases made
          exact ⟨room, members, rfl, given⟩

theorem exists_of_value?_array {room : Nat} {tree : Tree} {values : List Value}
    (read : tree.value? room = some (.array values)) : ∃ inner items,
      tree = .array items ∧ itemValues? inner items = some values := by
  cases tree with
  | scalar scalar => cases record?_of_scalar read
  | array items =>
      cases room with
      | zero => cases read
      | succ room =>
          obtain ⟨found, given, made⟩ := Option.map_eq_some_iff.mp read
          cases made
          exact ⟨room, items, rfl, given⟩
  | object members =>
      cases room with
      | zero => cases read
      | succ room =>
          obtain ⟨values, _, made⟩ := Option.map_eq_some_iff.mp read
          cases made

/-- An object that is read has each of its keys once. -/
theorem nodup_keys_of_value? {room : Nat} {tree : Tree} {fields : Fields}
    (read : tree.value? room = some (.object fields)) : fields.keys.Nodup := by
  obtain ⟨inner, members, rfl, given⟩ := exists_of_value?_object read
  have empty : (Fields.keys []).Nodup := List.nodup_nil
  exact nodup_keys_memberValues? empty given

theorem nodup_keys_of_through {room : Nat} {tree : Tree} {fields : Fields}
    (read : tree.through room Value.fields? = some fields) : fields.keys.Nodup := by
  obtain ⟨value, given, object⟩ := Option.bind_eq_some_iff.mp read
  cases value with
  | object _ =>
      cases object
      exact nodup_keys_of_value? given
  | _ => cases object

/-- A field with a default holds the default or what was read. -/
theorem Record.exists_of_defaulted? {α β : Type} {record : Record α} {field : Field}
    {fallback result : β} {read? : α → Option β}
    (found : record.defaulted? field fallback read? = some result) :
    result = fallback ∨
      ∃ content, record.slot? field = some (.given content) ∧ read? content = some result := by
  unfold Record.defaulted? at found
  split at found
  · rename_i content given
    exact Or.inr ⟨content, given, found⟩
  · exact Or.inl (Option.some.inj found).symm
  · exact Or.inl (Option.some.inj found).symm
  · cases found

theorem Record.nodup_keys_of_defaulted? {room : Nat} {record : Record Tree} {field : Field}
    {fields : Fields}
    (found : record.defaulted? field [] (Tree.through room Value.fields?) = some fields) :
    fields.keys.Nodup := by
  rcases Record.exists_of_defaulted? found with omitted | ⟨content, _, read⟩
  · exact omitted ▸ List.nodup_nil
  · exact nodup_keys_of_through read

/-! ### Which member counts -/

theorem Fields.get?_cons (key : String) (field : String × Value) (rest : Fields) :
    Fields.get? key (field :: rest) = if field.1 = key then some field.2 else rest.get? key := by
  by_cases same : field.1 = key <;> simp [get?, same]

theorem Fields.get?_put (key other : String) (value : Value) (fields : Fields) :
    (fields.put key value).get? other = if key = other then some value else fields.get? other := by
  induction fields with
  | nil => exact get?_cons other (key, value) []
  | cons field rest ih =>
      unfold put
      by_cases taken : field.1 = key
      · rw [if_pos taken, get?_cons, get?_cons, taken]
        split_ifs <;> rfl
      · rw [if_neg taken, get?_cons, get?_cons, ih]
        split_ifs with first same
        · exact absurd (first.trans same.symm) taken
        · rfl
        · rfl
        · rfl

/-- The last member under a key. -/
def lastMember? (key : String) : List (Option String × Tree) → Option Tree
  | [] => none
  | (name, tree) :: rest => (lastMember? key rest).or (if name = some key then some tree else none)

/-- Two options of which both are nothing, or one is a tree and the other its value. -/
def ReadAs (room : Nat) : Option Tree → Option Value → Prop :=
  Option.Rel fun tree value => tree.value? room = some value

/-- Of several members under one key the last one counts. -/
theorem readAs_lastMember? {room : Nat} {before fields : Fields}
    {members : List (Option String × Tree)} (read : memberValues? room before members = some fields)
    (key : String) : ∃ given, ReadAs room (lastMember? key members) given ∧
      fields.get? key = given.or (before.get? key) := by
  induction members generalizing before with
  | nil =>
      cases read
      exact ⟨none, .none, rfl⟩
  | cons member rest ih =>
      obtain ⟨name, tree⟩ := member
      unfold memberValues? at read
      split at read
      · rename_i own value valued
        obtain ⟨given, last, found⟩ := ih read
        rw [Fields.get?_put] at found
        unfold lastMember?
        generalize lastMember? key rest = later at last
        cases last with
        | some known => exact ⟨_, .some known, found⟩
        | none =>
            simp only [Option.some.injEq]
            split_ifs at found ⊢ with same
            · exact ⟨some value, .some valued, found⟩
            · exact ⟨none, .none, found⟩
      · cases read

/-- What is written under a key of an object. -/
def Tree.member? (key : String) : Tree → Option Tree
  | .object members => lastMember? key members
  | .array _ | .scalar _ => none

/-- What is written for a field of a typed object. -/
def Tree.field? (place : Nat) (key : String) : Tree → Option Tree
  | .object members => lastMember? key members
  | .array items => items[place]?
  | .scalar _ => none

theorem readAs_item? {room : Nat} {items : List Tree} {values : List Value}
    (read : itemValues? room items = some values) (place : Nat) :
    ReadAs room items[place]? values[place]? := by
  induction items generalizing values place with
  | nil =>
      cases read
      exact .none
  | cons item rest ih =>
      unfold itemValues? at read
      split at read
      · rename_i value others valued later
        cases read
        cases place with
        | zero => exact .some valued
        | succ place => exact ih later place
      · cases read

theorem readAs_member? {room : Nat} {tree : Tree} {fields : Fields}
    (read : tree.value? room = some (.object fields)) (key : String) :
    ∃ inner, ReadAs inner (tree.member? key) (fields.get? key) := by
  obtain ⟨inner, members, rfl, given⟩ := exists_of_value?_object read
  obtain ⟨value, last, found⟩ := readAs_lastMember? given key
  have same : fields.get? key = value := by simpa [Fields.get?] using found
  exact ⟨inner, same ▸ last⟩

theorem Fields.filter_key {fields : Fields} (distinct : fields.keys.Nodup) (key : String) :
    (fields.filter fun entry => [key].contains entry.1) =
      ((fields.get? key).map (key, ·)).toList := by
  induction fields with
  | nil => rfl
  | cons field rest ih =>
      have ⟨new, others⟩ := List.nodup_cons.mp distinct
      rw [List.filter_cons, get?_cons, ih others]
      by_cases same : field.1 = key
      · have absent : Fields.get? key rest = none := by
          rw [← Option.not_isSome_iff_eq_none, Fields.isSome_get?_iff]
          exact same ▸ new
        rw [absent, if_pos same, if_pos (by simp [same])]
        exact same ▸ rfl
      · rw [if_neg same, if_neg (by simp [same])]

def Slot.content? {α : Type} : Slot α → Option α
  | .given content => some content
  | .omitted | .beyond => none

/-- Where keys are distinct, a field holds the value of its key. -/
theorem exists_slot?_members {fields : Fields} (distinct : fields.keys.Nodup) (place : Nat)
    (key : String) : ∃ slot, Record.slot? ⟨place, [key]⟩ (.members fields) = some slot ∧
      slot.content? = fields.get? key := by
  unfold Record.slot?
  dsimp only
  rw [Fields.filter_key distinct]
  cases fields.get? key with
  | none => exact ⟨.omitted, rfl, rfl⟩
  | some value => exact ⟨.given value, rfl, rfl⟩

theorem exists_slot?_of_record? {room : Nat} {tree : Tree} {value : Value} {record : Record Value}
    (read : tree.value? room = some value) (opened : value.record? = some record) (place : Nat)
    (key : String) : ∃ inner slot, record.slot? ⟨place, [key]⟩ = some slot ∧
      ReadAs inner (tree.field? place key) slot.content? := by
  cases value with
  | object fields =>
      cases opened
      obtain ⟨slot, found, content⟩ := exists_slot?_members (nodup_keys_of_value? read) place key
      obtain ⟨_, members, rfl, _⟩ := exists_of_value?_object read
      obtain ⟨inner, named⟩ := readAs_member? read key
      exact ⟨inner, slot, found, content ▸ named⟩
  | array values =>
      cases opened
      obtain ⟨inner, items, rfl, given⟩ := exists_of_value?_array read
      have item := readAs_item? given place
      unfold Record.slot?
      dsimp only
      cases found : values[place]? with
      | none =>
          rw [found] at item
          exact ⟨inner, .beyond, rfl, item⟩
      | some content =>
          rw [found] at item
          exact ⟨inner, .given content, rfl, item⟩
  | _ => cases opened

theorem lastMember?_of_namedMembers? {members : List (Option String × Tree)}
    {named : List (String × Tree)} (found : namedMembers? members = some named) (key : String) :
    lastMember? key members =
      (named.filter fun entry => [key].contains entry.1).getLast?.map Prod.snd := by
  induction members generalizing named with
  | nil =>
      cases found
      rfl
  | cons member rest ih =>
      obtain ⟨name, tree⟩ := member
      cases name with
      | none => cases found
      | some own =>
          obtain ⟨others, later, rfl⟩ := Option.map_eq_some_iff.mp found
          unfold lastMember?
          rw [ih later, List.filter_cons]
          by_cases same : own = key
          · rw [if_pos (by simp [same]), if_pos (by simp [same]), List.getLast?_cons]
            cases (others.filter _).getLast? <;> rfl
          · rw [if_neg (by simp [same]), if_neg (by simp [same])]
            simp

theorem field?_of_slot? {tree : Tree} {record : Record Tree} {place : Nat} {key : String}
    {content : Tree} (opened : tree.record? = some record)
    (given : record.slot? ⟨place, [key]⟩ = some (.given content)) :
    tree.field? place key = some content := by
  cases tree with
  | scalar scalar => cases opened
  | array items =>
      cases opened
      unfold Record.slot? at given
      dsimp only at given
      split at given
      · rename_i item found
        cases given
        exact found
      · cases given
  | object members =>
      obtain ⟨named, found, rfl⟩ := Option.map_eq_some_iff.mp opened
      unfold Record.slot? at given
      dsimp only at given
      split at given
      · cases given
      · rename_i entry only
        cases given
        rw [Tree.field?, lastMember?_of_namedMembers? found, only]
        rfl
      · cases given

end Json
end SchemaCompiler
