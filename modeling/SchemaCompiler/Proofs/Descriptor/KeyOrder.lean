import SchemaCompiler.Proofs.Json.Rearranged
import SchemaCompiler.Proofs.Schema.Loading

/-
What the order of keys means in a table descriptor.

A table descriptor is made of typed objects: the table, its columns with their references,
rules and hints, its indexes, its relationships, its list view and the order of that.  None of
their readers notices in which order their keys are written, nor keys that are not declared.
The maps of columns, indexes and relationships and the seed rows are no typed objects: their
keys are names that somebody chose, and their order is that of the table.
-/

namespace SchemaCompiler
namespace Descriptor

open Json (Field Record Tree Value)

/-! ### The declared keys -/

def referenceFields : List Field :=
  [⟨0, ["table"]⟩, ⟨1, ["column"]⟩, ⟨2, ["onDelete"]⟩]

/-- The fields of rules for input. -/
def rulesFields : List Field :=
  [⟨0, ["required"]⟩, ⟨1, ["min"]⟩, ⟨2, ["max"]⟩, ⟨3, ["minLength"]⟩, ⟨4, ["maxLength"]⟩,
    ⟨5, ["pattern"]⟩, ⟨6, ["email"]⟩, ⟨7, ["url"]⟩]

/-- The fields of hints for forms. -/
def formFields : List Field :=
  [⟨0, ["label"]⟩, ⟨1, ["placeholder"]⟩, ⟨2, ["helpText"]⟩, ⟨3, ["section"]⟩, ⟨4, ["order"]⟩,
    ⟨5, ["format"]⟩, ⟨6, ["readonly"]⟩, ⟨7, ["hidden"]⟩]

def columnFields : List Field :=
  [⟨0, ["type"]⟩, ⟨1, ["nullable"]⟩, ⟨2, ["length"]⟩, ⟨3, ["precision"]⟩, ⟨4, ["scale"]⟩,
    ⟨5, ["default"]⟩, ⟨6, ["unique"]⟩, ⟨7, ["primaryKey"]⟩, ⟨8, ["references"]⟩,
    ⟨9, ["validation"]⟩, ⟨10, ["ui"]⟩]

def indexFields : List Field :=
  [⟨0, ["columns"]⟩, ⟨1, ["unique"]⟩]

def relationshipFields : List Field :=
  [⟨0, ["type", "kind"]⟩, ⟨1, ["table", "target"]⟩, ⟨2, ["through"]⟩]

/-- The fields of the order of a list view. -/
def sortFields : List Field :=
  [⟨0, ["field"]⟩, ⟨1, ["direction"]⟩]

def listViewFields : List Field :=
  [⟨0, ["listColumns"]⟩, ⟨1, ["searchable"]⟩, ⟨2, ["sortable"]⟩, ⟨3, ["filterable"]⟩,
    ⟨4, ["defaultSort"]⟩, ⟨5, ["pageSize"]⟩]

def tableFields : List Field :=
  [⟨0, ["name"]⟩, ⟨1, ["displayName"]⟩, ⟨2, ["icon"]⟩, ⟨3, ["description"]⟩, ⟨4, ["columns"]⟩,
    ⟨5, ["indexes"]⟩, ⟨6, ["relationships"]⟩, ⟨7, ["seed", "seedData"]⟩, ⟨8, ["ui"]⟩]

/-! ### Rearranged descriptors -/

/-- A typed object with only plain fields, rearranged. -/
def FlatRearranged (fields : List Field) : Value → Value → Prop :=
  Value.Rearranged fields fun _ => Value.Shuffled

/-- A column, rearranged by itself or in one of the typed objects inside it. -/
def ColumnRearranged : Value → Value → Prop :=
  Value.Rearranged columnFields fun field =>
    match field.place with
    | 8 => FlatRearranged referenceFields
    | 9 => FlatRearranged rulesFields
    | 10 => FlatRearranged formFields
    | _ => Value.Shuffled

/-- A map from names to bodies with one of the bodies changed. -/
def BodyChanged (change : Value → Value → Prop) (old new : Value) : Prop :=
  ∃ (before after : Json.Fields) (name : String) (body changed : Value),
    old = .object (before ++ (name, body) :: after) ∧
      new = .object (before ++ (name, changed) :: after) ∧ change body changed

/-- The order of a list view, rearranged; its text may open `room` arrays and objects. -/
def SortRearranged (room : Nat) : Tree → Tree → Prop :=
  Tree.Rearranged sortFields fun _ => Tree.Holds (room - 1) Value.Shuffled

/-- A list view, rearranged by itself or in its order. -/
def ListViewRearranged (room : Nat) : Tree → Tree → Prop :=
  Tree.Rearranged listViewFields fun field =>
    match field.place with
    | 4 => SortRearranged (room - 1)
    | _ => Tree.Holds (room - 1) Value.Shuffled

/-- A table descriptor, rearranged by itself or in one of the typed objects inside it.  Seed
rows stay as they are. -/
def TableRearranged : Tree → Tree → Prop :=
  Tree.Rearranged tableFields fun field =>
    match field.place with
    | 4 => Tree.Holds (Json.greatestDepth - 1) (BodyChanged ColumnRearranged)
    | 5 => Tree.Holds (Json.greatestDepth - 1) (BodyChanged (FlatRearranged indexFields))
    | 6 => Tree.Holds (Json.greatestDepth - 1) (BodyChanged (FlatRearranged relationshipFields))
    | 7 => fun _ _ => False
    | 8 => ListViewRearranged (Json.greatestDepth - 1)
    | _ => Tree.Holds (Json.greatestDepth - 1) Value.Shuffled

/-! ### Readers of typed objects -/

open Json.Record (Agree Ignores)

theorem ignores_count? : Ignores Value.Shuffled count? := by
  intro old new shuffled
  rw [count?, count?, Value.natOfBits?, Value.natOfBits?,
    Value.ignores_wholeIn? _ _ old new shuffled]

theorem ignores_signed? : Ignores Value.Shuffled signed? :=
  Value.ignores_wholeIn? _ _

theorem ignores_texts? : Ignores Value.Shuffled texts? :=
  Value.ignores_listOf? Value.ignores_text?

/-! ### Results that are alike -/

section Alike

variable {α α' β β' : Type} {R : α → α' → Prop} {S : β → β' → Prop}

theorem rel_self {R : α → α → Prop} (self : ∀ a, R a a) (read : Option α) :
    Option.Rel R read read := by
  cases read with
  | some a => exact .some (self a)
  | none => exact .none

theorem eq_of_rel {first second : Option α} (alike : Option.Rel Eq first second) :
    first = second := by
  cases alike with
  | some same => rw [same]
  | none => rfl

theorem rel_bind {first : Option α} {second : Option α'} {next : α → Option β}
    {other : α' → Option β'} (alike : Option.Rel R first second)
    (each : ∀ a b, R a b → Option.Rel S (next a) (other b)) :
    Option.Rel S (first >>= next) (second >>= other) := by
  cases alike with
  | some known => exact each _ _ known
  | none => exact .none

theorem rel_bind_self (read : Option α) {next : α → Option β} {other : α → Option β'}
    (each : ∀ a, Option.Rel S (next a) (other a)) :
    Option.Rel S (read >>= next) (read >>= other) :=
  rel_bind (rel_self (fun _ => rfl) read) fun a _ same => same ▸ each a

theorem wellFormed_bind_congr {R : α → α → Prop} {first second : Option α}
    (alike : Option.Rel R first second) {next : α → Except Problem β}
    (each : ∀ a b, R a b → next a = next b) :
    wellFormed first >>= next = wellFormed second >>= next := by
  cases alike with
  | some known => exact each _ _ known
  | none => rfl

end Alike

section Records

variable {α β : Type} {fields : List Field} {within : Field → Value → Value → Prop}

theorem rel_readRecord? {R : α → α → Prop} {fieldCount : Nat} {read? : Record Value → Option α}
    {old new : Value} (places : (fields.map Field.place).Nodup)
    (keys : (fields.flatMap Field.keys).Nodup) (rearranged : Value.Rearranged fields within old new)
    (reads : ∀ record other, Agree fields within record other →
      Option.Rel R (read? record) (read? other)) :
    Option.Rel R (readRecord? fieldCount read? old) (readRecord? fieldCount read? new) := by
  obtain ⟨record, other, found, foundOther, change⟩ := rearranged
  have agree := Record.agree_of_rearranged (Field.pairwise_apart places keys) change
  rw [readRecord?, readRecord?, found, foundOther]
  show Option.Rel R (if record.fits fieldCount then _ else _)
    (if other.fits fieldCount then _ else _)
  rw [agree.fits]
  split_ifs
  · exact reads record other agree
  · exact .none

theorem ignores_readRecord? {fieldCount : Nat} {read? : Record Value → Option α}
    (places : (fields.map Field.place).Nodup) (keys : (fields.flatMap Field.keys).Nodup)
    (reads : ∀ record other, Agree fields within record other → read? record = read? other) :
    Ignores (Value.Rearranged fields within) (readRecord? fieldCount read?) := by
  intro old new rearranged
  refine eq_of_rel (rel_readRecord? places keys rearranged fun record other agree => ?_)
  rw [reads record other agree]
  exact rel_self (fun _ => rfl) _

theorem ignores_isNull_of_rearranged :
    Ignores (Value.Rearranged fields within) Value.isNull := by
  rintro old new ⟨_, _, found, foundOther, _⟩
  rw [Value.isNull_of_record? found, Value.isNull_of_record? foundOther]

variable {record other : Record Value} (agree : Agree fields within record other)

include agree

theorem plainField?_congr {read? : Value → Option β} (ignores : Ignores Value.Shuffled read?)
    {place : Nat} {key : String} (declared : ⟨place, [key]⟩ ∈ fields)
    (plain : within ⟨place, [key]⟩ = Value.Shuffled) :
    optionalField? record place key read? = optionalField? other place key read? :=
  agree.optional? declared (plain ▸ Value.ignores_isNull) (plain ▸ ignores)

theorem flag?_congr {place : Nat} {key : String} (declared : ⟨place, [key]⟩ ∈ fields)
    (plain : within ⟨place, [key]⟩ = Value.Shuffled) :
    flag? record place key = flag? other place key :=
  agree.defaulted? declared false (plain ▸ Value.ignores_bool?)

end Records

theorem ignores_readReference? : Ignores (FlatRearranged referenceFields) readReference? := by
  apply ignores_readRecord? (by decide) (by decide)
  intro record other agree
  rw [agree.required? (by simp [referenceFields]) Value.ignores_text?,
    agree.defaulted? (by simp [referenceFields]) ForeignKey.usualColumn Value.ignores_text?,
    plainField?_congr agree Value.ignores_text? (by simp [referenceFields]) rfl]

theorem ignores_readRules? : Ignores (FlatRearranged rulesFields) readRules? := by
  apply ignores_readRecord? (by decide) (by decide)
  intro record other agree
  rw [plainField?_congr agree Value.ignores_bool? (by simp [rulesFields]) rfl,
    plainField?_congr agree Value.ignores_double? (by simp [rulesFields]) rfl,
    plainField?_congr agree Value.ignores_double? (by simp [rulesFields]) rfl,
    plainField?_congr agree ignores_count? (by simp [rulesFields]) rfl,
    plainField?_congr agree ignores_count? (by simp [rulesFields]) rfl,
    plainField?_congr agree Value.ignores_text? (by simp [rulesFields]) rfl,
    flag?_congr agree (by simp [rulesFields]) rfl, flag?_congr agree (by simp [rulesFields]) rfl]

theorem ignores_readForm? : Ignores (FlatRearranged formFields) readForm? := by
  apply ignores_readRecord? (by decide) (by decide)
  intro record other agree
  rw [plainField?_congr agree Value.ignores_text? (by simp [formFields]) rfl,
    plainField?_congr agree Value.ignores_text? (by simp [formFields]) rfl,
    plainField?_congr agree Value.ignores_text? (by simp [formFields]) rfl,
    plainField?_congr agree Value.ignores_text? (by simp [formFields]) rfl,
    plainField?_congr agree ignores_signed? (by simp [formFields]) rfl,
    plainField?_congr agree Value.ignores_text? (by simp [formFields]) rfl,
    flag?_congr agree (by simp [formFields]) rfl, flag?_congr agree (by simp [formFields]) rfl]

/-! ### Columns -/

/-- Two written defaults that come to the same, also as an error. -/
def DefaultsAlike (first second : Option Value) : Prop :=
  ∀ column, defaultOfValue column (first.getD .null) = defaultOfValue column (second.getD .null)

/-- Two columns that differ only in defaults that come to the same. -/
def WrittenColumn.Alike (written other : WrittenColumn) : Prop :=
  ∃ fallback, DefaultsAlike written.fallback fallback ∧ other = { written with fallback }

theorem WrittenColumn.toColumn_congr {written other : WrittenColumn} (alike : written.Alike other)
    (name : String) : written.toColumn name = other.toColumn name := by
  obtain ⟨fallback, standard, rfl⟩ := alike
  simp only [toColumn, standard name]

theorem ignores_defaultOfValue (column : String) :
    Ignores Value.Shuffled (defaultOfValue column) := by
  rintro _ _ (_ | _ | _) <;> rfl

theorem rel_default {within : Field → Value → Value → Prop} {record other : Record Value}
    (agree : Agree columnFields within record other)
    (plain : within ⟨5, ["default"]⟩ = Value.Shuffled) :
    Option.Rel DefaultsAlike (optionalField? record 5 "default" some)
      (optionalField? other 5 "default" some) := by
  have slots := agree.slot ⟨5, ["default"]⟩ (by simp [columnFields])
  rw [plain] at slots
  unfold optionalField? Record.optional?
  generalize record.slot? ⟨5, ["default"]⟩ = first at slots
  generalize other.slot? ⟨5, ["default"]⟩ = second at slots
  cases slots with
  | same slot => exact rel_self (fun _ _ => rfl) _
  | @changed old new change =>
      show Option.Rel DefaultsAlike (if old.isNull then _ else _) (if new.isNull then _ else _)
      rw [Value.ignores_isNull _ _ change]
      split_ifs
      · exact .some fun _ => rfl
      · exact .some fun column => ignores_defaultOfValue column _ _ change

theorem rel_readColumnBody? {old new : Value} (rearranged : ColumnRearranged old new) :
    Option.Rel WrittenColumn.Alike (readColumnBody? old) (readColumnBody? new) := by
  apply rel_readRecord? (by decide) (by decide) rearranged
  intro record other agree
  have references : optionalField? record 8 "references" readReference? =
      optionalField? other 8 "references" readReference? :=
    agree.optional? (show ⟨8, ["references"]⟩ ∈ columnFields by simp [columnFields])
      ignores_isNull_of_rearranged ignores_readReference?
  rw [agree.required? (show ⟨0, ["type"]⟩ ∈ columnFields by simp [columnFields])
      Value.ignores_text?,
    flag?_congr agree (by simp [columnFields]) rfl,
    plainField?_congr agree ignores_count? (by simp [columnFields]) rfl,
    plainField?_congr agree ignores_count? (by simp [columnFields]) rfl,
    plainField?_congr agree ignores_count? (by simp [columnFields]) rfl,
    flag?_congr agree (by simp [columnFields]) rfl,
    flag?_congr agree (by simp [columnFields]) rfl, references,
    agree.defaulted? (show ⟨9, ["validation"]⟩ ∈ columnFields by simp [columnFields]) _
      ignores_readRules?,
    agree.defaulted? (show ⟨10, ["ui"]⟩ ∈ columnFields by simp [columnFields]) _
      ignores_readForm?]
  -- What is left are the two defaults, which come to the same.
  iterate 5 refine rel_bind_self _ fun _ => ?_
  refine rel_bind (rel_default agree rfl) fun _ fallback standard => ?_
  iterate 5 refine rel_bind_self _ fun _ => ?_
  exact .some ⟨fallback, standard, rfl⟩

theorem ignores_readColumn (name : String) : Ignores ColumnRearranged (readColumn name) := by
  intro old new rearranged
  exact wellFormed_bind_congr (rel_readColumnBody? rearranged) fun _ _ alike =>
    WrittenColumn.toColumn_congr alike name

/-! ### Indexes and relationships -/

theorem ignores_readIndex (name : String) :
    Ignores (FlatRearranged indexFields) (readIndex name) := by
  intro old new rearranged
  have reads : Ignores (FlatRearranged indexFields) (readRecord? 2 fun record => do
      let columns ← record.required? ⟨0, ["columns"]⟩ texts?
      let unique ← flag? record 1 "unique"
      return (⟨name, columns, unique⟩ : Index)) := by
    apply ignores_readRecord? (by decide) (by decide)
    intro record other agree
    rw [agree.required? (by simp [indexFields]) ignores_texts?,
      flag?_congr agree (by simp [indexFields]) rfl]
  rw [readIndex, readIndex, reads old new rearranged]

theorem ignores_readRelationship (name : String) :
    Ignores (FlatRearranged relationshipFields) (readRelationship name) := by
  intro old new rearranged
  have reads : Ignores (FlatRearranged relationshipFields) (readRecord? 3 fun record => do
      let spelling ← record.required? ⟨0, ["type", "kind"]⟩ Value.text?
      let target ← record.required? ⟨1, ["table", "target"]⟩ Value.text?
      let through ← optionalField? record 2 "through" Value.text?
      return (spelling, target, through)) := by
    apply ignores_readRecord? (by decide) (by decide)
    intro record other agree
    rw [agree.required? (by simp [relationshipFields]) Value.ignores_text?,
      agree.required? (by simp [relationshipFields]) Value.ignores_text?,
      plainField?_congr agree Value.ignores_text? (by simp [relationshipFields]) rfl]
  rw [readRelationship, readRelationship, reads old new rearranged]

/-! ### Maps of bodies -/

section Bodies

variable {α : Type} {read : String → Value → Except Problem α} {change : Value → Value → Prop}
  (readAll : Json.Fields → Except Problem (List α))
  (cons : ∀ name body rest, readAll ((name, body) :: rest) = do
    let item ← read name body
    let others ← readAll rest
    return item :: others)

include cons

/-- Columns, indexes and relationships are all read from bodies one by one, so a change that
the reader of one body does not notice is not noticed in the map. -/
theorem ignores_readAll (ignores : ∀ name, Ignores change (read name)) {old new : Value}
    (changed : BodyChanged change old new) :
    Option.Rel (fun first second => readAll first = readAll second) old.fields? new.fields? := by
  obtain ⟨before, after, name, body, other, rfl, rfl, within⟩ := changed
  refine .some ?_
  induction before with
  | nil => rw [List.nil_append, List.nil_append, cons, cons, ignores name body other within]
  | cons entry before ih =>
      obtain ⟨first, content⟩ := entry
      rw [List.cons_append, List.cons_append, cons, cons, ih]

end Bodies

/-! ### Typed objects of the text -/

section Trees

variable {α β : Type} {fields : List Field} {within : Field → Tree → Tree → Prop}

theorem rel_readTreeRecord? {R : α → α → Prop} {room fieldCount : Nat}
    {read? : Nat → Record Tree → Option α} {old new : Tree}
    (places : (fields.map Field.place).Nodup) (keys : (fields.flatMap Field.keys).Nodup)
    (rearranged : Tree.Rearranged fields within old new)
    (reads : ∀ record other, Agree fields within record other →
      Option.Rel R (read? (room - 1) record) (read? (room - 1) other)) :
    Option.Rel R (readTreeRecord? room fieldCount read? old)
      (readTreeRecord? room fieldCount read? new) := by
  obtain ⟨record, other, found, foundOther, change⟩ := rearranged
  have agree := Record.agree_of_rearranged (Field.pairwise_apart places keys) change
  cases room with
  | zero => exact .none
  | succ room =>
      rw [readTreeRecord?, readTreeRecord?, found, foundOther]
      show Option.Rel R (if record.fits fieldCount then _ else _)
        (if other.fits fieldCount then _ else _)
      rw [agree.fits]
      split_ifs
      · exact reads record other agree
      · exact .none

theorem ignores_readTreeRecord? {room fieldCount : Nat} {read? : Nat → Record Tree → Option α}
    (places : (fields.map Field.place).Nodup) (keys : (fields.flatMap Field.keys).Nodup)
    (reads : ∀ record other, Agree fields within record other →
      read? (room - 1) record = read? (room - 1) other) :
    Ignores (Tree.Rearranged fields within) (readTreeRecord? room fieldCount read?) := by
  intro old new rearranged
  refine eq_of_rel (rel_readTreeRecord? places keys rearranged fun record other agree => ?_)
  rw [reads record other agree]
  exact rel_self (fun _ => rfl) _

theorem ignores_isNull_of_rearrangedTree : Ignores (Tree.Rearranged fields within) Tree.isNull := by
  rintro old new ⟨_, _, found, foundOther, _⟩
  rw [Tree.isNull_of_record? found, Tree.isNull_of_record? foundOther]

variable {record other : Record Tree} {room : Nat} {read? : Value → Option β} {field : Field}

theorem treeOptional?_congr (agree : Agree fields within record other)
    (ignores : Ignores Value.Shuffled read?) (declared : field ∈ fields)
    (plain : within field = Tree.Holds room Value.Shuffled) :
    record.optional? field Tree.isNull (Tree.through room read?) =
      other.optional? field Tree.isNull (Tree.through room read?) :=
  agree.optional? declared (plain ▸ Tree.ignores_isNull Value.ignores_isNull)
    (plain ▸ Tree.ignores_through ignores)

theorem treeDefaulted?_congr (agree : Agree fields within record other)
    (ignores : Ignores Value.Shuffled read?) {fallback : β} (declared : field ∈ fields)
    (plain : within field = Tree.Holds room Value.Shuffled) :
    record.defaulted? field fallback (Tree.through room read?) =
      other.defaulted? field fallback (Tree.through room read?) :=
  agree.defaulted? declared fallback (plain ▸ Tree.ignores_through ignores)

/-- A map of bodies in which one body is changed unnoticed. -/
theorem rel_bodies {α : Type} {change : Value → Value → Prop}
    {readAll : Json.Fields → Except Problem (List α)} (agree : Agree fields within record other)
    (reads : ∀ old new, BodyChanged change old new →
      Option.Rel (fun first second => readAll first = readAll second) old.fields? new.fields?)
    (declared : field ∈ fields) (changes : within field = Tree.Holds room (BodyChanged change)) :
    Option.Rel (fun first second => readAll first = readAll second)
      (record.defaulted? field [] (Tree.through room Value.fields?))
      (other.defaulted? field [] (Tree.through room Value.fields?)) := by
  have slots := agree.slot field declared
  rw [changes] at slots
  unfold Record.defaulted?
  generalize record.slot? field = first at slots
  generalize other.slot? field = second at slots
  cases slots with
  | same slot => exact rel_self (fun bodies => Eq.refl (readAll bodies)) _
  | @changed old new holds =>
      show Option.Rel _ (old.through room Value.fields?) (new.through room Value.fields?)
      unfold Tree.Holds at holds
      unfold Tree.through
      generalize old.value? room = first at holds
      generalize new.value? room = second at holds
      cases holds with
      | some known => exact reads _ _ known
      | none => exact .none

end Trees

theorem ignores_readSort? (room : Nat) : Ignores (SortRearranged room) (readSort? room) := by
  apply ignores_readTreeRecord? (by decide) (by decide)
  intro record other agree
  rw [agree.required? (by simp [sortFields]) (Tree.ignores_through Value.ignores_text?),
    treeOptional?_congr agree Value.ignores_text? (by simp [sortFields]) rfl]

theorem ignores_readListView? (room : Nat) :
    Ignores (ListViewRearranged room) (readListView? room) := by
  apply ignores_readTreeRecord? (by decide) (by decide)
  intro record other agree
  have order := agree.optional?
    (show ⟨4, ["defaultSort"]⟩ ∈ listViewFields by simp [listViewFields])
    ignores_isNull_of_rearrangedTree (ignores_readSort? (room - 1))
  dsimp only
  rw [treeDefaulted?_congr agree ignores_texts? (by simp [listViewFields]) rfl,
    treeDefaulted?_congr agree ignores_texts? (by simp [listViewFields]) rfl,
    treeDefaulted?_congr agree ignores_texts? (by simp [listViewFields]) rfl,
    treeOptional?_congr agree ignores_texts? (by simp [listViewFields]) rfl, order,
    treeOptional?_congr agree ignores_count? (by simp [listViewFields]) rfl]

/-! ### Tables -/

/-- Two tables that differ only in maps of bodies that come to the same, also as an error. -/
def WrittenTable.Alike (written other : WrittenTable) : Prop :=
  ∃ columns indexes relationships, readColumns written.columns = readColumns columns ∧
    readIndexes written.indexes = readIndexes indexes ∧
    readRelationships written.relationships = readRelationships relationships ∧
    other = { written with columns, indexes, relationships }

theorem WrittenTable.toTable_congr {written other : WrittenTable} (alike : written.Alike other) :
    written.toTable = other.toTable := by
  obtain ⟨columns, indexes, relationships, ofColumns, ofIndexes, ofRelationships, rfl⟩ := alike
  simp only [toTable, ofColumns, ofIndexes, ofRelationships]

theorem rel_readTableBody? {old new : Tree} (rearranged : TableRearranged old new) :
    Option.Rel WrittenTable.Alike (readTableBody? old) (readTableBody? new) := by
  apply rel_readTreeRecord? (by decide) (by decide) rearranged
  intro record other agree
  have listView := agree.defaulted? (show ⟨8, ["ui"]⟩ ∈ tableFields by simp [tableFields])
    WrittenListView.unspecified (ignores_readListView? (Json.greatestDepth - 1))
  have rows : Ignores (fun _ _ : Tree => False)
      (Tree.through (Json.greatestDepth - 1) (Value.listOf? Value.fields?)) := nofun
  have seed := agree.defaulted?
    (show ⟨7, ["seed", "seedData"]⟩ ∈ tableFields by simp [tableFields]) ([] : List SeedRow) rows
  have columns := rel_bodies agree (fun _ _ => ignores_readAll readColumns (fun _ _ _ => rfl)
    ignores_readColumn) (show ⟨4, ["columns"]⟩ ∈ tableFields by simp [tableFields]) rfl
  have indexes := rel_bodies agree (fun _ _ => ignores_readAll readIndexes (fun _ _ _ => rfl)
    ignores_readIndex) (show ⟨5, ["indexes"]⟩ ∈ tableFields by simp [tableFields]) rfl
  have relationships := rel_bodies agree (fun _ _ => ignores_readAll readRelationships
    (fun _ _ _ => rfl) ignores_readRelationship)
    (show ⟨6, ["relationships"]⟩ ∈ tableFields by simp [tableFields]) rfl
  dsimp only
  rw [treeDefaulted?_congr agree Value.ignores_text? (by simp [tableFields]) rfl,
    treeOptional?_congr agree Value.ignores_text? (by simp [tableFields]) rfl,
    treeOptional?_congr agree Value.ignores_text? (by simp [tableFields]) rfl,
    treeOptional?_congr agree Value.ignores_text? (by simp [tableFields]) rfl, seed, listView]
  -- What is left are the three maps of bodies, which come to the same.
  iterate 4 refine rel_bind_self _ fun _ => ?_
  refine rel_bind columns fun _ otherColumns ofColumns => ?_
  refine rel_bind indexes fun _ otherIndexes ofIndexes => ?_
  refine rel_bind relationships fun _ otherRelationships ofRelationships => ?_
  iterate 2 refine rel_bind_self _ fun _ => ?_
  exact .some ⟨otherColumns, otherIndexes, otherRelationships, ofColumns, ofIndexes,
    ofRelationships, rfl⟩

theorem ignores_tableOfTree : Ignores TableRearranged tableOfTree := by
  intro old new rearranged
  exact wellFormed_bind_congr (rel_readTableBody? rearranged) fun _ _ alike =>
    WrittenTable.toTable_congr alike

theorem tableOfTree_eq_of_eqvGen {tree changed : Tree}
    (rearranged : Relation.EqvGen TableRearranged tree changed) :
    tableOfTree tree = tableOfTree changed := by
  induction rearranged with
  | rel old new step => exact ignores_tableOfTree old new step
  | refl tree => rfl
  | symm old new _ ih => exact ih.symm
  | trans old middle new _ _ first second => exact first.trans second

/-! ### What keeps its order -/

/-- A table with its columns, indexes, relationships and seed rows in the order in which they
are written. -/
structure WrittenTable.InOrder (written : WrittenTable) (table : Table) : Prop where
  columns : table.columns.map Column.name = written.columns.keys
  indexes : table.indexes.map Index.name = written.indexes.keys
  relationships : table.relationships.map Relationship.name = written.relationships.keys
  seed : table.seed = written.seed

theorem WrittenTable.inOrder_of_toTable {written : WrittenTable} {table : Table}
    (found : written.toTable = .ok table) : written.InOrder table := by
  simp only [toTable, bind_eq_ok_iff, pure_eq_ok_iff, unlessBreach_eq_ok_iff, exists_const]
    at found
  obtain ⟨_, columns, ofColumns, indexes, ofIndexes, relationships, ofRelationships, listView, _,
    rfl⟩ := found
  exact {
    columns := names_of_bodies readColumns Column.name rfl (fun _ _ _ => rfl) ofColumns
      fun found => (admitted_of_readColumn found).1
    indexes := names_of_bodies readIndexes Index.name rfl (fun _ _ _ => rfl) ofIndexes
      fun found => (admitted_of_readIndex found).1
    relationships := names_of_bodies readRelationships Relationship.name rfl (fun _ _ _ => rfl)
      ofRelationships fun found => (admitted_of_readRelationship found).1
    seed := rfl }

/-- However the typed objects of a table descriptor are rearranged, the outcome of reading it is
the same, also where that is an error.  Only the order of the columns, indexes, relationships
and seed rows is kept. -/
theorem readTable_of_rearranged (path : String) {text other : String} {tree changed : Tree}
    (read : Tree.read? text = some tree) (readOther : Tree.read? other = some changed)
    (rearranged : Relation.EqvGen TableRearranged tree changed) :
    inFile path (readTable text) = inFile path (readTable other) ∧
      ∀ table, readTable text = .ok table →
        ∃ written, readTableBody? tree = some written ∧ written.InOrder table := by
  have ofText : readTable text = tableOfTree tree := by rw [readTable, read]; rfl
  have ofOther : readTable other = tableOfTree changed := by rw [readTable, readOther]; rfl
  refine ⟨by rw [ofText, ofOther, tableOfTree_eq_of_eqvGen rearranged], fun table found => ?_⟩
  rw [ofText, tableOfTree, bind_eq_ok_iff] at found
  obtain ⟨written, given, made⟩ := found
  exact ⟨written, wellFormed_eq_ok_iff.mp given, WrittenTable.inOrder_of_toTable made⟩

/-- A table of cats and a column for their owners. -/
def plainCats : String :=
  "\x7b\"name\":\"cats\",\"columns\":\x7b\"owner\":\x7b\"type\":\"uuid\"," ++
    "\"references\":\x7b\"table\":\"owners\"\x7d\x7d\x7d\x7d"

/-- The table of cats with its keys in another order and two keys that nobody reads, of which
one holds a number that is too large for a value. -/
def annotatedCats : String :=
  "\x7b\"columns\":\x7b\"owner\":\x7b\"references\":\x7b\"why\":[],\"table\":\"owners\"\x7d," ++
    "\"type\":\"uuid\"\x7d\x7d,\"team\":1e999,\"name\":\"cats\"\x7d"

theorem readTable_of_rearranged_cats :
    inFile "cats.json" (readTable plainCats) = inFile "cats.json" (readTable annotatedCats) ∧
      ∀ table, readTable plainCats = .ok table →
        ∃ tree written, readTableBody? tree = some written ∧ written.InOrder table := by
  let text (content : String) : Tree := .scalar (.text (some content))
  let name : Option String × Tree := (some "name", text "cats")
  let type : Option String × Tree := (some "type", text "uuid")
  let table : Option String × Tree := (some "table", text "owners")
  let why : Option String × Tree := (some "why", .array [])
  let team : Option String × Tree :=
    (some "team", .scalar (.number ⟨false, ['1'], [], some (false, ['9', '9', '9'])⟩))
  let references (members : List (Option String × Tree)) : Option String × Tree :=
    (some "references", .object members)
  let columns (owner : List (Option String × Tree)) : Option String × Tree :=
    (some "columns", .object [(some "owner", .object owner)])
  have read : Tree.read? plainCats =
      some (.object [name, columns [type, references [table]]]) := by cbv
  have readOther : Tree.read? annotatedCats =
      some (.object [columns [references [why, table], type], team, name]) := by cbv
  have inOwner {old new : List (Option String × Tree)}
      (holds : Tree.Holds 126 (BodyChanged ColumnRearranged) (columns old).2 (columns new).2) :
      TableRearranged (.object [name, columns old]) (.object [name, columns new]) :=
    ⟨_, _, rfl, rfl, @Record.Rearranged.inMember _ tableFields _ [_] [] ⟨4, ["columns"]⟩ "columns"
      _ _ (by simp [tableFields]) (by decide) holds⟩
  have noted : TableRearranged (.object [name, columns [type, references [table]]])
      (.object [name, columns [type, references [why, table]]]) := by
    refine inOwner (.some ⟨[], [], "owner", _, _, rfl, rfl, _, _, rfl, rfl, ?_⟩)
    refine @Record.Rearranged.inMember _ columnFields _ [_] [] ⟨8, ["references"]⟩ "references"
      _ _ (by simp [columnFields]) (by decide) ?_
    exact ⟨_, _, rfl, rfl, @Record.Rearranged.added _ referenceFields _ [] [_] "why" _ (by decide)⟩
  have turned : TableRearranged (.object [name, columns [type, references [why, table]]])
      (.object [name, columns [references [why, table], type]]) :=
    inOwner (.some ⟨[], [], "owner", _, _, rfl, rfl, _, _, rfl, rfl, .moved (.swap _ _ _)⟩)
  have moved : TableRearranged (.object [name, columns [references [why, table], type]])
      (.object [columns [references [why, table], type], name]) :=
    ⟨_, _, rfl, rfl, .moved (.swap _ _ _)⟩
  have added : TableRearranged (.object [columns [references [why, table], type], name])
      (.object [columns [references [why, table], type], team, name]) :=
    ⟨_, _, rfl, rfl, @Record.Rearranged.added _ tableFields _ [_] [_] "team" _ (by decide)⟩
  have outcome := readTable_of_rearranged "cats.json" read readOther
    (.trans _ _ _ (.trans _ _ _ (.rel _ _ noted) (.rel _ _ turned))
      (.trans _ _ _ (.rel _ _ moved) (.rel _ _ added)))
  exact ⟨outcome.1, fun table found => ⟨_, outcome.2 table found⟩⟩

end Descriptor
end SchemaCompiler
