import SchemaCompiler.Descriptor.Column
import SchemaCompiler.Table.Basic

/-
Table descriptors.

A file holds one table.  Its own fields, its list view and the order of that are
read from the text, where a field that is given twice is a fault and a value
under an undeclared key is skipped unread.  Columns, indexes and relationships
are read from values, where of two bodies under one name the later one counts.
-/

namespace SchemaCompiler
namespace Descriptor

open Json (Value Tree Record)

/-- The order of a list view as written. -/
structure WrittenSort where
  /-- The column to sort by. -/
  field : String
  /-- The spelling of the direction. -/
  direction : Option String

/-- A list view as written. -/
structure WrittenListView where
  /-- The columns shown. -/
  listColumns : List String
  /-- The columns that a search covers. -/
  searchable : List String
  /-- The columns to sort by. -/
  sortable : List String
  /-- The columns to filter by. -/
  filterable : Option (List String)
  /-- The order when none is asked for. -/
  defaultSort : Option WrittenSort
  /-- The number of rows of a page. -/
  pageSize : Option Nat

/-- A table as written. -/
structure WrittenTable where
  /-- The name, empty when it is left out. -/
  name : String
  /-- The name shown. -/
  displayName : Option String
  /-- The icon shown. -/
  icon : Option String
  /-- What the table is for. -/
  description : Option String
  /-- The bodies of columns. -/
  columns : Json.Fields
  /-- The bodies of indexes. -/
  indexes : Json.Fields
  /-- The bodies of relationships. -/
  relationships : Json.Fields
  /-- The seed rows. -/
  seed : List SeedRow
  /-- The list view. -/
  listView : WrittenListView

/-- Reads a list of texts. -/
def texts? : Value → Option (List String) :=
  Value.listOf? Value.text?

/-- Reads a typed object of the text with `fieldCount` declared fields, whose
content may open `room` arrays and objects. -/
def readTreeRecord? {α : Type} (room fieldCount : Nat)
    (read? : Nat → Record Tree → Option α) (tree : Tree) : Option α :=
  match room with
  | 0 => none
  | room + 1 => do
      let record ← tree.record?
      if record.fits fieldCount then read? room record else none

/-- Reads the order of a list view. -/
def readSort? (room : Nat) : Tree → Option WrittenSort :=
  readTreeRecord? room 2 fun room record => do
    let field ← record.required? ⟨0, ["field"]⟩ (Tree.through room Value.text?)
    let direction ←
      record.optional? ⟨1, ["direction"]⟩ Tree.isNull (Tree.through room Value.text?)
    return ⟨field, direction⟩

/-- A list view of which nothing is written. -/
def WrittenListView.unspecified : WrittenListView :=
  ⟨[], [], [], none, none, none⟩

/-- Reads a list view. -/
def readListView? (room : Nat) : Tree → Option WrittenListView :=
  readTreeRecord? room 6 fun room record => do
    let names := Tree.through room texts?
    let listColumns ← record.defaulted? ⟨0, ["listColumns"]⟩ [] names
    let searchable ← record.defaulted? ⟨1, ["searchable"]⟩ [] names
    let sortable ← record.defaulted? ⟨2, ["sortable"]⟩ [] names
    let filterable ← record.optional? ⟨3, ["filterable"]⟩ Tree.isNull names
    let defaultSort ← record.optional? ⟨4, ["defaultSort"]⟩ Tree.isNull (readSort? room)
    let pageSize ←
      record.optional? ⟨5, ["pageSize"]⟩ Tree.isNull (Tree.through room count?)
    return ⟨listColumns, searchable, sortable, filterable, defaultSort, pageSize⟩

/-- Reads a table. -/
def readTableBody? : Tree → Option WrittenTable :=
  readTreeRecord? Json.greatestDepth 9 fun room record => do
    let text := Tree.through room Value.text?
    let bodies := Tree.through room Value.fields?
    let rows := Tree.through room (Value.listOf? Value.fields?)
    let name ← record.defaulted? ⟨0, ["name"]⟩ "" text
    let displayName ← record.optional? ⟨1, ["displayName"]⟩ Tree.isNull text
    let icon ← record.optional? ⟨2, ["icon"]⟩ Tree.isNull text
    let description ← record.optional? ⟨3, ["description"]⟩ Tree.isNull text
    let columns ← record.defaulted? ⟨4, ["columns"]⟩ [] bodies
    let indexes ← record.defaulted? ⟨5, ["indexes"]⟩ [] bodies
    let relationships ← record.defaulted? ⟨6, ["relationships"]⟩ [] bodies
    let seed ← record.defaulted? ⟨7, ["seed", "seedData"]⟩ [] rows
    let listView ← record.defaulted? ⟨8, ["ui"]⟩ .unspecified (readListView? room)
    return ⟨name, displayName, icon, description, columns, indexes, relationships, seed,
      listView⟩

/-- The index of a name and a body, which must list a column. -/
def readIndex (name : String) (body : Value) : Except Problem Index := do
  let index ← wellFormed <| body |> readRecord? 2 fun record => do
    let columns ← record.required? ⟨0, ["columns"]⟩ texts?
    let unique ← flag? record 1 "unique"
    return (⟨name, columns, unique⟩ : Index)
  unlessBreach (!index.columns.isEmpty) (.indexEmpty name)
  return index

/-- The indexes of a map from names to bodies, in order. -/
def readIndexes : Json.Fields → Except Problem (List Index)
  | [] => .ok []
  | (name, body) :: rest => do
      let index ← readIndex name body
      let others ← readIndexes rest
      return index :: others

/-- The kind that a spelling names. -/
def kindOfSpelling (name spelling : String) : Except Problem RelationshipKind :=
  match RelationshipKind.ofSpelling? spelling with
  | some kind => .ok kind
  | none => .error (.breach (.relationshipKind name spelling))

/-- The relationship of a name and a body. -/
def readRelationship (name : String) (body : Value) : Except Problem Relationship := do
  let (spelling, target, through) ← wellFormed <| body |> readRecord? 3 fun record => do
    let spelling ← record.required? ⟨0, ["type", "kind"]⟩ Value.text?
    let target ← record.required? ⟨1, ["table", "target"]⟩ Value.text?
    let through ← optionalField? record 2 "through" Value.text?
    return (spelling, target, through)
  unlessBreach (Name.isIdentifier name) (.relationshipName name)
  let kind ← kindOfSpelling name spelling
  unlessBreach (kind != .manyToMany || through.isSome) (.throughMissing name)
  return ⟨name, kind, target, through⟩

/-- The relationships of a map from names to bodies, in order. -/
def readRelationships : Json.Fields → Except Problem (List Relationship)
  | [] => .ok []
  | (name, body) :: rest => do
      let relationship ← readRelationship name body
      let others ← readRelationships rest
      return relationship :: others

/-- The order that is written; a direction that is left out is ascending. -/
def WrittenSort.toSortOrder : Option WrittenSort → Except Problem (Option SortOrder)
  | none => .ok none
  | some ⟨field, none⟩ => .ok (some ⟨field, .ascending⟩)
  | some ⟨field, some spelling⟩ =>
      match SortDirection.ofSpelling? spelling with
      | some direction => .ok (some ⟨field, direction⟩)
      | none => .error (.breach (.sortDirection spelling))

/-- The list view that is written. -/
def WrittenListView.toListView (written : WrittenListView) : Except Problem ListView := do
  let defaultSort ← WrittenSort.toSortOrder written.defaultSort
  return ⟨written.listColumns, written.searchable, written.sortable, written.filterable,
    defaultSort, written.pageSize⟩

/-- The table that is written: its name is checked first, then columns, indexes,
relationships and list view in turn. -/
def WrittenTable.toTable (written : WrittenTable) : Except Problem Table := do
  unlessBreach (written.name.isEmpty || Name.isIdentifier written.name)
    (.tableName written.name)
  let columns ← readColumns written.columns
  let indexes ← readIndexes written.indexes
  let relationships ← readRelationships written.relationships
  let listView ← written.listView.toListView
  return ⟨written.name, written.displayName, written.icon, written.description, columns,
    indexes, relationships, written.seed, listView⟩

/-- The table of a text's tree. -/
def tableOfTree (tree : Tree) : Except Problem Table := do
  let written ← wellFormed (readTableBody? tree)
  written.toTable

/-- The table of a text. -/
def readTable (text : String) : Except Problem Table := do
  let tree ← wellFormed (Tree.read? text)
  tableOfTree tree

end Descriptor
end SchemaCompiler
