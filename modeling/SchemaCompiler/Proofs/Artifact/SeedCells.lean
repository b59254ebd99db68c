import SchemaCompiler.Artifact.SeedModule
import SchemaCompiler.Artifact.TypesModule
import SchemaCompiler.Proofs.Artifact.InsertSchema
import SchemaCompiler.Proofs.Json.Keys
import SchemaCompiler.Proofs.Schema.Checks

/-
Seed rows and filters by places of columns.

A resolved table refers to its columns by their places.  The cells of a seed row are found
by a walk over the columns, so a key that is no column would be lost without notice; the
checks of the table make sure that there is none.  Whoever reads the places finds a column
under each of them.
-/

namespace SchemaCompiler

open TypeScript (Expr HasShape Shape)

/-- The entries that cells stand for. -/
def cellEntries (columns : List Column) (cells : List (Nat × Json.Value)) : Json.Fields :=
  cells.filterMap fun cell => columns[cell.1]?.map fun column => (column.name, cell.2)

/-- The cells of a seed row, by the places of columns. -/
structure CellsOf (columns : List Column) (row : SeedRow) (cells : List (Nat × Json.Value)) :
    Prop where
  ordered : (cells.map Prod.fst).Pairwise (· < ·)
  inRange : ∀ cell ∈ cells, cell.1 < columns.length
  given : ∀ cell ∈ cells, ∀ column, columns[cell.1]? = some column →
    column.isAutoGenerated = false
  entries (key : String) (value : Json.Value) :
    (key, value) ∈ cellEntries columns cells ↔ Json.Fields.get? key row = some value
  once : (cellEntries columns cells).keys.Nodup
  reordered : (Json.Fields.keys row).Nodup → (cellEntries columns cells).Perm row

/-- The places of the columns to filter by. -/
structure FiltersOf (table : Table) (places : List Nat) : Prop where
  ordered : places.Pairwise (· < ·)
  inRange : ∀ place ∈ places, place < table.columns.length
  selected (names : List String) : table.listView.filterable = some names →
    ∀ place column, table.columns[place]? = some column →
      (place ∈ places ↔ column.name ∈ names)
  declared (names : List String) : table.listView.filterable = some names →
    ∀ name ∈ names, ∃ column ∈ table.columns, column.name = name

/-- Every field of the seed rows is a field of the insert schema. -/
def ResolvedTable.SeedsInsertable (resolved : ResolvedTable) : Prop :=
  ∀ settings : Settings, ∃ shape : Shape,
    HasShape (ValidationModule.ofTable settings resolved) (.name resolved.names.insertSchema)
      shape ∧
    ∀ cells ∈ resolved.seed, ∀ cell ∈ cells, ∀ column,
      resolved.columns[cell.1]? = some column → shape column.property ≠ none

/-- A property that the insert schema leaves out for one column, whatever other column has
it too. -/
structure Table.Omits (table : Table) (enumerations : List Enumeration) (property : String) :
    Prop where
  generated : ∃ column ∈ table.columns,
    column.isAutoGenerated = true ∧ Name.camel column.name = property
  kept : ∀ column ∈ table.columns, column.isWidened enumerations = true →
    Name.camel column.name ≠ property

/-- Seed rows and filters of a resolved table, and what artifacts make of them. -/
structure ResolvedTable.PlacesKept (resolved : ResolvedTable) (table : Table)
    (enumerations : List Enumeration) : Prop where
  columns : resolved.columns.map ResolvedColumn.column = table.columns
  rows : List.Forall₂ (CellsOf table.columns) table.seed resolved.seed
  filters : FiltersOf table resolved.listView.filterable
  rowsWritten : ∀ cells ∈ resolved.seed, ∃ fields,
    SeedModule.rowExpr resolved.columns cells = .object fields ∧
      List.Forall₂ (fun cell field => ∃ column, resolved.columns[cell.1]? = some column ∧
        field = (column.property, SeedModule.cellExpr column.column.type cell.2)) cells fields
  filtersWritten : List.Forall₂ (fun place property => ∃ column,
      resolved.columns[place]? = some column ∧
        property = ⟨column.property, true, column.surface.type.text⟩)
    resolved.listView.filterable (TypesModule.filterProperties resolved)
  insertable_iff : resolved.SeedsInsertable ↔
    ∀ row ∈ table.seed, ∀ key ∈ Json.Fields.keys row, ¬table.Omits enumerations (Name.camel key)
  insertable : table.columnProperties.Nodup → resolved.SeedsInsertable

/-- Looking places up loses none of those that are in range. -/
theorem forall₂_filterMap {α β γ : Type} {columns : List α} {place : β → Nat} {read : β → α → γ}
    {items : List β} (inRange : ∀ item ∈ items, place item < columns.length) :
    List.Forall₂ (fun item result => ∃ column, columns[place item]? = some column ∧
        result = read item column)
      items (items.filterMap fun item => columns[place item]?.map (read item)) := by
  induction items with
  | nil => exact .nil
  | cons item rest ih =>
      have found := List.getElem?_eq_getElem (inRange item List.mem_cons_self)
      rw [List.filterMap_cons, found]
      exact .cons ⟨_, found, rfl⟩ (ih fun other later => inRange other (List.mem_cons_of_mem _ later))

namespace Table

/-! ### Places -/

section Places

variable {columns : List Column} {holds : Column → Bool}

theorem mem_placesFrom_iff {start place : Nat} :
    place ∈ placesFrom holds start columns ↔
      start ≤ place ∧ ∃ column, columns[place - start]? = some column ∧ holds column = true := by
  induction columns generalizing start with
  | nil => simp [placesFrom]
  | cons column rest ih =>
      have split : place ∈ placesFrom holds start (column :: rest) ↔
          place = start ∧ holds column = true ∨ place ∈ placesFrom holds (start + 1) rest := by
        rw [placesFrom]
        split_ifs with selected
        · rw [List.mem_cons, and_iff_left selected]
        · rw [iff_false_intro selected, and_false, false_or]
      rw [split, ih]
      rcases Nat.lt_trichotomy place start with before | rfl | after
      · have apart : place ≠ start := by omega
        have early : ¬start ≤ place := by omega
        have earlier : ¬start + 1 ≤ place := by omega
        simp [apart, early, earlier]
      · simp
      · obtain ⟨later, next⟩ : ∃ later, place - start = later + 1 := ⟨place - start - 1, by omega⟩
        have shifted : place - (start + 1) = later := by omega
        have apart : place ≠ start := by omega
        have le : start ≤ place := by omega
        have succ : start + 1 ≤ place := by omega
        simp [next, shifted, apart, le, succ]

theorem pairwise_placesFrom (start : Nat) :
    (placesFrom holds start columns).Pairwise (· < ·) := by
  induction columns generalizing start with
  | nil => exact List.Pairwise.nil
  | cons column rest ih =>
      rw [placesFrom]
      split
      · refine List.pairwise_cons.mpr ⟨?_, ih (start + 1)⟩
        intro place later
        exact (mem_placesFrom_iff.mp later).1
      · exact ih (start + 1)

theorem mem_places_iff {place : Nat} : place ∈ placesFrom holds 0 columns ↔
    ∃ column, columns[place]? = some column ∧ holds column = true := by
  rw [mem_placesFrom_iff, Nat.sub_zero, and_iff_right (Nat.zero_le place)]

theorem lt_length_of_mem_places {place : Nat} (member : place ∈ placesFrom holds 0 columns) :
    place < columns.length := by
  obtain ⟨column, here, _⟩ := mem_places_iff.mp member
  exact (List.getElem?_eq_some_iff.mp here).1

end Places

/-! ### Cells of a row -/

section Cells

variable {columns : List Column} {row : SeedRow}

theorem map_fst_cellsFrom (start : Nat) : (cellsFrom row start columns).map Prod.fst =
    placesFrom (fun column => (Json.Fields.get? column.name row).isSome) start columns := by
  induction columns generalizing start with
  | nil => rfl
  | cons column rest ih =>
      rw [cellsFrom, placesFrom]
      cases Json.Fields.get? column.name row with
      | none => exact ih (start + 1)
      | some value => exact congrArg (start :: ·) (ih (start + 1))

theorem cellEntries_cellsFrom (before : List Column) :
    cellEntries (before ++ columns) (cellsFrom row before.length columns) =
      columns.filterMap fun column =>
        (Json.Fields.get? column.name row).map fun value => (column.name, value) := by
  induction columns generalizing before with
  | nil => rfl
  | cons column rest ih =>
      have split : before ++ column :: rest = before ++ [column] ++ rest := by
        rw [List.append_assoc, List.singleton_append]
      have later := ih (before ++ [column])
      rw [List.length_append, List.length_singleton] at later
      rw [cellsFrom, List.filterMap_cons]
      cases Json.Fields.get? column.name row with
      | none =>
          rw [split]
          exact later
      | some value =>
          have here : (before ++ column :: rest)[before.length]? = some column := by simp
          rw [cellEntries, List.filterMap_cons, here, split]
          exact congrArg ((column.name, value) :: ·) later

theorem cellEntries_cells (columns : List Column) (row : SeedRow) :
    cellEntries columns (cellsFrom row 0 columns) = columns.filterMap fun column =>
      (Json.Fields.get? column.name row).map fun value => (column.name, value) :=
  cellEntries_cellsFrom []

theorem keys_cellEntries (columns : List Column) (row : SeedRow) :
    (cellEntries columns (cellsFrom row 0 columns)).keys =
      (columns.filter fun column => (Json.Fields.get? column.name row).isSome).map
        Column.name := by
  rw [cellEntries_cells, Json.Fields.keys]
  induction columns with
  | nil => rfl
  | cons column rest ih =>
      rw [List.filterMap_cons, List.filter_cons]
      cases Json.Fields.get? column.name row with
      | none => exact ih
      | some value => exact congrArg (column.name :: ·) ih

/-- A row that sets columns only has a cell for each of its entries. -/
theorem mem_cellEntries_iff (known : ∀ key ∈ Json.Fields.keys row, ∃ column ∈ columns,
      column.name = key) {key : String} {value : Json.Value} :
    (key, value) ∈ cellEntries columns (cellsFrom row 0 columns) ↔
      Json.Fields.get? key row = some value := by
  rw [cellEntries_cells, List.mem_filterMap]
  constructor
  · rintro ⟨column, _, made⟩
    obtain ⟨found, looked, same⟩ := Option.map_eq_some_iff.mp made
    obtain ⟨rfl, rfl⟩ := Prod.mk.inj same
    exact looked
  · intro looked
    have inKeys : key ∈ Json.Fields.keys row :=
      Json.Fields.isSome_get?_iff.mp (Option.isSome_of_eq_some looked)
    obtain ⟨column, member, rfl⟩ := known key inKeys
    exact ⟨column, member, by rw [looked]; rfl⟩

theorem nodup_keys_cellEntries (distinct : (columns.map Column.name).Nodup) :
    (cellEntries columns (cellsFrom row 0 columns)).keys.Nodup := by
  rw [keys_cellEntries]
  exact (List.filter_sublist.map Column.name).nodup distinct

theorem mem_keys_of_cell {cell : Nat × Json.Value} (member : cell ∈ cellsFrom row 0 columns) :
    ∃ column, columns[cell.1]? = some column ∧ column.name ∈ Json.Fields.keys row := by
  have place : cell.1 ∈ (cellsFrom row 0 columns).map Prod.fst := List.mem_map_of_mem member
  rw [map_fst_cellsFrom, mem_places_iff] at place
  obtain ⟨column, here, isSet⟩ := place
  exact ⟨column, here, Json.Fields.isSome_get?_iff.mp isSet⟩

theorem exists_cell_of_key {column : Column} (member : column ∈ columns)
    (inRow : column.name ∈ Json.Fields.keys row) :
    ∃ cell ∈ cellsFrom row 0 columns, columns[cell.1]? = some column := by
  obtain ⟨place, here⟩ := List.mem_iff_getElem?.mp member
  have inPlaces : place ∈ (cellsFrom row 0 columns).map Prod.fst := by
    rw [map_fst_cellsFrom, mem_places_iff]
    exact ⟨column, here, Json.Fields.isSome_get?_iff.mpr inRow⟩
  obtain ⟨cell, inCells, rfl⟩ := List.mem_map.mp inPlaces
  exact ⟨cell, inCells, here⟩

end Cells

/-! ### Faultless tables -/

section Faultless

variable {table : Table} {tables : List Table} (faultless : table.faults tables = [])
  (distinct : (table.columns.map Column.name).Nodup)

include faultless distinct

/-- What a seed row sets is a column that the database does not fill. -/
theorem given_of_mem_keys {row : SeedRow} (listed : row ∈ table.seed) {column : Column}
    (member : column ∈ table.columns) (inRow : column.name ∈ Json.Fields.keys row) :
    column.isAutoGenerated = false := by
  obtain ⟨cell, inCells, named⟩ := List.mem_map.mp inRow
  obtain ⟨declared, found, given⟩ := exists_column_of_cell faultless listed inCells
  have same : table.column? cell.1 = some column := by
    rw [named]
    exact find?_of_distinct distinct member
  rw [found] at same
  exact Option.some.inj same ▸ given

theorem cellsOf_row {row : SeedRow} (listed : row ∈ table.seed) :
    CellsOf table.columns row (cellsFrom row 0 table.columns) := by
  have known : ∀ key ∈ Json.Fields.keys row, ∃ column ∈ table.columns, column.name = key := by
    intro key inRow
    obtain ⟨cell, inCells, rfl⟩ := List.mem_map.mp inRow
    obtain ⟨column, found, _⟩ := exists_column_of_cell faultless listed inCells
    exact ⟨column, mem_of_column?_eq_some found⟩
  constructor
  · rw [map_fst_cellsFrom]
    exact pairwise_placesFrom 0
  · intro cell member
    obtain ⟨column, here, _⟩ := mem_keys_of_cell member
    exact (List.getElem?_eq_some_iff.mp here).1
  · intro cell member column here
    obtain ⟨other, found, inRow⟩ := mem_keys_of_cell member
    obtain rfl := Option.some.inj (here.symm.trans found)
    exact given_of_mem_keys faultless distinct listed (List.mem_of_getElem? here) inRow
  · exact fun key value => mem_cellEntries_iff known
  · exact nodup_keys_cellEntries distinct
  · intro once
    have entries : (cellEntries table.columns (cellsFrom row 0 table.columns)).keys.Nodup :=
      nodup_keys_cellEntries distinct
    refine (List.perm_ext_iff_of_nodup (List.Nodup.of_map _ entries)
      (List.Nodup.of_map _ once)).mpr ?_
    rintro ⟨key, value⟩
    rw [mem_cellEntries_iff known, Json.Fields.get?_eq_some_iff once]

omit distinct in
theorem filtersOf_listView : FiltersOf table table.resolveListView.filterable := by
  constructor
  · exact pairwise_placesFrom 0
  · exact fun place member => lt_length_of_mem_places member
  · intro names given place column here
    rw [resolveListView, mem_places_iff]
    constructor
    · rintro ⟨other, found, selected⟩
      obtain rfl := Option.some.inj (here.symm.trans found)
      simpa [isFilterable, given] using selected
    · intro named
      exact ⟨column, here, by simpa [isFilterable, given] using named⟩
  · exact fun names given name listed => exists_column_of_filter faultless given listed

end Faultless

/-! ### Seeded fields of the insert schema -/

variable {table : Table} {others : List Table} {schema : Schema}

/-- The insert schema has no field for a column exactly when it leaves out the property. -/
theorem insertShape_eq_none_iff {column : Column} (member : column ∈ table.columns) :
    ValidationModule.insertShape (table.resolved others schema) (Name.camel column.name) = none ↔
      table.Omits schema.enumerations (Name.camel column.name) := by
  have inRow : ValidationModule.rowShape (table.resolved others schema) (Name.camel column.name) ≠
      none := by
    apply Shape.ofEntries_ne_none
    rw [ValidationModule.map_property_resolved]
    exact List.mem_map_of_mem member
  have widened : ValidationModule.widenedShape (table.resolved others schema)
      (Name.camel column.name) = none ↔
        Name.camel column.name ∉ (table.fieldSets schema.enumerations).widened := by
    rw [ValidationModule.widenedShape, Shape.ofEntries_fields, ite_eq_right_iff]
    simp only [reduceCtorEq, imp_false]
    rfl
  have omitted : (ValidationModule.rowShape (table.resolved others schema)).leaveOut
      (table.resolved others schema).fields.omitted (Name.camel column.name) = none ↔
        Name.camel column.name ∈ (table.fieldSets schema.enumerations).omitted := by
    rw [Shape.leaveOut, ite_eq_left_iff]
    simp only [inRow, imp_false, not_not]
    rfl
  rw [ValidationModule.insertShape, Shape.overlay, Option.or_eq_none_iff, widened, omitted]
  constructor
  · rintro ⟨notWidened, isOmitted⟩
    obtain ⟨other, selected, same⟩ := List.mem_map.mp isOmitted
    obtain ⟨inColumns, generated⟩ := List.mem_filter.mp selected
    refine ⟨⟨other, inColumns, generated, same⟩, ?_⟩
    intro kept known isWidened named
    exact notWidened (List.mem_map.mpr ⟨kept, List.mem_filter.mpr ⟨known, isWidened⟩, named⟩)
  · rintro ⟨⟨other, inColumns, generated, same⟩, kept⟩
    refine ⟨?_, List.mem_map.mpr ⟨other, List.mem_filter.mpr ⟨inColumns, generated⟩, same⟩⟩
    intro isWidened
    obtain ⟨widenedColumn, selected, named⟩ := List.mem_map.mp isWidened
    obtain ⟨known, holds⟩ := List.mem_filter.mp selected
    exact kept widenedColumn known holds named

theorem getElem?_resolved (place : Nat) : (table.resolved others schema).columns[place]? =
    table.columns[place]?.map fun column => column.resolve table schema.enumerations :=
  List.getElem?_map

section Insert

variable (faultless : table.faults schema.tables = [])

include faultless

theorem seedsInsertable_iff : (table.resolved others schema).SeedsInsertable ↔
    ∀ row ∈ table.seed, ∀ key ∈ Json.Fields.keys row,
      ¬table.Omits schema.enumerations (Name.camel key) := by
  have hasShape (settings : Settings) :
      HasShape (ValidationModule.ofTable settings (table.resolved others schema))
        (.name (table.resolved others schema).names.insertSchema)
        (ValidationModule.insertShape (table.resolved others schema)) :=
    ValidationModule.hasShape_insertSchema settings
      (ValidationModule.baseSchema_ne_insertSchema table.name)
  constructor
  · intro insertable row listed key inRow omits
    obtain ⟨cell, inCells, rfl⟩ := List.mem_map.mp inRow
    obtain ⟨column, found, _⟩ := exists_column_of_cell faultless listed inCells
    obtain ⟨member, named⟩ := mem_of_column?_eq_some found
    obtain ⟨place, inPlaces, here⟩ := exists_cell_of_key member (named ▸ inRow)
    obtain ⟨shape, has, present⟩ := insertable .usual
    refine present _ (List.mem_map_of_mem listed) place inPlaces
      (column.resolve table schema.enumerations) ?_ ?_
    · rw [getElem?_resolved, here]
      rfl
    · rw [has.unique (hasShape .usual)]
      exact (insertShape_eq_none_iff member).mpr (named ▸ omits)
  · intro kept settings
    refine ⟨_, hasShape settings, ?_⟩
    intro cells inSeed cell inCells column here missing
    obtain ⟨row, listed, rfl⟩ := List.mem_map.mp inSeed
    obtain ⟨declared, found, inRow⟩ := mem_keys_of_cell inCells
    rw [getElem?_resolved, found] at here
    obtain rfl := Option.some.inj here
    have omits := (insertShape_eq_none_iff (List.mem_of_getElem? found)).mp missing
    exact kept row listed declared.name inRow omits

/-- Where properties differ, the insert schema has every seeded field. -/
theorem seedsInsertable_of_distinct (apart : table.columnProperties.Nodup) :
    (table.resolved others schema).SeedsInsertable := by
  apply (seedsInsertable_iff faultless).mpr
  rintro row listed key inRow ⟨⟨other, inColumns, generated, same⟩, _⟩
  obtain ⟨cell, inCells, rfl⟩ := List.mem_map.mp inRow
  obtain ⟨column, found, given⟩ := exists_column_of_cell faultless listed inCells
  obtain ⟨member, named⟩ := mem_of_column?_eq_some found
  have one : other = column := by
    apply List.inj_on_of_nodup_map apart inColumns member
    rw [same, named]
  rw [one, given] at generated
  cases generated

end Insert

/-- In a table that resolves, seed rows and filters refer to columns by places and lose
nothing, and artifacts write all of it. -/
theorem places_kept {resolved : ResolvedTable}
    (built : table.resolve others schema = .ok resolved)
    (distinct : (table.columns.map Column.name).Nodup) :
    resolved.PlacesKept table schema.enumerations := by
  have faultless := faults_eq_nil_of_resolve built
  obtain rfl := eq_resolved_of_resolve built
  have resolvedColumns : (table.resolved others schema).columns.length = table.columns.length :=
    List.length_map _
  have filters : FiltersOf table (table.resolved others schema).listView.filterable :=
    filtersOf_listView faultless
  constructor
  · exact ValidationModule.map_column_resolved others schema
  · apply List.forall₂_map_right_iff.mpr
    exact List.forall₂_same.mpr fun row listed => cellsOf_row faultless distinct listed
  · exact filters
  · intro cells inSeed
    obtain ⟨row, listed, rfl⟩ := List.mem_map.mp inSeed
    refine ⟨_, rfl, forall₂_filterMap ?_⟩
    intro cell member
    rw [resolvedColumns]
    exact (cellsOf_row faultless distinct listed).inRange cell member
  · apply forall₂_filterMap
    intro place member
    rw [resolvedColumns]
    exact filters.inRange place member
  · exact seedsInsertable_iff faultless
  · exact seedsInsertable_of_distinct faultless

/-- A table with seed rows that name its columns in another order, and a list of filters. -/
def rooms : Table :=
  { Table.plain "rooms" with
    columns :=
      [.plain "id" .autoIncrement, .plain "number" .shortText, .plain "rate" .decimal,
        { Column.plain "note" .longText with nullable := true }]
    listView := { ListView.unspecified with filterable := some ["rate", "id"] }
    seed :=
      [[("rate", .number (.whole 90)), ("number", .string "101")], [("number", .string "102")]] }

theorem places_kept_of_rooms :
    rooms.resolve [] ⟨[], [rooms]⟩ = .ok (rooms.resolved [] ⟨[], [rooms]⟩) ∧
      (rooms.columns.map Column.name).Nodup ∧
      (rooms.resolved [] ⟨[], [rooms]⟩).PlacesKept rooms [] := by
  have built : rooms.resolve [] ⟨[], [rooms]⟩ = .ok (rooms.resolved [] ⟨[], [rooms]⟩) := by
    have faultless : rooms.faults [rooms] = [] := by decide
    rw [resolve, faultless]
  have distinct : (rooms.columns.map Column.name).Nodup := by decide
  exact ⟨built, distinct, places_kept built distinct⟩

example : rooms.resolveListView.filterable = [0, 2] := by decide

/-- A table with two columns of one property, of which the database fills one. -/
def accounts : Table :=
  { Table.plain "accounts" with
    columns := [.plain "user_id" .autoIncrement, .plain "userId" .longText]
    seed := [[("userId", .string "x")]] }

/-- The insert schema may be without a field that seed rows set. -/
theorem seeds_may_not_be_insertable :
    ¬∀ (table : Table) (others : List Table) (schema : Schema) (resolved : ResolvedTable),
        table.resolve others schema = .ok resolved → (table.columns.map Column.name).Nodup →
          resolved.SeedsInsertable := by
  intro all
  have faultless : accounts.faults [accounts] = [] := by decide
  have built : accounts.resolve [] ⟨[], [accounts]⟩ =
      .ok (accounts.resolved [] ⟨[], [accounts]⟩) := by
    rw [resolve, faultless]
  have insertable := all accounts [] ⟨[], [accounts]⟩ _ built (by decide)
  have omits : accounts.Omits [] (Name.camel "userId") :=
    ⟨⟨.plain "user_id" .autoIncrement, List.mem_cons_self, by decide, by decide⟩, by decide⟩
  exact (seedsInsertable_iff faultless).mp insertable _ List.mem_cons_self "userId"
    List.mem_cons_self omits

end Table

end SchemaCompiler
