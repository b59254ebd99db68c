import SchemaCompiler.Proofs.Json.NumberRead
import SchemaCompiler.Proofs.Schema.Loading

/-
Numbers that are given as defaults.

A default that is a number is kept as a text.  The text is the written form of the number, not
the literal that the descriptor has: a literal with a fraction or an exponent may lose zeros,
be rounded or change its form.  What is kept is the number.
-/

namespace SchemaCompiler
namespace Descriptor

open Json (Number NumberLiteral ReadAs Tree Value)

/-- What the text of a table has for the default of a column. -/
def defaultTree? (table : Tree) (column : String) : Option Tree := do
  let columns ← table.field? 4 "columns"
  let body ← columns.member? column
  body.field? 5 "default"

theorem exists_columns_of_readTableBody? {tree : Tree} {written : WrittenTable}
    (read : readTableBody? tree = some written) (nonempty : written.columns ≠ []) :
    ∃ room columns, tree.field? 4 "columns" = some columns ∧
      columns.value? room = some (.object written.columns) := by
  obtain ⟨room, record, opened, fields⟩ := exists_of_readTreeRecord? read
  simp only [Option.bind_eq_bind, Option.bind_eq_some_iff, Option.pure_def,
    Option.some.injEq] at fields
  obtain ⟨_, _, _, _, _, _, _, _, columns, ofColumns, _, _, _, _, _, _, _, _, rfl⟩ := fields
  rcases Json.Record.exists_of_defaulted? ofColumns with omitted | ⟨content, given, through⟩
  · exact absurd omitted nonempty
  · obtain ⟨value, valued, object⟩ := Option.bind_eq_some_iff.mp through
    cases value with
    | object _ =>
        cases object
        exact ⟨room, content, Json.field?_of_slot? opened given, valued⟩
    | _ => cases object

theorem getD_of_optionalField? {record : Json.Record Value} {place : Nat} {key : String}
    {slot : Json.Slot Value} {found : Option Value}
    (slots : record.slot? ⟨place, [key]⟩ = some slot)
    (read : optionalField? record place key some = some found) :
    found.getD .null = slot.content?.getD .null := by
  unfold optionalField? Json.Record.optional? at read
  rw [slots] at read
  cases slot with
  | given content =>
      dsimp only at read
      split_ifs at read with null
      · cases read
        cases content with
        | null => rfl
        | _ => cases null
      · cases read
        rfl
  | omitted =>
      cases read
      rfl
  | beyond => cases read

theorem readAs_fallback {room : Nat} {tree : Tree} {body : Value} {written : WrittenColumn}
    (valued : tree.value? room = some body) (read : readColumnBody? body = some written) :
    ∃ inner given, ReadAs inner (tree.field? 5 "default") given ∧
      written.fallback.getD .null = given.getD .null := by
  obtain ⟨record, opened, fields⟩ := Option.bind_eq_some_iff.mp read
  obtain ⟨inner, slot, slots, content⟩ := Json.exists_slot?_of_record? valued opened 5 "default"
  refine ⟨inner, slot.content?, content, ?_⟩
  split at fields
  · simp only [Option.bind_eq_bind, Option.bind_eq_some_iff, Option.pure_def,
      Option.some.injEq] at fields
    obtain ⟨_, _, _, _, _, _, _, _, _, _, fallback, given, _, _, _, _, _, _, _, _, _, _, rfl⟩ :=
      fields
    exact getD_of_optionalField? slots given
  · cases fields

theorem exists_written_of_readColumn {name : String} {body : Value} {column : Column}
    (read : readColumn name body = .ok column) : ∃ written, readColumnBody? body = some written ∧
      defaultOfValue name (written.fallback.getD .null) = .ok column.fallback := by
  simp only [readColumn, WrittenColumn.toColumn, bind_eq_ok_iff, pure_eq_ok_iff,
    wellFormed_eq_ok_iff] at read
  obtain ⟨written, given, _, _, fallback, standard, _, _, rfl⟩ := read
  exact ⟨written, given, standard⟩

theorem readAs_default {tree : Tree} {table : Table} {column : Column}
    (found : tableOfTree tree = .ok table) (member : column ∈ table.columns) :
    ∃ room given, ReadAs room (defaultTree? tree column.name) given ∧
      defaultOfValue column.name (given.getD .null) = .ok column.fallback := by
  simp only [tableOfTree, WrittenTable.toTable, bind_eq_ok_iff, pure_eq_ok_iff,
    wellFormed_eq_ok_iff] at found
  obtain ⟨written, read, _, _, columns, columnsRead, _, _, _, _, _, _, rfl⟩ := found
  obtain ⟨name, body, listed, columnRead⟩ :=
    exists_body_of_mem readColumns rfl (fun _ _ _ => rfl) columnsRead member
  obtain rfl := (admitted_of_readColumn columnRead).1
  obtain ⟨room, columnsTree, inTable, valued⟩ :=
    exists_columns_of_readTableBody? read (List.ne_nil_of_mem listed)
  obtain ⟨inner, named⟩ := Json.readAs_member? valued column.name
  have distinct := (nodup_keys_of_readTableBody? read).1
  rw [(Json.Fields.get?_eq_some_iff distinct).mpr listed] at named
  obtain ⟨bodyTree, inColumns, bodyValued⟩ : ∃ bodyTree,
      columnsTree.member? column.name = some bodyTree ∧ bodyTree.value? inner = some body := by
    generalize columnsTree.member? column.name = found at named
    cases named with
    | some known => exact ⟨_, rfl, known⟩
  obtain ⟨writtenColumn, bodyRead, standard⟩ := exists_written_of_readColumn columnRead
  obtain ⟨place, given, inBody, same⟩ := readAs_fallback bodyValued bodyRead
  have path : defaultTree? tree column.name = bodyTree.field? 5 "default" := by
    rw [defaultTree?, inTable, Option.bind_eq_bind, Option.bind_some, inColumns]
    rfl
  exact ⟨place, given, path ▸ inBody, same ▸ standard⟩

theorem exists_number_of_defaultOfValue {column loaded : String} {value : Value}
    (standard : defaultOfValue column value = .ok (some (.number loaded))) :
    ∃ number, value = .number number := by
  cases value with
  | number number => exact ⟨number, rfl⟩
  | string written =>
      unfold defaultOfValue at standard
      dsimp only at standard
      split_ifs at standard <;> cases standard
  | _ => cases standard

theorem exists_literal_of_value?_number {room : Nat} {tree : Tree} {number : Number}
    (read : tree.value? room = some (.number number)) :
    ∃ literal, tree = .scalar (.number literal) := by
  cases tree with
  | scalar scalar =>
      cases scalar with
      | number literal => exact ⟨literal, rfl⟩
      | null => cases read
      | bool value => cases read
      | text content =>
          obtain ⟨_, _, made⟩ := Option.map_eq_some_iff.mp read
          cases made
  | array items =>
      cases room with
      | zero => cases read
      | succ room =>
          obtain ⟨_, _, made⟩ := Option.map_eq_some_iff.mp read
          cases made
  | object members =>
      cases room with
      | zero => cases read
      | succ room =>
          obtain ⟨_, _, made⟩ := Option.map_eq_some_iff.mp read
          cases made

/-- A number literal that is given as a default, the number it denotes, and what is loaded. -/
structure LoadedAs (literal : NumberLiteral) (number : Number) (column : Column) : Prop where
  denotes : Number.ofLiteral? literal = some number
  loaded : column.fallback = some (.number number.text)
  reads_back : Number.ofWord? number.text.toList = some number
  verbatim_iff (word : List Char) : NumberLiteral.read? word = some literal →
    (number.text.toList = word ↔ ∃ held : Number, held.IsHeld ∧ word = held.text.toList)
  verbatim_of_whole (word : List Char) (value : Int) : NumberLiteral.read? word = some literal →
    Number.wholeOf? literal = some value → number.text.toList = word

theorem loadedAs_of_default {literal : NumberLiteral} {number : Number} {column : Column}
    (denotes : Number.ofLiteral? literal = some number)
    (loaded : column.fallback = some (.number number.text)) : LoadedAs literal number column where
  denotes := denotes
  loaded := loaded
  reads_back := Number.ofWord?_text (Number.isHeld_of_ofLiteral? denotes)
  verbatim_iff word read := by
    have reads : Number.ofWord? word = some number := by
      rw [Number.ofWord?, read]
      exact denotes
    exact Number.text_eq_iff reads
  verbatim_of_whole word value read whole := by
    have same : number = .whole value := by
      rw [Number.ofLiteral?, whole] at denotes
      exact (Option.some.inj denotes).symm
    rw [same]
    exact Number.text_of_wholeOf? read whole

/-- A table of rates with a literal for default. -/
def ratesTree (literal : NumberLiteral) : Tree :=
  .object [(some "name", .scalar (.text (some "rates"))),
    (some "columns", .object [(some "rate", .object
      [(some "type", .scalar (.text (some "decimal"))),
        (some "default", .scalar (.number literal))])])]

/-- The table of rates as it is loaded, with a text for the default. -/
def ratesTable (loaded : String) : Table :=
  { Table.plain "rates" with
    columns := [{ Column.plain "rate" .decimal with fallback := some (.number loaded) }] }

theorem tableOfTree_ratesTree {literal : NumberLiteral} {number : Number}
    (denotes : Number.ofLiteral? literal = some number) :
    tableOfTree (ratesTree literal) = .ok (ratesTable number.text) := by
  have read : readTableBody? (ratesTree literal) = some
      ⟨"rates", none, none, none,
        [("rate", .object [("type", .string "decimal"), ("default", .number number)])],
        [], [], [], .unspecified⟩ := by
    simp [readTableBody?, readTreeRecord?, Json.greatestDepth, ratesTree, Tree.record?,
      Json.namedMembers?, Json.Record.fits, Json.Record.defaulted?, Json.Record.optional?,
      Json.Record.slot?, Tree.through, Tree.value?, Json.Scalar.value?, Json.memberValues?,
      Json.Fields.put, Value.fields?, Value.text?, denotes]
  rw [tableOfTree, read]
  cbv

/-- A table of rates whose default ends in a zero. -/
def ratesText : String :=
  "\x7b\"name\":\"rates\",\"columns\":\x7b\"rate\":" ++
    "\x7b\"type\":\"decimal\",\"default\":1.50\x7d\x7d\x7d"

theorem read?_ratesText :
    Tree.read? ratesText = some (ratesTree ⟨false, ['1'], ['5', '0'], none⟩) := by
  cbv

theorem readTable_ratesText : readTable ratesText = .ok (ratesTable "1.5") := by
  have denotes : Number.ofLiteral? ⟨false, ['1'], ['5', '0'], none⟩ =
      some (.double ⟨0x3FF8000000000000⟩) := by decide +kernel
  have written : (Number.double ⟨0x3FF8000000000000⟩).text = "1.5" := by decide +kernel
  have loaded := tableOfTree_ratesTree denotes
  rw [written] at loaded
  rw [readTable, read?_ratesText]
  exact loaded

end Descriptor
end SchemaCompiler
