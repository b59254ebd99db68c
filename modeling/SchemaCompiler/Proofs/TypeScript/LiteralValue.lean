import SchemaCompiler.Proofs.Json.NumberText
import SchemaCompiler.Proofs.TypeScript.StringLiteral
import SchemaCompiler.Text.Pieces

/-
Values, read back.

The expression for a value is read from its first character on: a quote opens a string, a
bracket an array, a brace an object, and anything else is a word that lasts as long as its
letters, digits, signs and points do.  A reader says what it leaves, so an item or a field is
read without a look at what encloses it, and a separator inside quotes never comes up.

Numbers are told apart by what is written only, hence a literal holds their written form.
-/

namespace SchemaCompiler
namespace TypeScript

open Json (Value)
open Json.Number (isNumeral)
open Text (afterBeginning?)

/-- What the expression for a value says. -/
inductive Literal where
  | null
  | bool (value : Bool)
  | number (written : String)
  | string (content : String)
  | array (items : List Literal)
  | object (fields : List (String × Literal))

namespace Literal

mutual

/-- The value, with the written form in the place of each number. -/
def ofValue : Value → Literal
  | .null => .null
  | .bool value => .bool value
  | .number value => .number value.text
  | .string value => .string value
  | .array items => .array (ofItems items)
  | .object fields => .object (ofFields fields)

def ofItems : List Value → List Literal
  | [] => []
  | item :: rest => ofValue item :: ofItems rest

def ofFields : Json.Fields → List (String × Literal)
  | [] => []
  | (key, value) :: rest => (key, ofValue value) :: ofFields rest

end

end Literal

def isWordChar (c : Char) : Bool :=
  c.isAlphanum || c == '-' || c == '+' || c == '.'

def wordLiteral? (word : List Char) : Option Literal :=
  if word = "null".toList then some .null
  else if word = "true".toList then some (.bool true)
  else if word = "false".toList then some (.bool false)
  else if word ≠ [] ∧ word.all isNumeral then some (.number (String.ofList word))
  else none

/-- The word that comes first, and what follows it. -/
def readWord? (text : List Char) : Option (Literal × List Char) :=
  (wordLiteral? (text.takeWhile isWordChar)).map fun literal =>
    (literal, text.dropWhile isWordChar)

mutual

/-- The value that comes first, and what follows it.  The first number bounds how often a
reader may call another. -/
def readValue? : Nat → List Char → Option (Literal × List Char)
  | 0, _ => none
  | _ + 1, [] => none
  | fuel + 1, c :: text =>
      if c = '\'' then
        (readQuoted? false text).map fun read => (.string (String.ofList read.1), read.2)
      else if c = '[' then
        match afterBeginning? [']'] text with
        | some rest => some (.array [], rest)
        | none => (readItems? fuel text).map fun read => (.array read.1, read.2)
      else if c = '\x7b' then
        match afterBeginning? ['\x7d'] text with
        | some rest => some (.object [], rest)
        | none =>
            (afterBeginning? [' '] text).bind fun inside =>
              (readFields? fuel inside).map fun read => (.object read.1, read.2)
      else
        readWord? (c :: text)

/-- The items of an array from one of them on, and what follows the array. -/
def readItems? : Nat → List Char → Option (List Literal × List Char)
  | 0, _ => none
  | fuel + 1, text =>
      (readValue? fuel text).bind fun item =>
        match afterBeginning? [',', ' '] item.2 with
        | some more => (readItems? fuel more).map fun read => (item.1 :: read.1, read.2)
        | none => (afterBeginning? [']'] item.2).map fun rest => ([item.1], rest)

/-- The fields of an object from one of them on, and what follows the object. -/
def readFields? : Nat → List Char → Option (List (String × Literal) × List Char)
  | 0, _ => none
  | fuel + 1, text =>
      (readStringChars? text).bind fun key =>
        (afterBeginning? [':', ' '] key.2).bind fun inside =>
          (readValue? fuel inside).bind fun value =>
            let field := (String.ofList key.1, value.1)
            match afterBeginning? [',', ' '] value.2 with
            | some more => (readFields? fuel more).map fun read => (field :: read.1, read.2)
            | none => (afterBeginning? [' ', '\x7d'] value.2).map fun rest => ([field], rest)

end

/-- The value that a text starts with, and what follows it. -/
def Literal.readFirst? (text : String) : Option (Literal × String) :=
  (readValue? (text.length + 1) text.toList).map fun read => (read.1, String.ofList read.2)

/-- The value that a text is the expression for. -/
def Literal.read? (text : String) : Option Literal :=
  (readFirst? text).bind fun read => if read.2 = "" then some read.1 else none

/-- Whether a word that comes before ends there. -/
def EndsWord (rest : List Char) : Prop :=
  ∀ c ∈ rest.head?, isWordChar c = false

/-- The expression for a value says what the value is, up to numbers with one written form,
and says it whatever it stands before. -/
structure WrittenFaithfully (v : Value) : Prop where
  read : Literal.read? (value v) = some (.ofValue v)
  followed (rest : String) : EndsWord rest.toList →
    Literal.readFirst? (value v ++ rest) = some (.ofValue v, rest)
  only (other : Value) : value other = value v → Literal.ofValue other = .ofValue v
  items (others : List Value) : value v = value (.array others) →
    ∃ items, v = .array items ∧ items.map Literal.ofValue = others.map Literal.ofValue
  fields (others : Json.Fields) : value v = value (.object others) →
    ∃ fields, v = .object fields ∧
      fields.map (Prod.map id Literal.ofValue) = others.map (Prod.map id Literal.ofValue)
  string (content more rest : String) : value v ++ more = value (.string content) ++ rest →
    v = .string content ∧ more = rest

/-! ### Words -/

theorem isWordChar_of_isNumeral {c : Char} (numeral : isNumeral c = true) :
    isWordChar c = true := by
  rcases Bool.or_eq_true_iff.mp numeral with digit | letter
  · rw [isWordChar, Char.isAlphanum, digit, Bool.or_true]
    rfl
  · have all : "-+.einfNa".toList.all isWordChar = true := by decide
    exact List.all_eq_true.mp all c (List.contains_iff_mem.mp letter)

theorem readWord?_append {word rest : List Char} {literal : Literal}
    (each : ∀ c ∈ word, isWordChar c = true) (ends : EndsWord rest)
    (known : wordLiteral? word = some literal) :
    readWord? (word ++ rest) = some (literal, rest) := by
  have taken : rest.takeWhile isWordChar = [] := by
    cases rest with
    | nil => rfl
    | cons c rest => exact List.takeWhile_cons_of_neg (by rw [ends c rfl]; decide)
  have dropped : rest.dropWhile isWordChar = rest := by
    cases rest with
    | nil => rfl
    | cons c rest => exact List.dropWhile_cons_of_neg (by rw [ends c rfl]; decide)
  rw [readWord?, List.takeWhile_append_of_pos each, List.dropWhile_append_of_pos each, taken,
    dropped, List.append_nil, known, Option.map_some]

theorem wordLiteral?_text (number : Json.Number) :
    wordLiteral? number.text.toList = some (.number number.text) := by
  have noWord {word : List Char} (letter : 'u' ∈ word ∨ 'l' ∈ word) :
      number.text.toList ≠ word := by
    intro same
    rcases letter with member | member
    · exact absurd (Json.Number.isNumeral_of_mem_text (same ▸ member)) (by decide)
    · exact absurd (Json.Number.isNumeral_of_mem_text (same ▸ member)) (by decide)
  have numeral : number.text.toList.all isNumeral = true :=
    List.all_eq_true.mpr fun _ member => Json.Number.isNumeral_of_mem_text member
  rw [wordLiteral?, if_neg (noWord (by decide)), if_neg (noWord (by decide)),
    if_neg (noWord (by decide)), if_pos ⟨Json.Number.text_ne_nil number, numeral⟩,
    String.ofList_toList]

theorem endsWord_cons {c : Char} (rest : List Char) (ends : isWordChar c = false) :
    EndsWord (c :: rest) := by
  intro first head
  obtain rfl := Option.some.inj head
  exact ends

/-! ### Values -/

/-- What a number of calls suffices to read.  A list is as long as its item if it has one only,
and takes a call more. -/
structure ReadsBack (fuel : Nat) : Prop where
  value (v : Value) (rest : List Char) : (valueChars v).length < fuel → EndsWord rest →
    readValue? fuel (valueChars v ++ rest) = some (.ofValue v, rest)
  items (items : List Value) (rest : List Char) : items ≠ [] →
    (itemChars items).length + 1 < fuel →
    readItems? fuel (itemChars items ++ ']' :: rest) = some (Literal.ofItems items, rest)
  fields (fields : Json.Fields) (rest : List Char) : fields ≠ [] →
    (fieldChars fields).length + 1 < fuel →
    readFields? fuel (fieldChars fields ++ ' ' :: '\x7d' :: rest) =
      some (Literal.ofFields fields, rest)

theorem readValue?_word {word rest : List Char} {literal : Literal} (fuel : Nat)
    (all : word.all isWordChar = true) (ends : EndsWord rest)
    (known : wordLiteral? word = some literal) :
    readValue? (fuel + 1) (word ++ rest) = some (literal, rest) := by
  have each := List.all_eq_true.mp all
  have read := readWord?_append each ends known
  cases word with
  | nil => cases known
  | cons c word =>
      have noMark {mark : Char} (noWord : isWordChar mark = false) : c ≠ mark := by
        intro same
        have inWord := each c List.mem_cons_self
        rw [same, noWord] at inWord
        cases inWord
      rw [List.cons_append] at read ⊢
      rw [readValue?, if_neg (noMark rfl), if_neg (noMark rfl), if_neg (noMark rfl), read]

/-- No item starts with the bracket that closes the array. -/
theorem afterBeginning?_of_readItems? {fuel : Nat} {text : List Char}
    {read : List Literal × List Char} (reads : readItems? fuel text = some read) :
    afterBeginning? [']'] text = none := by
  cases text with
  | nil => rfl
  | cons c text =>
      rw [afterBeginning?]
      apply if_neg
      rintro rfl
      rcases fuel with - | - | fuel
      all_goals cases reads

theorem itemChars_cons_cons (item second : Value) (others : List Value) :
    itemChars (item :: second :: others) =
      valueChars item ++ ',' :: ' ' :: itemChars (second :: others) :=
  rfl

theorem fieldChars_cons_cons (key : String) (value : Value) (second : String × Value)
    (others : Json.Fields) :
    fieldChars ((key, value) :: second :: others) =
      quoteChars key.toList ++ ':' :: ' ' :: valueChars value ++
        ',' :: ' ' :: fieldChars (second :: others) :=
  rfl

namespace ReadsBack

variable {fuel : Nat}

theorem value_succ (now : ReadsBack fuel) (v : Value) (rest : List Char)
    (enough : (valueChars v).length < fuel + 1) (ends : EndsWord rest) :
    readValue? (fuel + 1) (valueChars v ++ rest) = some (.ofValue v, rest) := by
  cases v with
  | null => exact readValue?_word fuel (by decide) ends rfl
  | bool value =>
      cases value with
      | false => exact readValue?_word fuel (by decide) ends rfl
      | true => exact readValue?_word fuel (by decide) ends rfl
  | number value =>
      apply readValue?_word fuel _ ends (wordLiteral?_text value)
      apply List.all_eq_true.mpr
      intro c member
      exact isWordChar_of_isNumeral (Json.Number.isNumeral_of_mem_text member)
  | string value =>
      rw [valueChars, quoteChars_append, readValue?, if_pos rfl, readQuoted?_escaped,
        Option.map_some, String.ofList_toList, Literal.ofValue]
  | array items =>
      cases items with
      | nil => rfl
      | cons item items =>
          rw [valueChars, List.cons_append] at enough ⊢
          rw [List.length_cons, List.length_append, List.length_singleton] at enough
          have read := now.items (item :: items) rest (List.cons_ne_nil _ _) (by omega)
          -- That the first item can be read shows that it is not the end of the array.
          rw [List.cons_append, List.append_assoc, List.singleton_append, readValue?,
            if_neg (by decide), if_pos rfl, afterBeginning?_of_readItems? read, read]
          rfl
  | object fields =>
      cases fields with
      | nil => rfl
      | cons field fields =>
          rw [valueChars, List.cons_append, List.cons_append] at enough ⊢
          rw [List.length_cons, List.length_cons, List.length_append] at enough
          have read := now.fields (field :: fields) rest (List.cons_ne_nil _ _) (by omega)
          rw [List.cons_append, List.cons_append, List.append_assoc, List.cons_append,
            List.singleton_append, readValue?, if_neg (by decide), if_neg (by decide), if_pos rfl]
          show (readFields? fuel _).map _ = _
          rw [read]
          rfl

theorem items_succ (now : ReadsBack fuel) (items : List Value) (rest : List Char)
    (nonempty : items ≠ []) (enough : (itemChars items).length + 1 < fuel + 1) :
    readItems? (fuel + 1) (itemChars items ++ ']' :: rest) =
      some (Literal.ofItems items, rest) := by
  rcases items with - | ⟨item, - | ⟨second, others⟩⟩
  · exact absurd rfl nonempty
  · rw [itemChars] at enough ⊢
    rw [readItems?, now.value item _ (by omega) (endsWord_cons _ rfl)]
    rfl
  · rw [itemChars_cons_cons] at enough ⊢
    rw [List.length_append, List.length_cons, List.length_cons] at enough
    have later := now.items (second :: others) rest (List.cons_ne_nil _ _) (by omega)
    rw [List.append_assoc, List.cons_append, List.cons_append, readItems?,
      now.value item _ (by omega) (endsWord_cons _ rfl)]
    show (readItems? fuel _).map _ = _
    rw [later]
    rfl

theorem fields_succ (now : ReadsBack fuel) (fields : Json.Fields) (rest : List Char)
    (nonempty : fields ≠ []) (enough : (fieldChars fields).length + 1 < fuel + 1) :
    readFields? (fuel + 1) (fieldChars fields ++ ' ' :: '\x7d' :: rest) =
      some (Literal.ofFields fields, rest) := by
  rcases fields with - | ⟨⟨key, value⟩, - | ⟨second, others⟩⟩
  · exact absurd rfl nonempty
  · rw [fieldChars] at enough ⊢
    rw [List.length_append, List.length_cons, List.length_cons] at enough
    have first := now.value value (' ' :: '\x7d' :: rest) (by omega) (endsWord_cons _ rfl)
    rw [List.append_assoc, List.cons_append, List.cons_append, readFields?,
      readStringChars?_quoteChars, Option.bind_some]
    show (readValue? fuel _).bind _ = _
    rw [first, Option.bind_some, String.ofList_toList]
    rfl
  · rw [fieldChars_cons_cons] at enough ⊢
    rw [List.length_append, List.length_append, List.length_cons, List.length_cons,
      List.length_cons, List.length_cons] at enough
    have later := now.fields (second :: others) rest (List.cons_ne_nil _ _) (by omega)
    rw [List.append_assoc, List.append_assoc, List.cons_append, List.cons_append, readFields?,
      readStringChars?_quoteChars, Option.bind_some]
    show (readValue? fuel _).bind _ = _
    rw [List.cons_append, List.cons_append, now.value value _ (by omega) (endsWord_cons _ rfl),
      Option.bind_some, String.ofList_toList]
    show (readFields? fuel _).map _ = _
    rw [later]
    rfl

end ReadsBack

theorem readsBack (fuel : Nat) : ReadsBack fuel := by
  induction fuel with
  | zero =>
      exact ⟨fun _ _ short => absurd short (Nat.not_lt_zero _),
        fun _ _ _ short => absurd short (Nat.not_lt_zero _),
        fun _ _ _ short => absurd short (Nat.not_lt_zero _)⟩
  | succ fuel now => exact ⟨now.value_succ, now.items_succ, now.fields_succ⟩

theorem readFirst?_value (v : Value) (rest : String) (ends : EndsWord rest.toList) :
    Literal.readFirst? (value v ++ rest) = some (.ofValue v, rest) := by
  have enough : (valueChars v).length < (value v ++ rest).length + 1 := by
    rw [String.length_append, value, String.length_ofList]
    omega
  rw [Literal.readFirst?, String.toList_append, value, String.toList_ofList, ← value,
    (readsBack _).value v rest.toList enough ends, Option.map_some, String.ofList_toList]

theorem read?_value (v : Value) : Literal.read? (value v) = some (.ofValue v) := by
  have read := readFirst?_value v "" (by intro c head; cases head)
  rw [String.append_empty] at read
  rw [Literal.read?, read, Option.bind_some, if_pos rfl]

theorem ofValue_of_value_eq {v other : Value} (same : value v = value other) :
    Literal.ofValue v = .ofValue other := by
  have read := read?_value v
  rw [same, read?_value other] at read
  exact (Option.some.inj read).symm

theorem ofItems_eq_map (items : List Value) :
    Literal.ofItems items = items.map Literal.ofValue := by
  induction items with
  | nil => rfl
  | cons item items ih => rw [Literal.ofItems, ih, List.map_cons]

theorem ofFields_eq_map (fields : Json.Fields) :
    Literal.ofFields fields = fields.map (Prod.map id Literal.ofValue) := by
  induction fields with
  | nil => rfl
  | cons field fields ih =>
      rw [Literal.ofFields, ih, List.map_cons]
      rfl

/-- Only a string is written with a quote first. -/
theorem string_of_quote_first {v : Value} {more rest : List Char}
    (quoted : valueChars v ++ more = '\'' :: rest) : ∃ content, v = .string content := by
  cases v with
  | null => cases quoted
  | bool value =>
      cases value with
      | false => cases quoted
      | true => cases quoted
  | number value =>
      rw [valueChars] at quoted
      cases written : value.text.toList with
      | nil => exact absurd written (Json.Number.text_ne_nil value)
      | cons c word =>
          rw [written, List.cons_append] at quoted
          have numeral := Json.Number.isNumeral_of_mem_text (written ▸ List.mem_cons_self)
          rw [(List.cons.inj quoted).1] at numeral
          cases numeral
  | string content => exact ⟨content, rfl⟩
  | array items => cases quoted
  | object fields =>
      cases fields with
      | nil => cases quoted
      | cons field fields => cases quoted

theorem eq_of_string_first {v : Value} {content more rest : String}
    (same : value v ++ more = quote content ++ rest) : v = .string content ∧ more = rest := by
  have quoted := congrArg String.toList same
  rw [String.toList_append, value, String.toList_ofList, String.toList_append, quote,
    String.toList_ofList, quoteChars_append] at quoted
  obtain ⟨other, rfl⟩ := string_of_quote_first quoted
  have read := readString?_quote other more
  have written : value (.string other) = quote other := rfl
  rw [← written, same, readString?_quote content rest] at read
  obtain ⟨rfl, rfl⟩ := Prod.mk.inj (Option.some.inj read)
  exact ⟨rfl, rfl⟩

/-- Reading is an inverse of writing. -/
theorem value_written_faithfully (v : Value) : WrittenFaithfully v where
  read := read?_value v
  followed := readFirst?_value v
  only _ same := ofValue_of_value_eq same
  items others same := by
    have read := ofValue_of_value_eq same
    cases v with
    | array items =>
        refine ⟨items, rfl, ?_⟩
        rw [← ofItems_eq_map, ← ofItems_eq_map]
        exact Literal.array.inj read
    | null | bool | number | string | object => cases read
  fields others same := by
    have read := ofValue_of_value_eq same
    cases v with
    | object fields =>
        refine ⟨fields, rfl, ?_⟩
        rw [← ofFields_eq_map, ← ofFields_eq_map]
        exact Literal.object.inj read
    | null | bool | number | string | array => cases read
  string _ _ _ same := eq_of_string_first same

end TypeScript
end SchemaCompiler
