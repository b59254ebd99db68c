import SchemaCompiler.Name.Case
import SchemaCompiler.Proofs.Decimal.Digits
import SchemaCompiler.Proofs.Text.Pieces

/-
Words of a name under letter case.

A separator between two names keeps their words apart, so PascalCase of the
whole is PascalCase of both parts.  Digits have no case, hence a number that is
appended to a name is appended to its camelCase as it stands.  PascalCase and
camelCase of a name determine each other.  No separator is left in either, so a
name in camelCase is one word and stays as it is.
-/

namespace SchemaCompiler

namespace Name

theorem words_append_of_separates {c : Char} (separating : separatesWords c = true)
    (before after : List Char) : words (before ++ c :: after) = words before ++ words after := by
  simp only [words, Text.split_append_of_separates separating, List.filter_append]

theorem words_of_none_separates {word : List Char} (nonempty : word ≠ [])
    (joined : ∀ c ∈ word, separatesWords c = false) : words word = [word] := by
  rw [words, Text.split_of_none_separates joined]
  cases word with
  | nil => exact absurd rfl nonempty
  | cons c rest => rfl

theorem pascalChars_append_of_separates {c : Char} (separating : separatesWords c = true)
    (before after : List Char) :
    pascalChars (before ++ c :: after) = pascalChars before ++ pascalChars after := by
  simp only [pascalChars, words_append_of_separates separating, List.flatMap_append]

theorem caseless_of_isDigit {c : Char} (digit : c.isDigit = true) :
    c.isUpper = false ∧ c.isLower = false := by
  simp only [Char.isUpper, Char.isLower, Char.isDigit, Bool.and_eq_true, decide_eq_true_eq,
    Bool.and_eq_false_iff, decide_eq_false_iff_not, UInt32.le_iff_toNat_le, ge_iff_le] at digit ⊢
  have bounds : '0'.val.toNat = 48 ∧ '9'.val.toNat = 57 ∧ 'A'.val.toNat = 65 ∧
      'a'.val.toNat = 97 := by decide
  omega

theorem not_isAlpha_of_isDigit {c : Char} (digit : c.isDigit = true) : c.isAlpha = false := by
  have ⟨upper, lower⟩ := caseless_of_isDigit digit
  rw [Char.isAlpha, upper, lower, Bool.or_self]

theorem isAlpha_of_isLower {c : Char} (lower : c.isLower = true) : c.isAlpha = true := by
  rw [Char.isAlpha, lower, Bool.or_true]

theorem toUpper_eq_or_isAlpha (c : Char) : c.toUpper = c ∨ c.isAlpha = true := by
  by_cases lower : c.isLower = true
  · exact Or.inr (isAlpha_of_isLower lower)
  · exact Or.inl (Char.toUpper_eq_of_not_isLower lower)

theorem toLower_eq_or_isAlpha (c : Char) : c.toLower = c ∨ c.isAlpha = true := by
  by_cases upper : c.isUpper = true
  · exact Or.inr (by rw [Char.isAlpha, upper, Bool.true_or])
  · exact Or.inl (Char.toLower_eq_of_not_isUpper upper)

theorem toUpper_of_isDigit {c : Char} (digit : c.isDigit = true) : c.toUpper = c :=
  Char.toUpper_eq_of_not_isLower (Bool.eq_false_iff.mp (caseless_of_isDigit digit).2)

theorem toLower_of_isDigit {c : Char} (digit : c.isDigit = true) : c.toLower = c :=
  Char.toLower_eq_of_not_isUpper (Bool.eq_false_iff.mp (caseless_of_isDigit digit).1)

theorem separatesWords_of_isAlphanum {c : Char} (joins : c.isAlphanum = true) :
    separatesWords c = false := by
  cases separating : separatesWords c with
  | false => rfl
  | true =>
      simp only [separatesWords, Bool.or_eq_true, beq_iff_eq] at separating
      rcases separating with (rfl | rfl) | rfl <;> exact absurd joins (by decide)

theorem separatesWords_of_isAlpha {c : Char} (letter : c.isAlpha = true) :
    separatesWords c = false :=
  separatesWords_of_isAlphanum (by rw [Char.isAlphanum, letter, Bool.true_or])

theorem separatesWords_toUpper (c : Char) : separatesWords c.toUpper = separatesWords c := by
  rcases toUpper_eq_or_isAlpha c with same | letter
  · rw [same]
  · rw [separatesWords_of_isAlpha letter, separatesWords_of_isAlpha]
    rwa [Char.isAlpha_toUpper_eq_isAlpha]

theorem separatesWords_toLower (c : Char) : separatesWords c.toLower = separatesWords c := by
  rcases toLower_eq_or_isAlpha c with same | letter
  · rw [same]
  · rw [separatesWords_of_isAlpha letter, separatesWords_of_isAlpha]
    rwa [Char.isAlpha_toLower_eq_isAlpha]

theorem isAlphanum_of_isDigit {c : Char} (digit : c.isDigit = true) : c.isAlphanum = true := by
  rw [Char.isAlphanum, digit, Bool.or_true]

/-- What holds of the words, and of capitals when it holds of letters, holds in PascalCase. -/
theorem forall_mem_pascalChars {P : Char → Prop} (raised : ∀ c, P c → P c.toUpper)
    {name : List Char} (ofWords : ∀ word ∈ words name, ∀ c ∈ word, P c) :
    ∀ c ∈ pascalChars name, P c := by
  intro c member
  obtain ⟨word, inWords, inWord⟩ := List.mem_flatMap.mp member
  have holds := ofWords word inWords
  cases word with
  | nil => cases inWord
  | cons first rest =>
      rw [List.forall_mem_cons] at holds
      rcases List.mem_cons.mp inWord with here | later
      · rw [here]
        exact raised first holds.1
      · exact holds.2 c later

theorem forall_mem_camelChars {P : Char → Prop} (lowered : ∀ c, P c → P c.toLower)
    {name : List Char} (ofPascal : ∀ c ∈ pascalChars name, P c) :
    ∀ c ∈ camelChars name, P c := by
  rw [camelChars]
  cases written : pascalChars name with
  | nil => exact List.forall_mem_nil _
  | cons first rest =>
      rw [written, List.forall_mem_cons] at ofPascal
      rw [uncapitalize, List.forall_mem_cons]
      exact ⟨lowered first ofPascal.1, ofPascal.2⟩

theorem joined_camelChars (name : List Char) :
    ∀ c ∈ camelChars name, separatesWords c = false := by
  apply forall_mem_camelChars
  · intro c joined
    rw [separatesWords_toLower, joined]
  · apply forall_mem_pascalChars
    · intro c joined
      rw [separatesWords_toUpper, joined]
    · intro word member
      exact Text.joined_of_mem_split (List.mem_filter.mp member).1

theorem pascalChars_digits (n : Nat) : pascalChars (Decimal.digits n) = Decimal.digits n := by
  have oneWord : words (Decimal.digits n) = [Decimal.digits n] :=
    words_of_none_separates (Decimal.digits_ne_nil n) fun c member =>
      separatesWords_of_isAlphanum (isAlphanum_of_isDigit (Decimal.isDigit_of_mem_digits member))
  rw [pascalChars, oneWord, List.flatMap_singleton]
  cases written : Decimal.digits n with
  | nil => rfl
  | cons first rest =>
      have digit : first.isDigit = true :=
        Decimal.isDigit_of_mem_digits (written ▸ List.mem_cons_self)
      rw [capitalize, toUpper_of_isDigit digit]

theorem camelChars_digits (n : Nat) : camelChars (Decimal.digits n) = Decimal.digits n := by
  rw [camelChars, pascalChars_digits]
  cases written : Decimal.digits n with
  | nil => rfl
  | cons first rest =>
      have digit : first.isDigit = true :=
        Decimal.isDigit_of_mem_digits (written ▸ List.mem_cons_self)
      rw [uncapitalize, toLower_of_isDigit digit]

/-- A number after a name stays as it is in the camelCase of both. -/
theorem camelChars_append_digits (name : List Char) (n : Nat) :
    camelChars (name ++ '_' :: Decimal.digits n) = camelChars name ++ Decimal.digits n := by
  have apart : pascalChars (name ++ '_' :: Decimal.digits n) =
      pascalChars name ++ Decimal.digits n := by
    rw [pascalChars_append_of_separates (by decide), pascalChars_digits]
  rw [camelChars, apart, camelChars]
  cases pascalChars name with
  | nil =>
      have unchanged := camelChars_digits n
      rw [camelChars, pascalChars_digits] at unchanged
      exact unchanged
  | cons first rest => rfl

/-- Names with one PascalCase have one camelCase. -/
theorem camel_eq_of_pascal_eq {left right : String} (same : pascal left = pascal right) :
    camel left = camel right := by
  have chars : pascalChars left.toList = pascalChars right.toList := String.ofList_injective same
  rw [camel, camel, camelChars, camelChars, chars]

theorem length_camel (name : String) : (camel name).length = (pascal name).length := by
  rw [camel, pascal, String.length_ofList, String.length_ofList, camelChars]
  cases pascalChars name.toList with
  | nil => rfl
  | cons first rest => rfl

theorem capitalize_camelChars (name : List Char) :
    capitalize (camelChars name) = pascalChars name := by
  rw [camelChars, pascalChars]
  cases found : words name with
  | nil => rfl
  | cons word rest =>
      have nonempty : word ≠ [] := by
        have kept : word ∈ words name := found ▸ List.mem_cons_self
        simpa using (List.mem_filter.mp kept).2
      cases word with
      | nil => exact absurd rfl nonempty
      | cons first others =>
          show first.toUpper.toLower.toUpper :: _ = first.toUpper :: _
          rw [Char.toUpper_toLower_eq_toUpper, Char.toUpper_toUpper_eq_toUpper]

/-- Names with one camelCase have one PascalCase. -/
theorem pascal_eq_of_camel_eq {left right : String} (same : camel left = camel right) :
    pascal left = pascal right := by
  have chars : camelChars left.toList = camelChars right.toList := String.ofList_injective same
  rw [pascal, pascal, ← capitalize_camelChars, chars, capitalize_camelChars]

/-- A name in camelCase is a single word. -/
theorem pascalChars_camelChars (name : List Char) :
    pascalChars (camelChars name) = pascalChars name := by
  have joined := joined_camelChars name
  rw [← capitalize_camelChars name]
  cases written : camelChars name with
  | nil => rfl
  | cons first rest =>
      rw [written] at joined
      rw [pascalChars, words_of_none_separates (List.cons_ne_nil first rest) joined,
        List.flatMap_singleton]

theorem camel_camel (name : String) : camel (camel name) = camel name := by
  rw [camel, camel, String.toList_ofList, camelChars, pascalChars_camelChars, ← camelChars]

theorem pascal_append (left right : String) :
    pascal (left ++ "_" ++ right) = pascal left ++ pascal right := by
  have chars : (left ++ "_" ++ right).toList = left.toList ++ '_' :: right.toList := by simp
  rw [pascal, chars, pascalChars_append_of_separates rfl, String.ofList_append, ← pascal,
    ← pascal]

/-- PascalCase tells the same names apart as camelCase does, camelCase is kept by camelCase, and
PascalCase of two names with an underscore between them is that of the one and then that of
the other. -/
theorem conversions_agree (left right : String) :
    (pascal left = pascal right ↔ camel left = camel right) ∧
      camel (camel left) = camel left ∧
      pascal (left ++ "_" ++ right) = pascal left ++ pascal right := by
  refine ⟨?_, camel_camel left, pascal_append left right⟩
  constructor
  · exact camel_eq_of_pascal_eq
  · exact pascal_eq_of_camel_eq

end Name
end SchemaCompiler
