import SchemaCompiler.Name.Identifier
import SchemaCompiler.Proofs.Name.Case
import SchemaCompiler.Proofs.Name.Inflection

/-
Identifiers under letter case.

Letter case drops the separators of a name, and what starts the result is the first character
of the name that is none.  After underscores an identifier may go on with a digit, or not go on
at all: then its PascalCase and camelCase are no identifiers.  The singular of an identifier is
always one, and opens with the same character.
-/

namespace SchemaCompiler
namespace Name

theorem continuesIdentifier_of_startsIdentifier {c : Char} (starts : startsIdentifier c = true) :
    continuesIdentifier c = true := by
  simp only [startsIdentifier, continuesIdentifier, Char.isAlphanum, Bool.or_eq_true] at starts ⊢
  exact starts.imp_left Or.inl

theorem isIdentifier_iff {name : String} :
    isIdentifier name = true ↔
      (∃ c, name.toList.head? = some c ∧ startsIdentifier c = true) ∧
        ∀ c ∈ name.toList, continuesIdentifier c = true := by
  rw [isIdentifier]
  cases name.toList with
  | nil => simp [spells]
  | cons c rest =>
      simp only [spells, Bool.and_eq_true, List.all_eq_true, List.head?_cons, Option.some.injEq,
        exists_eq_left', List.forall_mem_cons]
      constructor
      · rintro ⟨starts, continues⟩
        exact ⟨starts, continuesIdentifier_of_startsIdentifier starts, continues⟩
      · rintro ⟨starts, _, continues⟩
        exact ⟨starts, continues⟩

theorem continuesIdentifier_of_mem {name : String} (identifier : isIdentifier name = true) :
    ∀ c ∈ name.toList, continuesIdentifier c = true :=
  (isIdentifier_iff.mp identifier).2

theorem isIdentifier_append {before after : String} (identifier : isIdentifier before = true)
    (continues : ∀ c ∈ after.toList, continuesIdentifier c = true) :
    isIdentifier (before ++ after) = true := by
  obtain ⟨⟨c, first, starts⟩, inside⟩ := isIdentifier_iff.mp identifier
  rw [isIdentifier_iff, String.toList_append, List.forall_mem_append, List.head?_append, first]
  exact ⟨⟨c, rfl, starts⟩, inside, continues⟩

/-- An identifier stays one without its ending, unless nothing is left. -/
theorem isIdentifier_of_beforeEnding? {ending before : List Char} {c : Char} {name : String}
    (found : Text.beforeEnding? ending name.toList = some (c :: before))
    (identifier : isIdentifier name = true) :
    isIdentifier (String.ofList (c :: before)) = true := by
  have whole := Text.eq_append_of_beforeEnding? found
  rw [isIdentifier_iff, whole, List.cons_append, List.head?_cons] at identifier
  rw [isIdentifier_iff, String.toList_ofList, List.head?_cons]
  refine ⟨identifier.1, ?_⟩
  intro other member
  exact identifier.2 other (List.mem_append_left ending member)

theorem not_slash_of_continuesIdentifier {c : Char} (continues : continuesIdentifier c = true) :
    c ≠ '/' := by
  rintro rfl
  exact absurd continues (by decide)

theorem startsIdentifier_toUpper (c : Char) :
    startsIdentifier c.toUpper = startsIdentifier c := by
  rcases toUpper_eq_or_isAlpha c with same | letter
  · rw [same]
  · simp only [startsIdentifier, Char.isAlpha_toUpper_eq_isAlpha, letter, Bool.true_or]

theorem startsIdentifier_toLower (c : Char) :
    startsIdentifier c.toLower = startsIdentifier c := by
  rcases toLower_eq_or_isAlpha c with same | letter
  · rw [same]
  · simp only [startsIdentifier, Char.isAlpha_toLower_eq_isAlpha, letter, Bool.true_or]

theorem continuesIdentifier_toUpper (c : Char) :
    continuesIdentifier c.toUpper = continuesIdentifier c := by
  rcases toUpper_eq_or_isAlpha c with same | letter
  · rw [same]
  · simp only [continuesIdentifier, Char.isAlphanum, Char.isAlpha_toUpper_eq_isAlpha, letter,
      Bool.true_or]

theorem continuesIdentifier_toLower (c : Char) :
    continuesIdentifier c.toLower = continuesIdentifier c := by
  rcases toLower_eq_or_isAlpha c with same | letter
  · rw [same]
  · simp only [continuesIdentifier, Char.isAlphanum, Char.isAlpha_toLower_eq_isAlpha, letter,
      Bool.true_or]

theorem continuesIdentifier_of_mem_pascalChars {name : List Char}
    (continues : ∀ c ∈ name, continuesIdentifier c = true) :
    ∀ c ∈ pascalChars name, continuesIdentifier c = true := by
  apply forall_mem_pascalChars
  · intro c holds
    rwa [continuesIdentifier_toUpper]
  · intro word inWords c inWord
    exact continues c (Text.subset_of_mem_split (List.mem_filter.mp inWords).1 inWord)

theorem continuesIdentifier_of_mem_camelChars {name : List Char}
    (continues : ∀ c ∈ name, continuesIdentifier c = true) :
    ∀ c ∈ camelChars name, continuesIdentifier c = true := by
  apply forall_mem_camelChars
  · intro c holds
    rwa [continuesIdentifier_toLower]
  · exact continuesIdentifier_of_mem_pascalChars continues

/-- The first character of a name that is no separator. -/
def opening? (name : String) : Option Char :=
  name.toList.find? fun c => !separatesWords c

def opensWithLetter (name : String) : Bool :=
  (opening? name).any Char.isAlpha

def opensWithDigit (name : String) : Bool :=
  (opening? name).any Char.isDigit

example : opening? "_2fa_codes" = some '2' := by decide

theorem head?_pascalChars (name : List Char) :
    (pascalChars name).head? = (name.find? fun c => !separatesWords c).map Char.toUpper := by
  induction name with
  | nil => rfl
  | cons c rest ih =>
      cases separating : separatesWords c with
      | true =>
          rw [List.find?_cons_of_neg (by rw [separating]; exact Bool.false_ne_true), ← ih]
          exact congrArg List.head? (pascalChars_append_of_separates separating [] rest)
      | false =>
          rw [List.find?_cons_of_pos (by rw [separating]; rfl), pascalChars, words, Text.split,
            if_neg (by rw [separating]; exact Bool.false_ne_true)]
          cases Text.split separatesWords rest with
          | nil => rfl
          | cons piece pieces => rfl

theorem head?_camelChars (name : List Char) :
    (camelChars name).head? = (name.find? fun c => !separatesWords c).map Char.toLower := by
  have lowered : (camelChars name).head? = (pascalChars name).head?.map Char.toLower := by
    rw [camelChars]
    cases pascalChars name with
    | nil => rfl
    | cons first rest => rfl
  rw [lowered, head?_pascalChars, Option.map_map]
  simp only [Function.comp_def, Char.toLower_toUpper_eq_toLower]

theorem not_underscore_of_joins {c : Char} (joins : separatesWords c = false) :
    (c == '_') = false := by
  simp only [separatesWords, Bool.or_eq_false_iff] at joins
  exact joins.1.1

/-- A character that is no separator starts an identifier when it is a letter. -/
theorem startsIdentifier_of_joins {c : Char} (joins : separatesWords c = false) :
    startsIdentifier c = c.isAlpha := by
  rw [startsIdentifier, not_underscore_of_joins joins, Bool.or_false]

/-- In an identifier, a character that is no separator is a digit if it is no letter. -/
theorem isDigit_eq_of_joins {c : Char} (joins : separatesWords c = false)
    (continues : continuesIdentifier c = true) : c.isDigit = !c.isAlpha := by
  rw [continuesIdentifier, not_underscore_of_joins joins, Bool.or_false,
    Char.isAlphanum] at continues
  cases digit : c.isDigit with
  | true => rw [not_isAlpha_of_isDigit digit, Bool.not_false]
  | false =>
      rw [digit, Bool.or_false] at continues
      rw [continues, Bool.not_true]

theorem joins_of_opening? {name : String} {c : Char} (found : opening? name = some c) :
    c ∈ name.toList ∧ separatesWords c = false :=
  ⟨List.mem_of_find?_eq_some found, by simpa using List.find?_some found⟩

theorem opensWithLetter_iff {name : String} :
    opensWithLetter name = true ↔ ∃ c, opening? name = some c ∧ c.isAlpha = true := by
  rw [opensWithLetter, Option.any_eq_true_iff_get]
  simp [Option.eq_some_iff_get_eq]

theorem opening?_append {before : String} {c : Char} (found : opening? before = some c)
    (after : String) : opening? (before ++ after) = some c := by
  rw [opening?] at found
  rw [opening?, String.toList_append, List.find?_append, found]
  rfl

theorem camel_eq_empty_iff {name : String} : camel name = "" ↔ opening? name = none := by
  have empty : camel name = "" ↔ camelChars name.toList = [] := by
    rw [camel, ← String.toList_inj, String.toList_ofList]
    rfl
  rw [empty, ← List.head?_eq_none_iff, head?_camelChars, Option.map_eq_none_iff, opening?]

theorem opensWithLetter_append {before : String} (opens : opensWithLetter before = true)
    (after : String) : opensWithLetter (before ++ after) = true := by
  obtain ⟨c, found, letter⟩ := opensWithLetter_iff.mp opens
  exact opensWithLetter_iff.mpr ⟨c, opening?_append found after, letter⟩

theorem opensWithDigit_eq_false {name : String} (opens : opensWithLetter name = true) :
    opensWithDigit name = false := by
  obtain ⟨c, found, letter⟩ := opensWithLetter_iff.mp opens
  rw [opensWithDigit, found, Option.any_some, Bool.eq_false_iff]
  intro digit
  rw [not_isAlpha_of_isDigit digit] at letter
  cases letter

theorem camel_ne_empty {name : String} (opens : opensWithLetter name = true) :
    camel name ≠ "" := by
  obtain ⟨c, found, _⟩ := opensWithLetter_iff.mp opens
  rw [ne_eq, camel_eq_empty_iff, found]
  exact nofun

section Converted

variable {name suffix : String} (identifier : isIdentifier name = true)
include identifier

theorem continuesIdentifier_of_mem_pascal :
    ∀ c ∈ (pascal name).toList, continuesIdentifier c = true := by
  rw [pascal, String.toList_ofList]
  exact continuesIdentifier_of_mem_pascalChars (isIdentifier_iff.mp identifier).2

theorem continuesIdentifier_of_mem_camel :
    ∀ c ∈ (camel name).toList, continuesIdentifier c = true := by
  rw [camel, String.toList_ofList]
  exact continuesIdentifier_of_mem_camelChars (isIdentifier_iff.mp identifier).2

theorem isIdentifier_pascal_iff :
    isIdentifier (pascal name) = true ↔ opensWithLetter name = true := by
  rw [isIdentifier_iff, and_iff_left (continuesIdentifier_of_mem_pascal identifier), pascal,
    String.toList_ofList, head?_pascalChars, ← opening?, opensWithLetter]
  cases found : opening? name with
  | none => simp
  | some c =>
      simp [startsIdentifier_toUpper, startsIdentifier_of_joins (joins_of_opening? found).2]

theorem isIdentifier_camel_iff :
    isIdentifier (camel name) = true ↔ opensWithLetter name = true := by
  rw [isIdentifier_iff, and_iff_left (continuesIdentifier_of_mem_camel identifier), camel,
    String.toList_ofList, head?_camelChars, ← opening?, opensWithLetter]
  cases found : opening? name with
  | none => simp
  | some c =>
      simp [startsIdentifier_toLower, startsIdentifier_of_joins (joins_of_opening? found).2]

/-- With an ending, nothing but a digit at the start of camelCase is in the way. -/
theorem isIdentifier_camel_append_iff (ending : isIdentifier suffix = true) :
    isIdentifier (camel name ++ suffix) = true ↔ opensWithDigit name = false := by
  have ⟨⟨first, leads, starts⟩, continues⟩ := isIdentifier_iff.mp ending
  have inside : ∀ c ∈ (camel name ++ suffix).toList, continuesIdentifier c = true := by
    rw [String.toList_append, List.forall_mem_append]
    exact ⟨continuesIdentifier_of_mem_camel identifier, continues⟩
  rw [isIdentifier_iff, and_iff_left inside, String.toList_append, List.head?_append, leads,
    camel, String.toList_ofList, head?_camelChars, ← opening?, opensWithDigit]
  cases found : opening? name with
  | none => simp [starts]
  | some c =>
      obtain ⟨member, joins⟩ := joins_of_opening? found
      have digit := isDigit_eq_of_joins joins ((isIdentifier_iff.mp identifier).2 c member)
      simp [startsIdentifier_toLower, startsIdentifier_of_joins joins, digit]

theorem isIdentifier_singular : isIdentifier (singular name) = true := by
  obtain ⟨first, inside⟩ := isIdentifier_iff.mp identifier
  rw [isIdentifier_iff, singular, String.toList_ofList, head?_singularChars]
  refine ⟨first, ?_⟩
  intro c member
  rcases mem_singularChars member with kept | rfl
  · exact inside c kept
  · decide

theorem opening?_singular : opening? (singular name) = opening? name := by
  by_cases ends : lastWord name.toList = []
  · rw [singular, singularChars_of_lastWord_eq_nil ends, String.ofList_toList]
  · obtain ⟨before, stem, dropped, added, some, plain, whole, made, _⟩ :=
      singularChars_cases ends
    obtain ⟨c, rest, rfl⟩ := List.exists_cons_of_ne_nil some
    -- The underscore is the one separator that an identifier may have.
    have joins : separatesWords c = false := by
      have present : c ∈ name.toList := by simp [whole]
      have continues := (isIdentifier_iff.mp identifier).2 c present
      have other : c ≠ '_' := by
        rintro rfl
        exact plain List.mem_cons_self
      simp only [separatesWords, Bool.or_eq_false_iff, beq_eq_false_iff_ne]
      refine ⟨⟨other, ?_⟩, ?_⟩ <;>
        · rintro rfl
          exact absurd continues (by decide)
    rw [opening?, opening?, singular, made, whole, String.toList_ofList]
    simp [joins, List.find?_append]

end Converted

end Name
end SchemaCompiler
