import Mathlib.Computability.Language

/-
Patterns of text.

A pattern is written as a regular expression and means a language.  Only the part of the
syntax is here that the check of decimal numbers uses: characters, digits, groups, and the
quantifiers for at most one and for at least one.
-/

namespace SchemaCompiler
namespace Text

/-- A pattern of text. -/
inductive Pattern where
  | literal (c : Char)
  | digit
  | optional (part : Pattern)
  | repeated (part : Pattern)
  | sequence (first second : Pattern)
deriving DecidableEq, Repr

namespace Pattern

/-- The characters that mean something else than themselves. -/
def isSpecial (c : Char) : Bool :=
  "\\^$.|?*+()[]\x7b\x7d/".toList.contains c

/-- A pattern as a quantifier takes it: more than one character needs a group. -/
def grouped (source : String) : Pattern → String
  | literal _ | digit => source
  | _ => "(" ++ source ++ ")"

/-- The regular expression of a pattern, without anchors. -/
def source : Pattern → String
  | literal c => if isSpecial c then "\\" ++ c.toString else c.toString
  | digit => "\\d"
  | optional part => part.grouped part.source ++ "?"
  | repeated part => part.grouped part.source ++ "+"
  | sequence first second => first.source ++ second.source

/-- The texts that match a pattern from their start to their end. -/
def language : Pattern → Language Char
  | literal c => {[c]}
  | digit => {content | ∃ c : Char, c.isDigit = true ∧ content = [c]}
  | optional part => 1 + part.language
  | repeated part => part.language * KStar.kstar part.language
  | sequence first second => first.language * second.language

/-- Whether a character may occur in a text that matches. -/
def mayContain (c : Char) : Pattern → Bool
  | literal other => c == other
  | digit => c.isDigit
  | optional part | repeated part => part.mayContain c
  | sequence first second => first.mayContain c || second.mayContain c

section Membership

variable {content : List Char}

@[simp] theorem mem_literal {c : Char} : content ∈ (literal c).language ↔ content = [c] :=
  Iff.rfl

@[simp] theorem mem_digit :
    content ∈ digit.language ↔ ∃ c : Char, c.isDigit = true ∧ content = [c] :=
  Iff.rfl

@[simp] theorem mem_optional {part : Pattern} :
    content ∈ (optional part).language ↔ content = [] ∨ content ∈ part.language := by
  rw [language, Language.mem_add, Language.mem_one]

@[simp] theorem mem_repeated {part : Pattern} : content ∈ (repeated part).language ↔
    ∃ first ∈ part.language, ∃ pieces : List (List Char),
      (∀ piece ∈ pieces, piece ∈ part.language) ∧ first ++ pieces.flatten = content := by
  rw [language, Language.mem_mul]
  constructor
  · rintro ⟨first, inFirst, _, ⟨pieces, rfl, each⟩, whole⟩
    exact ⟨first, inFirst, pieces, each, whole⟩
  · rintro ⟨first, inFirst, pieces, each, whole⟩
    exact ⟨first, inFirst, pieces.flatten, ⟨pieces, rfl, each⟩, whole⟩

@[simp] theorem mem_sequence {first second : Pattern} :
    content ∈ (sequence first second).language ↔
      ∃ before ∈ first.language, ∃ after ∈ second.language, before ++ after = content :=
  Language.mem_mul

theorem mayContain_of_mem {pattern : Pattern} (matched : content ∈ pattern.language)
    {c : Char} (occurs : c ∈ content) : pattern.mayContain c = true := by
  induction pattern generalizing content with
  | literal other =>
      rw [mem_literal.mp matched, List.mem_singleton] at occurs
      exact beq_iff_eq.mpr occurs
  | digit =>
      obtain ⟨d, digit, rfl⟩ := mem_digit.mp matched
      rw [List.mem_singleton.mp occurs]
      exact digit
  | optional part ih =>
      rcases mem_optional.mp matched with rfl | inPart
      · cases occurs
      · exact ih inPart occurs
  | repeated part ih =>
      obtain ⟨first, inFirst, pieces, each, rfl⟩ := mem_repeated.mp matched
      rcases List.mem_append.mp occurs with inFront | later
      · exact ih inFirst inFront
      · obtain ⟨piece, known, inPiece⟩ := List.mem_flatten.mp later
        exact ih (each piece known) inPiece
  | sequence first second ihFirst ihSecond =>
      obtain ⟨before, inFirst, after, inSecond, rfl⟩ := mem_sequence.mp matched
      rw [mayContain, Bool.or_eq_true]
      rcases List.mem_append.mp occurs with inFront | later
      · exact .inl (ihFirst inFirst inFront)
      · exact .inr (ihSecond inSecond later)

theorem mem_repeated_digit (nonempty : content ≠ [])
    (digits : ∀ c ∈ content, c.isDigit = true) : content ∈ (repeated digit).language := by
  cases content with
  | nil => exact absurd rfl nonempty
  | cons first rest =>
      refine mem_repeated.mpr ⟨[first], ⟨first, digits first List.mem_cons_self, rfl⟩,
        rest.map List.singleton, ?_, ?_⟩
      · intro piece known
        obtain ⟨c, inRest, rfl⟩ := List.mem_map.mp known
        exact ⟨c, digits c (List.mem_cons_of_mem first inRest), rfl⟩
      · rw [← List.flatMap_def, List.singleton_append]
        exact congrArg (first :: ·) (List.flatMap_singleton' rest)

end Membership

/-- Digits, and an optional fraction. -/
def unsignedNumber : Pattern :=
  sequence (repeated digit) (optional (sequence (literal '.') (repeated digit)))

/-- Decimal numbers: an optional sign, digits, and an optional fraction. -/
def decimalNumber : Pattern :=
  sequence (optional (literal '-')) unsignedNumber

section Numbers

variable {whole fraction : List Char}

theorem mem_unsignedNumber_of_whole (nonempty : whole ≠ [])
    (digits : ∀ c ∈ whole, c.isDigit = true) : whole ∈ unsignedNumber.language :=
  mem_sequence.mpr ⟨whole, mem_repeated_digit nonempty digits, [],
    mem_optional.mpr (.inl rfl), List.append_nil whole⟩

theorem mem_unsignedNumber_of_fraction (nonempty : whole ≠ [])
    (digits : ∀ c ∈ whole, c.isDigit = true) (given : fraction ≠ [])
    (more : ∀ c ∈ fraction, c.isDigit = true) :
    whole ++ '.' :: fraction ∈ unsignedNumber.language := by
  have ending : '.' :: fraction ∈ (sequence (literal '.') (repeated digit)).language :=
    mem_sequence.mpr ⟨['.'], rfl, fraction, mem_repeated_digit given more, rfl⟩
  exact mem_sequence.mpr ⟨whole, mem_repeated_digit nonempty digits, '.' :: fraction,
    mem_optional.mpr (.inr ending), rfl⟩

theorem mem_decimalNumber_of_unsigned (matched : whole ∈ unsignedNumber.language) :
    whole ∈ decimalNumber.language ∧ '-' :: whole ∈ decimalNumber.language :=
  ⟨mem_sequence.mpr ⟨[], mem_optional.mpr (.inl rfl), whole, matched, rfl⟩,
    mem_sequence.mpr ⟨['-'], mem_optional.mpr (.inr rfl), whole, matched, rfl⟩⟩

end Numbers

end Pattern
end Text
end SchemaCompiler
