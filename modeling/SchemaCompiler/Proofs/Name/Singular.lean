import SchemaCompiler.Proofs.Name.Identifier

/-
Names that are singular already.

The rules keep a word in `ss`, `us` or `is`, a word that is nothing but an ending, and a word
in anything but `s`.  What a rule makes of a word is one of these, so the singular of a singular
name is the name itself.  What comes up to the last underscore has no part in this: the singular
has the same text there, and something or nothing after it as the name does.
-/

namespace SchemaCompiler
namespace Name

/-- A word that the rules keep, written backwards. -/
inductive Settled : List Char → Prop where
  | other {word : List Char} (ends : ∀ rest, word ≠ 's' :: rest) : Settled word
  | ss (stem : List Char) : Settled ('s' :: 's' :: stem)
  | us (stem : List Char) : Settled ('s' :: 'u' :: stem)
  | is (stem : List Char) : Settled ('s' :: 'i' :: stem)
  | onlyS : Settled ['s']
  | onlyIes : Settled ['s', 'e', 'i']

theorem Settled.singularBackwards_eq {word : List Char} (settled : Settled word) :
    singularBackwards word = word := by
  cases settled with
  | other ends =>
      fun_cases singularBackwards word
      case case15 => rfl
      all_goals exact absurd rfl (ends _)
  | ss | us | is | onlyS | onlyIes => rfl

theorem settled_singularBackwards (word : List Char) : Settled (singularBackwards word) := by
  fun_cases singularBackwards word
  case case1 => exact .onlyIes
  case case2 | case4 | case5 | case6 | case7 | case8 => exact .other (by simp)
  case case3 | case10 => exact .ss _
  case case9 | case11 => exact .us _
  case case12 => exact .is _
  case case13 => exact .onlyS
  case case14 stem _ _ _ _ _ _ _ _ noDoubled _ _ _ =>
    -- Another `s` before the one that is dropped would have kept both.
    exact .other noDoubled
  case case15 noEnding => exact .other noEnding

theorem singularWord_singularWord (word : List Char) :
    singularWord (singularWord word) = singularWord word := by
  rw [singularWord, singularWord, List.reverse_reverse,
    (settled_singularBackwards word.reverse).singularBackwards_eq]

theorem singularWord_eq_nil_iff {word : List Char} : singularWord word = [] ↔ word = [] := by
  constructor
  · intro empty
    apply Decidable.byContradiction
    intro nonempty
    obtain ⟨dropped, added, stem, some, _, singular, _⟩ :=
      singularBackwards_cases (List.reverse_ne_nil_iff.mpr nonempty)
    rw [singularWord, singular, List.reverse_eq_nil_iff] at empty
    exact some (List.append_eq_nil_iff.mp empty).2
  · rintro rfl
    exact singularWord_nil

/-- A text as what goes up to its last underscore and what comes after that. -/
structure IsCut (text before after : List Char) : Prop where
  whole : text = before ++ after
  closed : before = [] ∨ before.getLast? = some '_'
  plain : '_' ∉ after

theorem isCut (name : List Char) : IsCut name (leadingWords name) (lastWord name) where
  whole := (leadingWords_append_lastWord name).symm
  closed := by
    have stops := List.head?_dropWhile_not (· != '_') name.reverse
    rw [leadingWords, List.reverse_eq_nil_iff, List.getLast?_reverse]
    cases found : name.reverse.dropWhile (· != '_') with
    | nil => exact Or.inl rfl
    | cons c rest =>
        rw [found] at stops
        exact Or.inr (by simpa using stops)
  plain := underscore_not_mem_lastWord name

namespace IsCut

variable {text before after : List Char} (cut : IsCut text before after)
include cut

theorem passes : ∀ c ∈ after.reverse, (c != '_') = true := by
  intro c member
  rw [bne_iff_ne]
  intro same
  rw [same, List.mem_reverse] at member
  exact cut.plain member

theorem stays : before.reverse.dropWhile (· != '_') = before.reverse := by
  rcases cut.closed with empty | underscore
  · rw [empty]
    rfl
  · rw [← List.head?_reverse] at underscore
    obtain ⟨rest, reversed⟩ := List.head?_eq_some_iff.mp underscore
    rw [reversed]
    rfl

theorem leadingWords_eq : leadingWords text = before := by
  rw [leadingWords, cut.whole, List.reverse_append, List.dropWhile_append_of_pos cut.passes,
    cut.stays, List.reverse_reverse]

theorem lastWord_eq : lastWord text = after := by
  have whole := (leadingWords_append_lastWord text).trans cut.whole
  rw [cut.leadingWords_eq] at whole
  exact List.append_cancel_left whole

end IsCut

theorem isCut_singularChars (name : List Char) :
    IsCut (singularChars name) (leadingWords name) (singularWord (lastWord name)) where
  whole := rfl
  closed := (isCut name).closed
  plain := by
    intro member
    rcases mem_singularWord member with kept | added
    · exact underscore_not_mem_lastWord name kept
    · exact absurd added (by decide)

theorem singularChars_singularChars (name : List Char) :
    singularChars (singularChars name) = singularChars name := by
  have cut := isCut_singularChars name
  rw [singularChars, cut.leadingWords_eq, cut.lastWord_eq, singularWord_singularWord]
  rfl

/-- No characters but those of the endings are lost. -/
theorem mem_or_mem_ending {name : List Char} {c : Char} (member : c ∈ name) :
    c ∈ singularChars name ∨ c ∈ ['s', 'e', 'i'] := by
  have ofWord (word : List Char) (inWord : c ∈ word) :
      c ∈ singularBackwards word ∨ c ∈ ['s', 'e', 'i'] := by
    fun_cases singularBackwards word <;> grind
  rw [(isCut name).whole, List.mem_append] at member
  rw [singularChars, List.mem_append, singularWord, List.mem_reverse, or_assoc]
  exact member.imp_right fun inLast => ofWord _ (List.mem_reverse.mpr inLast)

theorem isIdentifier_singular_iff {name : String} :
    isIdentifier (singular name) = true ↔ isIdentifier name = true := by
  constructor
  · intro identifier
    rw [isIdentifier_iff, singular, String.toList_ofList, head?_singularChars] at identifier
    rw [isIdentifier_iff]
    refine ⟨identifier.1, ?_⟩
    intro c member
    rcases mem_or_mem_ending member with kept | lost
    · exact identifier.2 c kept
    · have letters : ['s', 'e', 'i'].all continuesIdentifier = true := by decide
      exact List.all_eq_true.mp letters c lost
  · exact isIdentifier_singular

/-- A singular stays as it is.  It has the text of the name up to the last underscore, a last word
if the name has one, and is an identifier if and only if the name is. -/
theorem singular_settles (name : String) :
    singular (singular name) = singular name ∧
      (∃ before word changed, IsCut name.toList before word ∧
        IsCut (singular name).toList before changed ∧ (changed = [] ↔ word = [])) ∧
      (isIdentifier (singular name) = true ↔ isIdentifier name = true) := by
  have chars : (singular name).toList = singularChars name.toList := String.toList_ofList
  refine ⟨?_, ?_, isIdentifier_singular_iff⟩
  · rw [singular, chars, singularChars_singularChars, ← singular]
  · rw [chars]
    exact ⟨_, _, _, isCut name.toList, isCut_singularChars name.toList, singularWord_eq_nil_iff⟩

end Name
end SchemaCompiler
