import Mathlib.Data.List.Basic
import Mathlib.Data.List.TakeWhile
import SchemaCompiler.Name.Inflection

/-
Singular names.

The singular of a word is the word itself, or lacks one or two characters at its end, or has a
`y` in place of three; something of the word always stays.  So the singular of a name starts
as the name does, and has no characters but those of the name and `y`.
-/

namespace SchemaCompiler
namespace Name

/-- A word and its singular, both written backwards, have in common what the ending leaves. -/
theorem singularBackwards_cases {word : List Char} (nonempty : word ≠ []) :
    ∃ dropped added stem, stem ≠ [] ∧ word = dropped ++ stem ∧
      singularBackwards word = added ++ stem ∧ (added = [] ∨ added = ['y']) := by
  fun_cases singularBackwards word
  case case2 more => exact ⟨['s', 'e', 'i'], ['y'], _, more, rfl, rfl, Or.inr rfl⟩
  case case3 | case4 | case5 | case6 | case7 | case9 =>
    exact ⟨['s', 'e'], [], _, List.cons_ne_nil _ _, rfl, rfl, Or.inl rfl⟩
  case case8 => exact ⟨['s'], [], _, List.cons_ne_nil _ _, rfl, rfl, Or.inl rfl⟩
  case case14 more => exact ⟨['s'], [], _, more, rfl, rfl, Or.inl rfl⟩
  all_goals exact ⟨[], [], _, nonempty, rfl, rfl, Or.inl rfl⟩

theorem singularWord_nil : singularWord [] = [] := rfl

theorem leadingWords_append_lastWord (name : List Char) :
    leadingWords name ++ lastWord name = name := by
  rw [leadingWords, lastWord, ← List.reverse_append, List.takeWhile_append_dropWhile,
    List.reverse_reverse]

theorem underscore_not_mem_lastWord (name : List Char) : '_' ∉ lastWord name := by
  intro member
  have kept := List.mem_takeWhile_imp (List.mem_reverse.mp member)
  exact absurd kept (by decide)

/-- A name whose last word is not empty has a part of that word in common with its singular. -/
theorem singularChars_cases {name : List Char} (ends : lastWord name ≠ []) :
    ∃ before stem dropped added, stem ≠ [] ∧ '_' ∉ stem ∧ name = before ++ stem ++ dropped ∧
      singularChars name = before ++ stem ++ added ∧ (added = [] ∨ added = ['y']) := by
  have reversed : (lastWord name).reverse ≠ [] := by
    rwa [ne_eq, List.reverse_eq_nil_iff]
  obtain ⟨dropped, added, stem, some, whole, singular, extra⟩ := singularBackwards_cases reversed
  have word : lastWord name = stem.reverse ++ dropped.reverse := by
    rw [← List.reverse_append, ← whole, List.reverse_reverse]
  refine ⟨leadingWords name, stem.reverse, dropped.reverse, added.reverse, ?_, ?_, ?_, ?_, ?_⟩
  · rwa [ne_eq, List.reverse_eq_nil_iff]
  · intro member
    exact underscore_not_mem_lastWord name (word ▸ List.mem_append_left _ member)
  · rw [List.append_assoc, ← word, leadingWords_append_lastWord]
  · rw [singularChars, singularWord, singular, List.reverse_append, List.append_assoc]
  · rcases extra with rfl | rfl
    · exact Or.inl rfl
    · exact Or.inr rfl

theorem singularChars_of_lastWord_eq_nil {name : List Char} (ends : lastWord name = []) :
    singularChars name = name := by
  have whole := leadingWords_append_lastWord name
  rw [ends] at whole
  rw [singularChars, ends, singularWord_nil, whole]

theorem mem_singularWord {word : List Char} {c : Char} (member : c ∈ singularWord word) :
    c ∈ word ∨ c = 'y' := by
  rw [singularWord, List.mem_reverse] at member
  rw [← List.mem_reverse]
  by_cases empty : word.reverse = []
  · rw [empty] at member
    cases member
  · obtain ⟨dropped, added, stem, _, whole, singular, extra⟩ := singularBackwards_cases empty
    rw [singular] at member
    rcases List.mem_append.mp member with inAdded | common
    · right
      rcases extra with rfl | rfl
      · cases inAdded
      · exact List.mem_singleton.mp inAdded
    · left
      rw [whole]
      exact List.mem_append_right dropped common

theorem mem_singularChars {name : List Char} {c : Char} (member : c ∈ singularChars name) :
    c ∈ name ∨ c = 'y' := by
  rw [← leadingWords_append_lastWord name, List.mem_append, or_assoc]
  rw [singularChars, List.mem_append] at member
  exact member.imp_right mem_singularWord

theorem head?_singularChars (name : List Char) : (singularChars name).head? = name.head? := by
  by_cases ends : lastWord name = []
  · rw [singularChars_of_lastWord_eq_nil ends]
  · obtain ⟨before, stem, dropped, added, some, _, whole, made, _⟩ := singularChars_cases ends
    have filled : before ++ stem ≠ [] := List.append_ne_nil_of_right_ne_nil before some
    rw [made, List.head?_append_of_ne_nil _ filled, whole, List.head?_append_of_ne_nil _ filled]

end Name
end SchemaCompiler
