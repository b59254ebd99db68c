import SchemaCompiler.TypeScript.Literal

/-
Texts between quotes.

A character is written between quotes as itself or as two characters, never as none.
So quoting makes a text longer, and a text of which every character is written as itself
stands between the quotes as it is.
-/

namespace SchemaCompiler
namespace TypeScript

theorem escapeChar_ne_nil (c : Char) : escapeChar c ≠ [] := by
  unfold escapeChar
  split <;> exact List.cons_ne_nil _ _

theorem length_le_length_escaped (content : List Char) :
    content.length ≤ (content.flatMap escapeChar).length := by
  induction content with
  | nil => exact Nat.le_refl 0
  | cons c rest ih =>
      have written := List.length_pos_iff.mpr (escapeChar_ne_nil c)
      rw [List.flatMap_cons, List.length_append, List.length_cons]
      omega

theorem length_lt_length_quote (content : String) : content.length < (quote content).length := by
  have escaped := length_le_length_escaped content.toList
  rw [quote, String.length_ofList, quoteChars, List.length_append, List.length_cons,
    ← String.length_toList]
  omega

theorem quote_ne_self (content : String) : quote content ≠ content := by
  intro same
  have longer := length_lt_length_quote content
  rw [same] at longer
  exact Nat.lt_irrefl _ longer

theorem escaped_of_plain {content : List Char} (plain : ∀ c ∈ content, escapeChar c = [c]) :
    content.flatMap escapeChar = content := by
  induction content with
  | nil => rfl
  | cons c rest ih =>
      have later := ih fun other member => plain other (List.mem_cons_of_mem c member)
      rw [List.flatMap_cons, plain c List.mem_cons_self, later, List.singleton_append]

/-- A text that needs no escapes stands between the quotes as it is. -/
theorem quote_of_plain {content : String} (plain : ∀ c ∈ content.toList, escapeChar c = [c]) :
    quote content = "'" ++ content ++ "'" := by
  apply String.toList_injective
  rw [quote, String.toList_ofList, quoteChars, escaped_of_plain plain, String.toList_append,
    String.toList_append]
  rfl

end TypeScript
end SchemaCompiler
