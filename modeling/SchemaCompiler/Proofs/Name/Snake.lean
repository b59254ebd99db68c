import SchemaCompiler.Proofs.Name.Case

/-
Names in snake_case.

The words of such a name start with a lower-case letter and go on with lower-case letters and
digits, and single underscores stand between them.  PascalCase marks where each of the words
starts, so the name can be read back from it.  Hence no two names in snake_case have one
camelCase, which names of other kinds may have.
-/

namespace SchemaCompiler
namespace Name

def isSnakeWord : List Char → Bool
  | [] => false
  | c :: rest => c.isLower && rest.all fun c => c.isLower || c.isDigit

/-- Whether a name is in snake_case. -/
def isSnake (name : String) : Bool :=
  (name.toList.splitOn '_').all isSnakeWord

/-- Capitals in lower case again, with an underscore before each. -/
def lowered (chars : List Char) : List Char :=
  chars.flatMap fun c => if c.isUpper then ['_', c.toLower] else [c]

theorem isAlphanum_of_mem_word {word : List Char} (snake : isSnakeWord word = true) :
    ∀ c ∈ word, c.isAlphanum = true := by
  cases word with
  | nil => exact nofun
  | cons first rest =>
      simp only [isSnakeWord, Bool.and_eq_true, List.all_eq_true, Bool.or_eq_true] at snake
      rw [List.forall_mem_cons]
      constructor
      · rw [Char.isAlphanum, isAlpha_of_isLower snake.1, Bool.true_or]
      · intro c member
        rcases snake.2 c member with lower | digit
        · rw [Char.isAlphanum, isAlpha_of_isLower lower, Bool.true_or]
        · exact isAlphanum_of_isDigit digit

theorem lowered_of_no_capital {chars : List Char} (small : ∀ c ∈ chars, c.isUpper = false) :
    lowered chars = chars := by
  induction chars with
  | nil => rfl
  | cons c rest ih =>
      rw [List.forall_mem_cons] at small
      rw [lowered, List.flatMap_cons, small.1, if_neg Bool.false_ne_true, ← lowered,
        ih small.2, List.singleton_append]

theorem lowered_capitalize {word : List Char} (snake : isSnakeWord word = true) :
    lowered (capitalize word) = '_' :: word := by
  cases word with
  | nil => cases snake
  | cons first rest =>
      simp only [isSnakeWord, Bool.and_eq_true, List.all_eq_true, Bool.or_eq_true] at snake
      have small : ∀ c ∈ rest, c.isUpper = false := by
        intro c member
        rcases snake.2 c member with lower | digit
        · exact Bool.eq_false_iff.mpr (Char.not_isUpper_of_isLower lower)
        · exact (caseless_of_isDigit digit).1
      have raised : first.toUpper.isUpper = true := by
        rw [Char.isUpper_toUpper_eq_isAlpha, isAlpha_of_isLower snake.1]
      have back : first.toUpper.toLower = first := by
        rw [Char.toLower_toUpper_eq_toLower, Char.toLower_eq_of_not_isUpper
          (Char.not_isUpper_of_isLower snake.1)]
      rw [capitalize, lowered, List.flatMap_cons, raised, if_pos rfl, back, ← lowered,
        lowered_of_no_capital small]
      rfl

theorem words_intercalate {separate : List (List Char)}
    (snake : ∀ word ∈ separate, isSnakeWord word = true) :
    words (['_'].intercalate separate) = separate := by
  induction separate with
  | nil => rfl
  | cons word rest ih =>
      rw [List.forall_mem_cons] at snake
      have nonempty : word ≠ [] := by
        rintro rfl
        cases snake.1
      have single : words word = [word] := by
        apply words_of_none_separates nonempty
        intro c member
        exact separatesWords_of_isAlphanum (isAlphanum_of_mem_word snake.1 c member)
      cases rest with
      | nil => simpa [List.intercalate] using single
      | cons next others =>
          have apart : ['_'].intercalate (word :: next :: others) =
              word ++ '_' :: ['_'].intercalate (next :: others) := by
            simp [List.intercalate]
          rw [apart, words_append_of_separates (by decide), single, ih snake.2]
          rfl

theorem underscore_intercalate {separate : List (List Char)} (some : separate ≠ []) :
    '_' :: ['_'].intercalate separate = separate.flatMap ('_' :: ·) := by
  induction separate with
  | nil => exact absurd rfl some
  | cons word rest ih =>
      cases rest with
      | nil => simp [List.intercalate]
      | cons next others =>
          rw [List.flatMap_cons, ← ih (List.cons_ne_nil next others)]
          simp [List.intercalate]

/-- A name in snake_case can be read back from its PascalCase. -/
theorem lowered_pascalChars {name : String} (snake : isSnake name = true) :
    lowered (pascalChars name.toList) = '_' :: name.toList := by
  have eachWord : ∀ word ∈ name.toList.splitOn '_', isSnakeWord word = true :=
    List.all_eq_true.mp snake
  have whole : ['_'].intercalate (name.toList.splitOn '_') = name.toList :=
    List.intercalate_splitOn '_'
  have some : name.toList.splitOn '_' ≠ [] := List.splitOnP_ne_nil _ _
  calc
    lowered (pascalChars name.toList)
      = lowered ((name.toList.splitOn '_').flatMap capitalize) := by
        rw [pascalChars, ← words_intercalate eachWord, whole]
    _ = (name.toList.splitOn '_').flatMap fun word => lowered (capitalize word) := by
        rw [lowered, List.flatMap_assoc]
        rfl
    _ = (name.toList.splitOn '_').flatMap ('_' :: ·) :=
        List.flatMap_congr fun word member => lowered_capitalize (eachWord word member)
    _ = '_' :: name.toList := by
        rw [← underscore_intercalate some, whole]

example : lowered (pascalChars "booking_items".toList) = "_booking_items".toList := by decide

theorem camel_injective_of_snake {left right : String} (leftSnake : isSnake left = true)
    (rightSnake : isSnake right = true) (same : camel left = camel right) : left = right := by
  have pascal : pascalChars left.toList = pascalChars right.toList :=
    String.ofList_injective (pascal_eq_of_camel_eq same)
  have chars : '_' :: left.toList = '_' :: right.toList := by
    rw [← lowered_pascalChars leftSnake, pascal, lowered_pascalChars rightSnake]
  exact String.toList_injective (List.cons.inj chars).2

end Name
end SchemaCompiler
