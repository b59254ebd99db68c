import SchemaCompiler.TypeScript.Literal

/-
String literals, read back.

A literal ends at the first quote that is not escaped.  Whether a character is escaped
depends on the one before it alone, so a literal can be read character by character, and
what follows its closing quote is never looked at.  The writer escapes every character that
would end the literal or would start an escape, so what it writes is read as it was given.
-/

namespace SchemaCompiler
namespace TypeScript

/-- The character that an escape stands for. -/
def escaped? : Char → Option Char
  | '\\' => some '\\'
  | '\'' => some '\''
  | 'n' => some '\n'
  | 'r' => some '\r'
  | 't' => some '\t'
  | _ => none

/-- The content of a string literal after its opening quote, and what follows the literal.
`escaped` says whether a backslash that is not itself escaped comes right before.  The end
of a line breaks a literal off. -/
def readQuoted? (escaped : Bool) : List Char → Option (List Char × List Char)
  | [] => none
  | c :: rest =>
      if escaped then
        (escaped? c).bind fun meant =>
          (readQuoted? false rest).map fun read => (meant :: read.1, read.2)
      else if c = '\'' then some ([], rest)
      else if c = '\\' then readQuoted? true rest
      else if c = '\n' ∨ c = '\r' then none
      else (readQuoted? false rest).map fun read => (c :: read.1, read.2)

/-- The content of the string literal that comes first, and what follows it. -/
def readStringChars? : List Char → Option (List Char × List Char)
  | [] => none
  | c :: rest => if c = '\'' then readQuoted? false rest else none

/-- The content of the string literal that a text starts with, and what follows it. -/
def readString? (text : String) : Option (String × String) :=
  (readStringChars? text.toList).map fun read => (String.ofList read.1, String.ofList read.2)

/-- A text starts with a literal that has a content and leaves a rest, and with no other
literal, be it shorter or longer. -/
structure StartsWithString (text literal content rest : String) : Prop where
  whole : text = literal ++ rest
  read : readString? text = some (content, rest)
  only (other meant after : String) : readString? other = some (meant, "") →
    text = other ++ after → other = literal ∧ meant = content ∧ after = rest

theorem readQuoted?_escapeChar (c : Char) (rest : List Char) :
    readQuoted? false (escapeChar c ++ rest) =
      (readQuoted? false rest).map fun read => (c :: read.1, read.2) := by
  unfold escapeChar
  split
  case h_6 notBackslash notQuote notFeed notReturn notTab =>
    have sameLine : ¬(c = '\n' ∨ c = '\r') := by
      rintro (feed | return_)
      · exact notFeed feed
      · exact notReturn return_
    rw [List.singleton_append, readQuoted?, if_neg Bool.false_ne_true, if_neg notQuote,
      if_neg notBackslash, if_neg sameLine]
  all_goals rfl

theorem readQuoted?_escaped (content rest : List Char) :
    readQuoted? false (content.flatMap escapeChar ++ '\'' :: rest) = some (content, rest) := by
  induction content with
  | nil => rfl
  | cons c content ih =>
      rw [List.flatMap_cons, List.append_assoc, readQuoted?_escapeChar, ih, Option.map_some]

theorem quoteChars_append (content rest : List Char) :
    quoteChars content ++ rest = '\'' :: (content.flatMap escapeChar ++ '\'' :: rest) := by
  rw [quoteChars, List.cons_append, List.cons_append, List.append_assoc, List.singleton_append]

theorem readStringChars?_quoteChars (content rest : List Char) :
    readStringChars? (quoteChars content ++ rest) = some (content, rest) := by
  rw [quoteChars_append, readStringChars?, if_pos rfl, readQuoted?_escaped]

/-- What follows a literal is not looked at. -/
theorem readQuoted?_append {escaped : Bool} {text content rest : List Char}
    (read : readQuoted? escaped text = some (content, rest)) (more : List Char) :
    readQuoted? escaped (text ++ more) = some (content, rest ++ more) := by
  induction text generalizing escaped content with
  | nil => cases read
  | cons c text ih =>
      have later {meant : Char}
          (read : (readQuoted? false text).map (fun read => (meant :: read.1, read.2)) =
            some (content, rest)) :
          (readQuoted? false (text ++ more)).map (fun read => (meant :: read.1, read.2)) =
            some (content, rest ++ more) := by
        obtain ⟨⟨inner, after⟩, found, same⟩ := Option.map_eq_some_iff.mp read
        obtain ⟨rfl, rfl⟩ := Prod.mk.inj same
        rw [ih found, Option.map_some]
      rw [readQuoted?] at read
      rw [List.cons_append, readQuoted?]
      by_cases isEscaped : escaped = true
      · rw [if_pos isEscaped] at read ⊢
        obtain ⟨meant, means, found⟩ := Option.bind_eq_some_iff.mp read
        rw [means, Option.bind_some, later found]
      rw [if_neg isEscaped] at read ⊢
      by_cases quote : c = '\''
      · rw [if_pos quote] at read ⊢
        obtain ⟨rfl, rfl⟩ := Prod.mk.inj (Option.some.inj read)
        rfl
      rw [if_neg quote] at read ⊢
      by_cases backslash : c = '\\'
      · rw [if_pos backslash] at read ⊢
        exact ih read
      rw [if_neg backslash] at read ⊢
      by_cases ends : c = '\n' ∨ c = '\r'
      · rw [if_pos ends] at read
        cases read
      · rw [if_neg ends] at read ⊢
        exact later read

theorem readStringChars?_append {text content rest : List Char}
    (read : readStringChars? text = some (content, rest)) (more : List Char) :
    readStringChars? (text ++ more) = some (content, rest ++ more) := by
  cases text with
  | nil => cases read
  | cons c text =>
      rw [readStringChars?] at read
      rw [List.cons_append, readStringChars?]
      by_cases opens : c = '\''
      · rw [if_pos opens] at read ⊢
        exact readQuoted?_append read more
      · rw [if_neg opens] at read
        cases read

theorem readString?_append {text content rest : String}
    (read : readString? text = some (content, rest)) (more : String) :
    readString? (text ++ more) = some (content, rest ++ more) := by
  obtain ⟨⟨inner, after⟩, found, same⟩ := Option.map_eq_some_iff.mp read
  obtain ⟨rfl, rfl⟩ := Prod.mk.inj same
  rw [readString?, String.toList_append, readStringChars?_append found, Option.map_some,
    String.ofList_append, String.ofList_toList]

theorem readString?_quote (content rest : String) :
    readString? (quote content ++ rest) = some (content, rest) := by
  rw [readString?, String.toList_append, quote, String.toList_ofList, readStringChars?_quoteChars,
    Option.map_some, String.ofList_toList, String.ofList_toList]

/-- A written string is read back wherever it stands at the start of a text. -/
theorem starts_with_quote (content rest : String) :
    StartsWithString (quote content ++ rest) (quote content) content rest where
  whole := rfl
  read := readString?_quote content rest
  only other meant after read whole := by
    have same := readString?_quote content rest
    rw [whole, readString?_append read, String.empty_append] at same
    obtain ⟨rfl, rfl⟩ := Prod.mk.inj (Option.some.inj same)
    exact ⟨(String.append_left_inj after).mp whole.symm, rfl, rfl⟩

example : readString? "'it\\'s' // 'x'" = some ("it's", " // 'x'") := by decide
example : readString? "'a\nb'" = none := by decide

end TypeScript
end SchemaCompiler
