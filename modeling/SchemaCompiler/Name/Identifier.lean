/-
Plain identifiers.

A name is an identifier when it starts with an ASCII letter or an underscore
and goes on with ASCII letters, digits and underscores.  The members of an
enumeration may use hyphens after their first character as well.
-/

namespace SchemaCompiler
namespace Name

/-- Whether a character may start an identifier. -/
def startsIdentifier (c : Char) : Bool :=
  c.isAlpha || c == '_'

/-- Whether a character may stand inside an identifier. -/
def continuesIdentifier (c : Char) : Bool :=
  c.isAlphanum || c == '_'

/-- Whether a character may stand inside a member of an enumeration. -/
def continuesMember (c : Char) : Bool :=
  continuesIdentifier c || c == '-'

/-- Whether the characters start as an identifier does and go on as `continues`
allows. -/
def spells (continues : Char → Bool) : List Char → Bool
  | [] => false
  | c :: rest => startsIdentifier c && rest.all continues

/-- Whether a name is a plain identifier. -/
def isIdentifier (name : String) : Bool :=
  spells continuesIdentifier name.toList

/-- Whether a text is safe as a member of an enumeration. -/
def isEnumMember (text : String) : Bool :=
  spells continuesMember text.toList

example : isIdentifier "_a1" = true := by decide
example : isIdentifier "in-progress" = false := by decide
example : isEnumMember "in-progress" = true := by decide
example : isEnumMember "" = false := by decide

end Name
end SchemaCompiler
