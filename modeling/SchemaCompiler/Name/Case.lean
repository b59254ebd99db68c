import SchemaCompiler.Text.Pieces

/-
Letter case of names.

A name is a sequence of words with underscores, hyphens or spaces between them.
`pascal` joins the words with a capital at the start of each, `camel` also
lowers the first letter, and `humanize` keeps the words apart by single spaces.
Only ASCII letters change; every other character is kept as it is.
-/

namespace SchemaCompiler
namespace Name

/-- Whether a character separates two words of a name. -/
def separatesWords (c : Char) : Bool :=
  c == '_' || c == '-' || c == ' '

/-- The non-empty words of a name. -/
def words (name : List Char) : List (List Char) :=
  (Text.split separatesWords name).filter fun word => !word.isEmpty

/-- A word with its first letter in upper case. -/
def capitalize : List Char → List Char
  | [] => []
  | c :: rest => c.toUpper :: rest

/-- A word with its first letter in lower case. -/
def uncapitalize : List Char → List Char
  | [] => []
  | c :: rest => c.toLower :: rest

/-- The characters of a name in PascalCase. -/
def pascalChars (name : List Char) : List Char :=
  (words name).flatMap capitalize

/-- The characters of a name in camelCase. -/
def camelChars (name : List Char) : List Char :=
  uncapitalize (pascalChars name)

/-- A name in PascalCase: `booking_items` becomes `BookingItems`. -/
def pascal (name : String) : String :=
  String.ofList (pascalChars name.toList)

/-- A name in camelCase: `booking_items` becomes `bookingItems`. -/
def camel (name : String) : String :=
  String.ofList (camelChars name.toList)

/-- A name as a display label: `in_progress` becomes `In Progress`. -/
def humanize (name : String) : String :=
  String.ofList (List.intercalate [' '] ((words name.toList).map capitalize))

example : pascal "booking__items-x" = "BookingItemsX" := by decide
example : camel "_Über_name" = "ÜberName" := by decide
example : humanize "in_progress" = "In Progress" := by decide

end Name
end SchemaCompiler
