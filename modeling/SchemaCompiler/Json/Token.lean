import SchemaCompiler.Json.Number

/-
Tokens of JSON text.

A text is cut by a machine that takes one character at a time.  Marks stand for
themselves, a string ends at its closing quote, and every other run of
characters is a word, which is a keyword or a number literal or nothing.

A string may name half of a surrogate pair by an escape.  Such a string has no
content, which matters only to those who read it: text that is skipped may hold
one.
-/

namespace SchemaCompiler
namespace Json

/-- A mark of the grammar. -/
inductive Mark where
  /-- An opening bracket. -/
  | openArray
  /-- A closing bracket. -/
  | closeArray
  /-- An opening brace. -/
  | openObject
  /-- A closing brace. -/
  | closeObject
  /-- A colon. -/
  | colon
  /-- A comma. -/
  | comma
deriving DecidableEq, Repr

/-- A value that holds no other value. -/
inductive Scalar where
  /-- The keyword `null`. -/
  | null
  /-- The keyword `true` or `false`. -/
  | bool (value : Bool)
  /-- A number literal. -/
  | number (literal : NumberLiteral)
  /-- A string; it has no content when it names an unpaired surrogate. -/
  | text (content : Option String)
deriving DecidableEq, Repr

/-- A token. -/
inductive Token where
  /-- A mark. -/
  | mark (mark : Mark)
  /-- A scalar. -/
  | scalar (scalar : Scalar)
deriving DecidableEq, Repr

/-- The content of a string as far as it is read. -/
structure Quoted where
  /-- The characters, the last one first. -/
  reversed : List Char
  /-- A leading surrogate that waits for its trailing one. -/
  leading : Option Nat
  /-- Whether every surrogate before has its partner. -/
  paired : Bool
deriving DecidableEq, Repr

namespace Quoted

/-- The content of a string at its opening quote. -/
def empty : Quoted := ⟨[], none, true⟩

/-- Adds a character. -/
def push (body : Quoted) (c : Char) : Quoted :=
  ⟨c :: body.reversed, none, body.paired && body.leading.isNone⟩

/-- Adds a sixteen-bit unit that an escape names. -/
def pushUnit (body : Quoted) (unit : Nat) : Quoted :=
  if 0xD800 ≤ unit ∧ unit < 0xDC00 then
    { body with leading := some unit, paired := body.paired && body.leading.isNone }
  else if 0xDC00 ≤ unit ∧ unit < 0xE000 then
    match body.leading with
    | some leading =>
        let scalar := 0x10000 + (leading - 0xD800) * 0x400 + (unit - 0xDC00)
        { body with reversed := Char.ofNat scalar :: body.reversed, leading := none }
    | none => { body with paired := false }
  else
    body.push (Char.ofNat unit)

/-- The content of a string at its closing quote. -/
def close (body : Quoted) : Option String :=
  if body.paired && body.leading.isNone then some (String.ofList body.reversed.reverse)
  else none

end Quoted

/-- Where the machine stands. -/
inductive Place where
  /-- Between tokens. -/
  | between
  /-- Inside a word, whose characters come last first. -/
  | word (reversed : List Char)
  /-- Inside a string. -/
  | text (body : Quoted)
  /-- After a backslash. -/
  | escape (body : Quoted)
  /-- After `count` digits of a unit, which stand for `unit`. -/
  | unit (body : Quoted) (count unit : Nat)
deriving DecidableEq, Repr

/-- The mark that a character is. -/
def markOf? : Char → Option Mark
  | '[' => some .openArray
  | ']' => some .closeArray
  | '\x7b' => some .openObject
  | '\x7d' => some .closeObject
  | ':' => some .colon
  | ',' => some .comma
  | _ => none

/-- Whether a character may stand between tokens. -/
def isSpace (c : Char) : Bool :=
  c == ' ' || c == '\t' || c == '\n' || c == '\r'

/-- The character that a one-letter escape stands for. -/
def escaped? : Char → Option Char
  | '"' => some '"'
  | '\\' => some '\\'
  | '/' => some '/'
  | 'b' => some '\x08'
  | 'f' => some '\x0c'
  | 'n' => some '\n'
  | 'r' => some '\r'
  | 't' => some '\t'
  | _ => none

/-- The value of a hexadecimal digit. -/
def hexDigit? (c : Char) : Option Nat :=
  if '0' ≤ c ∧ c ≤ '9' then some (c.toNat - '0'.toNat)
  else if 'a' ≤ c ∧ c ≤ 'f' then some (c.toNat - 'a'.toNat + 10)
  else if 'A' ≤ c ∧ c ≤ 'F' then some (c.toNat - 'A'.toNat + 10)
  else none

/-- The scalar that a word stands for. -/
def wordScalar? (word : List Char) : Option Scalar :=
  if word = ['n', 'u', 'l', 'l'] then some .null
  else if word = ['t', 'r', 'u', 'e'] then some (.bool true)
  else if word = ['f', 'a', 'l', 's', 'e'] then some (.bool false)
  else (NumberLiteral.read? word).map .number

/-- Where the machine goes from between tokens, and the token it finds there. -/
def stepBetween (c : Char) : Place × List Token :=
  if isSpace c then (.between, [])
  else if c = '"' then (.text .empty, [])
  else
    match markOf? c with
    | some mark => (.between, [.mark mark])
    | none => (.word [c], [])

/-- One step of the machine: its next place, and the tokens it completes. -/
def stepToken (c : Char) : Place → Option (Place × List Token)
  | .between => some (stepBetween c)
  | .word reversed =>
      if isSpace c || c == '"' || (markOf? c).isSome then
        (wordScalar? reversed.reverse).map fun scalar =>
          ((stepBetween c).1, .scalar scalar :: (stepBetween c).2)
      else
        some (.word (c :: reversed), [])
  | .text body =>
      if c = '"' then some (.between, [.scalar (.text body.close)])
      else if c = '\\' then some (.escape body, [])
      else if c.toNat < 0x20 then none
      else some (.text (body.push c), [])
  | .escape body =>
      if c = 'u' then some (.unit body 0 0, [])
      else (escaped? c).map fun plain => (.text (body.push plain), [])
  | .unit body count unit =>
      (hexDigit? c).map fun digit =>
        if count = 3 then (.text (body.pushUnit (16 * unit + digit)), [])
        else (.unit body (count + 1) (16 * unit + digit), [])

/-- The tokens that the end of the text completes. -/
def endTokens? : Place → Option (List Token)
  | .between => some []
  | .word reversed => (wordScalar? reversed.reverse).map fun scalar => [.scalar scalar]
  | _ => none

/-- The tokens of the remaining characters, after those in `done`, which come
last first. -/
def tokensFrom? (place : Place) (done : List Token) : List Char → Option (List Token)
  | [] => (endTokens? place).map fun last => done.reverse ++ last
  | c :: rest =>
      match stepToken c place with
      | none => none
      | some (next, found) => tokensFrom? next (found.reverse ++ done) rest

/-- The tokens of a text, if it has no fault within a token. -/
def tokens? (text : String) : Option (List Token) :=
  tokensFrom? .between [] text.toList

end Json
end SchemaCompiler
