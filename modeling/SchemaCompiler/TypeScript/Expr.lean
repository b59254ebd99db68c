import SchemaCompiler.Text.Joined
import SchemaCompiler.TypeScript.Literal

/-
Expressions of generated code.

An expression keeps what later checks look at: the constants it names, the
members it reads of them, and the keys of the objects it writes.  Layout is part
of an expression too.  A list or an object is written in one line or as a block,
one entry a line, and a method call may stand on a line of its own.
-/

namespace SchemaCompiler
namespace TypeScript

/-- An entry of an object that is written as a block. -/
inductive Entry (α : Type) where
  /-- A field. -/
  | field (key : String) (value : α)
  /-- A comment line. -/
  | remark (text : String)
deriving Repr

/-- An expression. -/
inductive Expr where
  /-- Source text that nothing looks into. -/
  | verbatim (source : String)
  /-- A constant. -/
  | name (constant : String)
  /-- A string literal. -/
  | string (content : String)
  /-- The expression for a JSON value. -/
  | json (value : Json.Value)
  /-- A member of what an expression denotes. -/
  | member (owner : Expr) (property : String)
  /-- A call. -/
  | call (callee : Expr) (arguments : List Expr)
  /-- A method call on a line of its own. -/
  | callBelow (owner : Expr) (method : String) (arguments : List Expr)
  /-- A function, by its parameters as written and its result. -/
  | arrow (parameters : String) (result : Expr)
  /-- An expression in parentheses. -/
  | grouped (inner : Expr)
  /-- An expression whose literals are constants. -/
  | asConst (inner : Expr)
  /-- A list in one line. -/
  | list (items : List Expr)
  /-- An object in one line. -/
  | object (fields : List (String × Expr))
  /-- A list as a block. -/
  | listBlock (items : List Expr)
  /-- An object as a block. -/
  | objectBlock (entries : List (Entry Expr))
deriving Repr

mutual

/-- The text of an expression that starts in a line indented by `indent`. -/
def Expr.render (indent : Nat) : Expr → String
  | .verbatim source => source
  | .name constant => constant
  | .string content => quote content
  | .json v => value v
  | .member owner property => owner.render indent ++ "." ++ property
  | .call callee arguments =>
      callee.render indent ++ "(" ++ renderItems indent arguments ++ ")"
  | .callBelow owner method arguments =>
      owner.render indent ++ "\n" ++ Text.spaces (indent + 2) ++ "." ++ method ++ "("
        ++ renderItems (indent + 2) arguments ++ ")"
  | .arrow parameters result => parameters ++ " => " ++ result.render indent
  | .grouped inner => "(" ++ inner.render indent ++ ")"
  | .asConst inner => inner.render indent ++ " as const"
  | .list items => "[" ++ renderItems indent items ++ "]"
  | .object [] => "\x7b\x7d"
  | .object (field :: fields) =>
      "\x7b " ++ renderFields indent (field :: fields) ++ " \x7d"
  | .listBlock items =>
      "[\n" ++ renderLines (indent + 2) items ++ Text.spaces indent ++ "]"
  | .objectBlock entries =>
      "\x7b\n" ++ renderEntries (indent + 2) entries ++ Text.spaces indent ++ "\x7d"

/-- Expressions in one line, with commas between them. -/
def renderItems (indent : Nat) : List Expr → String
  | [] => ""
  | [item] => item.render indent
  | item :: rest => item.render indent ++ ", " ++ renderItems indent rest

/-- Fields in one line, with commas between them. -/
def renderFields (indent : Nat) : List (String × Expr) → String
  | [] => ""
  | [(key, e)] => key ++ ": " ++ e.render indent
  | (key, e) :: rest => key ++ ": " ++ e.render indent ++ ", " ++ renderFields indent rest

/-- Expressions one a line, with a comma after each. -/
def renderLines (indent : Nat) : List Expr → String
  | [] => ""
  | item :: rest =>
      Text.spaces indent ++ item.render indent ++ ",\n" ++ renderLines indent rest

/-- Entries one a line, with a comma after each field. -/
def renderEntries (indent : Nat) : List (Entry Expr) → String
  | [] => ""
  | .field key e :: rest =>
      Text.spaces indent ++ key ++ ": " ++ e.render indent ++ ",\n"
        ++ renderEntries indent rest
  | .remark text :: rest =>
      Text.spaces indent ++ "// " ++ text ++ "\n" ++ renderEntries indent rest

end

namespace Expr

/-- A call of a function by its name. -/
def apply (function : String) (arguments : List Expr) : Expr :=
  .call (.name function) arguments

/-- A call of a method. -/
def method (owner : Expr) (name : String) (arguments : List Expr) : Expr :=
  .call (.member owner name) arguments

/-- A member of a constant. -/
def access (constant property : String) : Expr :=
  .member (.name constant) property

end Expr

end TypeScript
end SchemaCompiler
