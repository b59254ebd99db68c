import SchemaCompiler.Text.Pieces
import SchemaCompiler.TypeScript.Expr
import SchemaCompiler.TypeScript.Import

/-
Files of generated code.

A file has a banner, imports and paragraphs of exported statements.  What it
exports can be read off its statements; the text is written from the same
statements.
-/

namespace SchemaCompiler
namespace TypeScript

/-- A property of an interface: its name, whether it may be left out, and its
type as written. -/
structure Property where
  /-- The name. -/
  name : String
  /-- Whether it may be left out. -/
  optional : Bool
  /-- The type. -/
  type : String
deriving DecidableEq, Repr

/-- What an interface lists. -/
inductive InterfaceItem where
  /-- A property. -/
  | property (property : Property)
  /-- An optional property whose type lists properties of its own. -/
  | nested (name : String) (properties : List Property)
deriving Repr

/-- An exported statement. -/
inductive Statement where
  /-- A constant, with its documentation and its type if they are given. -/
  | constant (documentation : Option String) (name : String) (type : Option String)
      (value : Expr)
  /-- A type by its definition. -/
  | typeAlias (name definition : String)
  /-- An interface, with its type parameters and the interface it extends. -/
  | interface (name : String) (parameters base : Option String) (items : List InterfaceItem)
  /-- Imported types that are exported again. -/
  | types (names : List String)
  /-- Everything that another file exports. -/
  | everything (source : String)
  /-- No export at all. -/
  | nothing
deriving Repr

namespace Statement

/-- The names that a statement exports by itself. -/
def exports : Statement → List String
  | constant _ name _ _ => [name]
  | typeAlias name _ => [name]
  | interface name _ _ _ => [name]
  | types names => names
  | everything _ => []
  | nothing => []

/-- The line of a property. -/
def propertyLine (indent : Nat) (property : Property) : String :=
  Text.spaces indent ++ property.name ++ (if property.optional then "?" else "") ++ ": "
    ++ property.type ++ ";\n"

/-- The lines of what an interface lists. -/
def itemLines : InterfaceItem → String
  | .property property => propertyLine 2 property
  | .nested name properties =>
      "  " ++ name ++ "?: \x7b\n" ++ Text.concat (properties.map (propertyLine 4))
        ++ "  \x7d;\n"

/-- A comment that documents what follows it. -/
def documentationComment (text : String) : String :=
  "/** " ++ text ++ " */\n"

/-- The text of a statement. -/
def render : Statement → String
  | constant documentation name type value =>
      (documentation.elim "" documentationComment) ++ "export const " ++ name
        ++ (type.elim "" fun written => ": " ++ written) ++ " = " ++ value.render 0 ++ ";\n"
  | typeAlias name definition => "export type " ++ name ++ " = " ++ definition ++ ";\n"
  | interface name parameters base items =>
      "export interface " ++ name ++ (parameters.elim "" fun written => "<" ++ written ++ ">")
        ++ (base.elim "" fun extended => " extends " ++ extended) ++ " \x7b\n"
        ++ Text.concat (items.map itemLines) ++ "\x7d\n"
  | types names => "export type \x7b " ++ Text.separated ", " names ++ " \x7d;\n"
  | everything source => "export * from '" ++ source ++ "';\n"
  | nothing => "export \x7b\x7d;\n"

end Statement

/-- A file of generated code. -/
structure Module where
  /-- The text of the comment that the file starts with. -/
  banner : String
  /-- The symbols that the file imports. -/
  imports : List Import
  /-- The statements, in paragraphs. -/
  paragraphs : List (List Statement)
deriving Repr

namespace Module

/-- The names that a file exports by itself. -/
def exports (file : Module) : List String :=
  file.paragraphs.flatten.flatMap Statement.exports

/-- A line of the banner. -/
def bannerLine (line : String) : String :=
  if line.isEmpty then "//\n" else "// " ++ line ++ "\n"

/-- The banner, with an empty line after it unless it is empty. -/
def renderBanner (banner : String) : String :=
  match Text.lines banner with
  | [] => ""
  | lines => Text.concat (lines.map bannerLine) ++ "\n"

/-- A paragraph: its statements without lines between them. -/
def renderParagraph (statements : List Statement) : String :=
  Text.concat (statements.map Statement.render)

/-- The text of a file. -/
def render (file : Module) : String :=
  renderBanner file.banner ++ Imports.render file.imports
    ++ Text.separated "\n" (file.paragraphs.map renderParagraph)

end Module

end TypeScript
end SchemaCompiler
