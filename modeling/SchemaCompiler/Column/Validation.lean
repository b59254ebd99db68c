import SchemaCompiler.Name.Derived
import SchemaCompiler.Table.Basic
import SchemaCompiler.TypeScript.Expr

/-
Columns as input is validated.

A column becomes a base check and a chain of refinements, always in the order
e-mail, web address, lower bound, upper bound, pattern, default, and then at most
one of nullable and optional.
-/

namespace SchemaCompiler

open TypeScript (Expr)

/-- The base check of a validation chain. -/
inductive ValidationBase where
  /-- Text. -/
  | string
  /-- A whole number. -/
  | integer
  /-- A decimal number as text. -/
  | decimal
  /-- A truth value. -/
  | boolean
  /-- A date. -/
  | date
  /-- Latitude and longitude as text. -/
  | geographic
  /-- A member of an enumeration, by its schema. -/
  | enumeration (schema : String)
deriving DecidableEq, Repr

namespace ValidationBase

/-- The pattern of decimal numbers: an optional sign, digits, and an optional
fraction. -/
def decimalPattern : String := "^-?\\d+(\\.\\d+)?$"

/-- The pattern of latitude and longitude: two decimal numbers with a comma
between them. -/
def geographicPattern : String := "^-?\\d+(\\.\\d+)?,\\s*-?\\d+(\\.\\d+)?$"

/-- The check for text that matches a pattern. -/
def patternExpr (pattern : String) : Expr :=
  ((Expr.name "z").method "string" []).method "regex" [.verbatim (TypeScript.regex pattern)]

/-- The expression of a base check. -/
def expr : ValidationBase → Expr
  | string => (Expr.name "z").method "string" []
  | integer => ((Expr.name "z").method "number" []).method "int" []
  | decimal => patternExpr decimalPattern
  | boolean => (Expr.name "z").method "boolean" []
  | date => (Expr.access "z" "coerce").method "date" []
  | geographic => patternExpr geographicPattern
  | enumeration schema => .name schema

/-- Whether the check is one of text. -/
def isTextual : ValidationBase → Bool
  | string | decimal | geographic => true
  | _ => false

/-- The schema of the enumeration that is checked against. -/
def enumSchema? : ValidationBase → Option String
  | enumeration schema => some schema
  | _ => none

end ValidationBase

/-- A link of a validation chain after the base check.  Numbers are kept by their
written forms. -/
inductive Refinement where
  /-- An e-mail address. -/
  | email
  /-- A web address. -/
  | url
  /-- At least a number, or a number of characters. -/
  | min (bound : String)
  /-- At most a number, or a number of characters. -/
  | max (bound : String)
  /-- A decimal number, as text, that is at least a number. -/
  | atLeast (bound : String)
  /-- A decimal number, as text, that is at most a number. -/
  | atMost (bound : String)
  /-- A pattern. -/
  | regex (pattern : String)
  /-- A default, by its literal. -/
  | fallback (literal : String)
  /-- Null is accepted. -/
  | nullable
  /-- The input may be left out. -/
  | optional
deriving DecidableEq, Repr

namespace Refinement

/-- The check of a decimal number against a bound. -/
def comparison (operator bound wording : String) : List Expr :=
  [.verbatim ("(value) => Number(value) " ++ operator ++ " " ++ bound),
    .object [("message", .string (wording ++ bound))]]

/-- Adds a refinement to an expression. -/
def onto (owner : Expr) : Refinement → Expr
  | email => owner.method "email" []
  | url => owner.method "url" []
  | min bound => owner.method "min" [.verbatim bound]
  | max bound => owner.method "max" [.verbatim bound]
  | atLeast bound => owner.method "refine" (comparison ">=" bound "Must be at least ")
  | atMost bound => owner.method "refine" (comparison "<=" bound "Must be at most ")
  | regex pattern => owner.method "regex" [.verbatim (TypeScript.regex pattern)]
  | fallback literal => owner.method "default" [.verbatim literal]
  | nullable => owner.method "nullable" []
  | optional => owner.method "optional" []

end Refinement

/-- A validation chain. -/
structure ValidationChain where
  /-- The base check. -/
  base : ValidationBase
  /-- The refinements, in order. -/
  refinements : List Refinement
deriving DecidableEq, Repr

namespace ValidationChain

/-- The expression of a chain. -/
def expr (chain : ValidationChain) : Expr :=
  chain.refinements.foldl Refinement.onto chain.base.expr

/-- The text of a chain. -/
def render (chain : ValidationChain) : String :=
  chain.expr.render 0

/-- Whether the chain ends by accepting null. -/
def isNullable (chain : ValidationChain) : Bool :=
  chain.refinements.getLast? == some .nullable

/-- Whether the chain ends by allowing the input to be left out. -/
def isOptional (chain : ValidationChain) : Bool :=
  chain.refinements.getLast? == some .optional

end ValidationChain

namespace Column

/-- The base check of a column.  A tag that means no enumeration is text. -/
def validationBase (column : Column) (enumerations : List Enumeration) : ValidationBase :=
  match column.type with
  | .shortText | .longText => .string
  | .autoIncrement | .integer => .integer
  | .decimal => .decimal
  | .boolean => .boolean
  | .date | .dateTime => .date
  | .geographic => .geographic
  | .named tag =>
      match Enumeration.ofTag? tag enumerations with
      | some enumeration => .enumeration (EnumNames.ofEnumeration enumeration).schemaConst
      | none => .string

/-- The refinements of format, which only plain text takes. -/
def formatRefinements (column : Column) : List Refinement :=
  if column.type.isText then
    (if column.rules.email then [.email] else [])
      ++ if column.rules.url then [.url] else []
  else
    []

/-- The bounds: of the number, of the decimal, or of the length of plain text, for
which the length of the column stands in as greatest length. -/
def boundRefinements (column : Column) (base : ValidationBase) : List Refinement :=
  let numbers (low high : String → Refinement) : List Refinement :=
    (column.rules.min.toList.map fun x => low (TypeScript.bound x))
      ++ column.rules.max.toList.map fun x => high (TypeScript.bound x)
  if base = .integer then numbers .min .max
  else if base = .decimal then numbers .atLeast .atMost
  else if column.type.isText then
    (column.rules.minLength.toList.map fun n => .min (Decimal.natText n))
      ++ (column.rules.maxLength.or column.length).toList.map fun n =>
        .max (Decimal.natText n)
  else
    []

/-- The pattern, which only checks of text take. -/
def patternRefinement (column : Column) (base : ValidationBase) : List Refinement :=
  if base.isTextual then column.rules.pattern.toList.map .regex else []

/-- The literal of a default under a base check.  The time of insertion has
none. -/
def validationLiteral? (base : ValidationBase) : DefaultValue → Option String
  | .currentTimestamp => none
  | .bool value =>
      let written := if value then "true" else "false"
      some (if base = .boolean then written else TypeScript.quote written)
  | .number written => some (if base = .integer then written else TypeScript.quote written)
  | .text value =>
      let literal := TypeScript.quote value
      some (if base = .date then "new Date(" ++ literal ++ ")" else literal)

/-- The default. -/
def defaultRefinement (column : Column) (base : ValidationBase) : List Refinement :=
  ((column.fallback.bind (validationLiteral? base)).map Refinement.fallback).toList

/-- The last refinement.  Nullable comes before optional, which takes a column
that is not required and has no default. -/
def presenceRefinement (column : Column) : List Refinement :=
  if column.isNullable then [.nullable]
  else if !column.isRequired && !column.hasDefault then [.optional]
  else []

/-- The validation chain of a column. -/
def validation (column : Column) (enumerations : List Enumeration) : ValidationChain :=
  let base := column.validationBase enumerations
  { base := base
    refinements :=
      column.formatRefinements ++ column.boundRefinements base
        ++ column.patternRefinement base ++ column.defaultRefinement base
        ++ column.presenceRefinement }

end Column

end SchemaCompiler
