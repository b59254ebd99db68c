/-
What is wrong with a descriptor.

An error names the file or directory it was found in.  It is one of three kinds:
the file cannot be read, its text is not what a descriptor may hold, or the
schema it describes breaks a rule.
-/

namespace SchemaCompiler
namespace Descriptor

/-- A rule that a described schema breaks. -/
inductive Breach where
  /-- The directory of table descriptors does not exist. -/
  | missingDirectory
  /-- Two enumerations have one name. -/
  | repeatedEnum (name : String)
  /-- Two tables have one name. -/
  | repeatedTable (name : String)
  /-- A file of enumerations holds something other than an object. -/
  | enumFileShape
  /-- The name of an enumeration is no identifier. -/
  | enumName (name : String)
  /-- An enumeration has no members. -/
  | enumEmpty (name : String)
  /-- A member of an enumeration cannot be written as one. -/
  | enumMember (name value : String)
  /-- A member of an enumeration occurs twice. -/
  | enumRepeats (name value : String)
  /-- The name of a table is no identifier. -/
  | tableName (name : String)
  /-- The name of a column is no identifier. -/
  | columnName (name : String)
  /-- The default of a column is an array or an object. -/
  | defaultShape (column : String)
  /-- A policy for deletions is unknown. -/
  | deletePolicy (column spelling : String)
  /-- An index has no columns. -/
  | indexEmpty (name : String)
  /-- The name of a relationship is no identifier. -/
  | relationshipName (name : String)
  /-- The kind of a relationship is unknown. -/
  | relationshipKind (name spelling : String)
  /-- A many-to-many relationship has no table between its two sides. -/
  | throughMissing (name : String)
  /-- The direction of a sort is unknown. -/
  | sortDirection (spelling : String)
deriving DecidableEq, Repr

/-- The wording of a breach. -/
def Breach.message : Breach → String
  | missingDirectory => "descriptor directory not found"
  | repeatedEnum name => "duplicate enum name '" ++ name ++ "'"
  | repeatedTable name => "duplicate table name '" ++ name ++ "'"
  | enumFileShape => "enum descriptor must be a JSON object"
  | enumName name => "enum name '" ++ name ++ "' is not an identifier"
  | enumEmpty name => "enum '" ++ name ++ "' has no values"
  | enumMember name value =>
      "enum '" ++ name ++ "' value '" ++ value ++ "' is not identifier-safe"
  | enumRepeats name value => "enum '" ++ name ++ "' repeats value '" ++ value ++ "'"
  | tableName name => "table name '" ++ name ++ "' is not an identifier"
  | columnName name => "column name '" ++ name ++ "' is not an identifier"
  | defaultShape column => "default of column '" ++ column ++ "' must be a literal"
  | deletePolicy column spelling =>
      "column '" ++ column ++ "' has unknown onDelete policy '" ++ spelling ++ "'"
  | indexEmpty name => "index '" ++ name ++ "' lists no columns"
  | relationshipName name => "relationship name '" ++ name ++ "' is not an identifier"
  | relationshipKind name spelling =>
      "relationship '" ++ name ++ "' has unknown type '" ++ spelling ++ "'"
  | throughMissing name =>
      "many-to-many relationship '" ++ name ++ "' needs a 'through' table"
  | sortDirection spelling => "unknown sort direction '" ++ spelling ++ "'"

/-- What is wrong with a descriptor, without the place. -/
inductive Problem where
  /-- The file cannot be read. -/
  | unreadable
  /-- The text is not JSON, or not what a descriptor may hold. -/
  | malformed
  /-- The schema breaks a rule. -/
  | breach (breach : Breach)
deriving DecidableEq, Repr

end Descriptor

/-- Why descriptors were not loaded. -/
structure LoadError where
  /-- The file or directory at fault. -/
  path : String
  /-- What is wrong with it. -/
  problem : Descriptor.Problem
deriving DecidableEq, Repr

namespace Descriptor

/-- Reports what was found in a file. -/
def inFile {α : Type} (path : String) (result : Except Problem α) : Except LoadError α :=
  result.mapError fun problem => ⟨path, problem⟩

/-- The content that a reader found, or the text is malformed. -/
def wellFormed {α : Type} : Option α → Except Problem α
  | some a => .ok a
  | none => .error .malformed

/-- Passes when a condition holds, and reports a breach otherwise. -/
def unlessBreach (condition : Bool) (breach : Breach) : Except Problem Unit :=
  if condition then .ok () else .error (.breach breach)

end Descriptor

end SchemaCompiler
