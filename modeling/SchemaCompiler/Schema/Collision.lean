import SchemaCompiler.Name.Derived
import SchemaCompiler.Schema.Fault

/-
Collisions of derived names.

Enumerations and then tables claim the names derived from them, each for one
use.  The first to claim a name for a use keeps it, and every later claim of it is
a fault that names the first.  The files of enumerations and the index of each
directory have claimed their names before all others.
-/

namespace SchemaCompiler

/-- The stem of the files with enumerations. -/
def enumsStem : String := "enums"

/-- The stem of the file that gathers the exports of its directory. -/
def indexStem : String := "index"

/-- A claim of a derived name for one use. -/
structure NameClaim where
  /-- Who claims the name. -/
  owner : String
  /-- What the name is used for. -/
  use : NameUse
  /-- The name. -/
  name : String
deriving DecidableEq, Repr

namespace Schema

/-- The claims made before those of any enumeration and table. -/
def reservedClaims : List NameClaim :=
  [⟨"the enum artifact", .module, enumsStem⟩, ⟨"the barrel", .module, indexStem⟩]

/-- The claims of an enumeration. -/
def enumClaims (enumeration : Enumeration) : List NameClaim :=
  let names := EnumNames.ofEnumeration enumeration
  [⟨enumeration.name, .storageConstant, names.storageConst⟩,
    ⟨enumeration.name, .typeStem, names.typeName⟩]

/-- The claims of a table. -/
def tableClaims (table : Table) : List NameClaim :=
  let names := TableNames.ofTable table.name
  [⟨table.name, .module, names.stem⟩, ⟨table.name, .storageConstant, names.tableConst⟩,
    ⟨table.name, .typeStem, names.pascal⟩]

/-- The claims of a schema, in order. -/
def nameClaims (schema : Schema) : List NameClaim :=
  schema.enumerations.flatMap enumClaims ++ schema.tables.flatMap tableClaims

/-- The faults of claims, in order, after those that others have made. -/
def collisionsAfter (earlier : List NameClaim) : List NameClaim → List Fault
  | [] => []
  | claim :: rest =>
      match earlier.find? fun other => other.use == claim.use && other.name == claim.name with
      | some first =>
          .nameCollision claim.owner claim.use claim.name first.owner
            :: collisionsAfter earlier rest
      | none => collisionsAfter (earlier ++ [claim]) rest

/-- The collisions of derived names. -/
def collisions (schema : Schema) : List Fault :=
  collisionsAfter reservedClaims schema.nameClaims

end Schema

end SchemaCompiler
