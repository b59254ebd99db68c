import SchemaCompiler.Descriptor.Enumeration
import SchemaCompiler.Descriptor.Table
import SchemaCompiler.File.Directory
import SchemaCompiler.File.Path
import SchemaCompiler.Schema.Basic

/-
Loading a schema.

Enumerations are loaded before tables, and sources in the order given.  Loading
stops at the first fault.  Names must be new among all earlier ones of their
kind; tables without a name are not compared, since a later check reports them.

A schema under a root directory is loaded from two directories below it.  The
one with enumerations may be missing, the one with tables may not.
-/

namespace SchemaCompiler

/-- Where the descriptors of a schema lie below its root. -/
structure DescriptorLayout where
  /-- The directory of enumeration descriptors. -/
  enums : String
  /-- The directory of table descriptors. -/
  tables : String
  /-- The extension of descriptor files, without its dot. -/
  extension : String
deriving DecidableEq, Repr

namespace DescriptorLayout

/-- The usual layout. -/
def usual : DescriptorLayout := ⟨"enums", "tables", "json"⟩

/-- Sets the extension; dots in front of it are dropped. -/
def withExtension (layout : DescriptorLayout) (extension : String) : DescriptorLayout :=
  { layout with extension := String.ofList (extension.toList.dropWhile (· == '.')) }

end DescriptorLayout

/-- A descriptor: where it comes from, and its text. -/
structure Source where
  /-- The path of the file. -/
  path : String
  /-- What the file holds. -/
  text : String
deriving DecidableEq, Repr

namespace Descriptor

/-- Checks that names are new, each among those seen and those before it. -/
def checkNew (breach : String → Breach) (seen : List String) :
    List String → Except Problem Unit
  | [] => .ok ()
  | name :: rest => do
      unlessBreach (!seen.contains name) (breach name)
      checkNew breach (name :: seen) rest

/-- The enumerations of one source, whose names must not be among those seen. -/
def enumsOfSource (extension : String) (seen : List String) (source : Source) :
    Except LoadError (List Enumeration) :=
  inFile source.path do
    let found ← readEnums (Path.stem extension source.path) source.text
    checkNew .repeatedEnum seen (found.map Enumeration.name)
    return found

/-- The enumerations of sources, in order, after some whose names were seen. -/
def loadEnums (extension : String) (seen : List String) :
    List Source → Except LoadError (List Enumeration)
  | [] => .ok []
  | source :: rest => do
      let found ← enumsOfSource extension seen source
      let others ← loadEnums extension (seen ++ found.map Enumeration.name) rest
      return found ++ others

/-- The names of a table that must be new: its own, unless it has none. -/
def claimedName (table : Table) : List String :=
  if table.name.isEmpty then [] else [table.name]

/-- The table of one source, whose name must not be among those seen. -/
def tableOfSource (seen : List String) (source : Source) : Except LoadError Table :=
  inFile source.path do
    let table ← readTable source.text
    checkNew .repeatedTable seen (claimedName table)
    return table

/-- The tables of sources, in order, after some whose names were seen. -/
def loadTables (seen : List String) : List Source → Except LoadError (List Table)
  | [] => .ok []
  | source :: rest => do
      let table ← tableOfSource seen source
      let others ← loadTables (seen ++ claimedName table) rest
      return table :: others

end Descriptor

namespace Schema

/-- The schema that sources describe. -/
def load (layout : DescriptorLayout) (enums tables : List Source) : Except LoadError Schema := do
  let enumerations ← Descriptor.loadEnums layout.extension [] enums
  let tables ← Descriptor.loadTables [] tables
  return ⟨enumerations, tables⟩

/-- The sources that files of a directory are, up to the first that cannot be
read. -/
def readFiles (directory : String) : List DirectoryEntry → Except LoadError (List Source)
  | [] => .ok []
  | entry :: rest =>
      let path := Path.join directory entry.name
      match entry.text with
      | none => .error ⟨path, .unreadable⟩
      | some text => do
          let others ← readFiles directory rest
          return ⟨path, text⟩ :: others

/-- The schema below a root, given the listings of its two directories; a listing
is missing where there is no directory. -/
def loadBelow (layout : DescriptorLayout) (root : String) (enums tables : Option Directory) :
    Except LoadError Schema :=
  let enumsPath := Path.join root layout.enums
  let tablesPath := Path.join root layout.tables
  match tables with
  | none => .error ⟨tablesPath, .breach .missingDirectory⟩
  | some tables => do
      let enumSources ←
        readFiles enumsPath (Directory.filesWith layout.extension (enums.getD []))
      let tableSources ← readFiles tablesPath (Directory.filesWith layout.extension tables)
      load layout enumSources tableSources

end Schema

end SchemaCompiler
