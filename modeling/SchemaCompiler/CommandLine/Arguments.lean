import SchemaCompiler.Decimal.Digits
import SchemaCompiler.Text.Pieces

/-
Command-line arguments.

Options come first, each at most once, and then a command with arguments of its
own.  A value follows its option as the next argument, which must not look like
an option, or is attached to it.  Anything else is refused as a whole.
-/

namespace SchemaCompiler
namespace CommandLine

/-- What to do with a compiled schema. -/
inductive Command where
  /-- Report how many artifacts there are. -/
  | check
  /-- List the artifacts, as JSON if that is asked for. -/
  | list (json : Bool)
  /-- Print the artifact at a path. -/
  | print (path : String)
deriving DecidableEq, Repr

/-- An option. -/
inductive OptionName where
  /-- The root of the schema. -/
  | root
  /-- The directory of enumeration descriptors. -/
  | enumsDirectory
  /-- The directory of table descriptors. -/
  | tablesDirectory
  /-- The extension of descriptor files. -/
  | extension
  /-- The file with settings. -/
  | config
  /-- The number of workers. -/
  | workers
  /-- Whether seed rows are left out. -/
  | noSeeds
deriving DecidableEq, Repr

/-- The option of a long name. -/
def OptionName.ofLong? (name : String) : Option OptionName :=
  [("root", root), ("enums-dir", enumsDirectory), ("tables-dir", tablesDirectory),
    ("extension", extension), ("config", config), ("workers", workers),
    ("no-seeds", noSeeds)].lookup name

/-- The option of a one-letter name. -/
def OptionName.ofShort? (name : Char) : Option OptionName :=
  [('r', root), ('c', config)].lookup name

/-- Options as given, each with its value, which is empty for a flag. -/
abbrev Given := List (OptionName × String)

/-- An argument as the parser sees it. -/
inductive Argument where
  /-- Two hyphens, after which nothing is an option. -/
  | escape
  /-- A long option, with the value attached to it. -/
  | long (name : String) (attached : Option String)
  /-- A one-letter option, with the characters attached to it. -/
  | short (name : Char) (attached : List Char)
  /-- Anything else. -/
  | plain (text : String)
deriving DecidableEq, Repr

/-- A long option from the characters after its hyphens. -/
def longArgument (chars : List Char) : Argument :=
  let name := String.ofList (chars.takeWhile (· != '='))
  match chars.dropWhile (· != '=') with
  | [] => .long name none
  | _ :: attached => .long name (some (String.ofList attached))

/-- What an argument is.  A single hyphen is no option. -/
def classify (argument : String) : Argument :=
  match argument.toList with
  | ['-', '-'] => .escape
  | '-' :: '-' :: chars => longArgument chars
  | ['-'] => .plain argument
  | '-' :: name :: attached => .short name attached
  | _ => .plain argument

/-- Adds an option, unless it is there. -/
def give? (given : Given) (name : OptionName) (value : String) : Option Given :=
  if (given.lookup name).isSome then none else some (given ++ [(name, value)])

/-- The value attached to a one-letter option; an equals sign before it is not
part of it. -/
def attachedValue : List Char → String
  | '=' :: chars => String.ofList chars
  | chars => String.ofList chars

/-- The options in front of the command, and the command with its arguments. -/
def takeOptions? (given : Given) : List String → Option (Given × String × List String)
  | [] => none
  | argument :: rest =>
      match classify argument with
      | .plain command => some (given, command, rest)
      | .escape => none
      | .long long attached =>
          match OptionName.ofLong? long, attached, rest with
          | none, _, _ => none
          | some .noSeeds, none, rest => do takeOptions? (← give? given .noSeeds "") rest
          | some .noSeeds, some _, _ => none
          | some name, some value, rest => do takeOptions? (← give? given name value) rest
          | some _, none, [] => none
          | some name, none, value :: rest =>
              match classify value with
              | .plain value => do takeOptions? (← give? given name value) rest
              | _ => none
      | .short short attached =>
          match OptionName.ofShort? short, attached, rest with
          | none, _, _ => none
          | some name, c :: chars, rest => do
              takeOptions? (← give? given name (attachedValue (c :: chars))) rest
          | some _, [], [] => none
          | some name, [], value :: rest =>
              match classify value with
              | .plain value => do takeOptions? (← give? given name value) rest
              | _ => none

/-- The command of a name and its arguments.  Two hyphens may stand among the
arguments, and what follows them is taken as it is. -/
def readCommand? : String → List String → Option Command
  | "check", [] => some .check
  | "check", ["--"] => some .check
  | "list", [] => some (.list false)
  | "list", ["--"] => some (.list false)
  | "list", ["--json"] => some (.list true)
  | "list", ["--json", "--"] => some (.list true)
  | "print", ["--", path] => some (.print path)
  | "print", [path] =>
      match classify path with
      | .plain path => some (.print path)
      | _ => none
  | "print", [path, "--"] =>
      match classify path with
      | .plain path => some (.print path)
      | _ => none
  | _, _ => none

/-- A count as written: digits, with a plus sign before them or not, for a number
below two to the sixty-fourth. -/
def readCount? (text : String) : Option Nat :=
  let ds :=
    match text.toList with
    | '+' :: ds => ds
    | ds => ds
  if !ds.isEmpty && ds.all Char.isDigit && Decimal.value ds < Decimal.twoTo 64 then
    some (Decimal.value ds)
  else
    none

/-- A path, which must not be empty. -/
def readPath? (text : String) : Option String :=
  if text.isEmpty then none else some text

/-- The arguments of a run. -/
structure Arguments where
  /-- The root of the schema. -/
  root : String
  /-- The directory of enumeration descriptors. -/
  enumsDirectory : String
  /-- The directory of table descriptors. -/
  tablesDirectory : String
  /-- The extension of descriptor files. -/
  extension : String
  /-- The file with settings. -/
  config : Option String
  /-- The number of workers, or zero to leave it as set. -/
  workers : Nat
  /-- Whether seed rows are left out. -/
  noSeeds : Bool
  /-- What to do with the compiled schema. -/
  command : Command
deriving DecidableEq, Repr

/-- The arguments of a run, if they are in order. -/
def Arguments.parse? (arguments : List String) : Option Arguments := do
  let (given, command, rest) ← takeOptions? [] arguments
  let command ← readCommand? command rest
  let root ← readPath? ((given.lookup .root).getD ".")
  let config ←
    match given.lookup .config with
    | none => some none
    | some path => (readPath? path).map some
  let workers ← readCount? ((given.lookup .workers).getD "0")
  return ⟨root, (given.lookup .enumsDirectory).getD "enums",
    (given.lookup .tablesDirectory).getD "tables",
    (given.lookup .extension).getD "json", config, workers,
    (given.lookup .noSeeds).isSome, command⟩

end CommandLine
end SchemaCompiler
