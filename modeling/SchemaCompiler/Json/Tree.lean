import SchemaCompiler.Json.Token
import SchemaCompiler.Json.Value

/-
The structure of JSON text.

A tree keeps every member of an object, repeated keys included, and keeps number
literals and strings unread.  `Tree.read?` accepts exactly the texts that the
grammar allows, to any depth.  `Tree.value?` then reads a tree as a value and
refuses what a value cannot hold: a number out of range, an unpaired surrogate,
or nesting deeper than the room given.
-/

namespace SchemaCompiler
namespace Json

/-- The structure of a JSON text. -/
inductive Tree where
  /-- A value that holds no other. -/
  | scalar (scalar : Scalar)
  /-- An array. -/
  | array (items : List Tree)
  /-- An object, with its members as written. -/
  | object (members : List (Option String × Tree))
deriving Repr, Inhabited

/-- An array or object that is still open. -/
inductive Frame where
  /-- An array, with its items so far, the last one first. -/
  | items (done : List Tree)
  /-- An object, with its members so far, the last one first, and the key whose
  value comes next. -/
  | members (done : List (Option String × Tree)) (key : Option String)

/-- What the grammar allows next. -/
inductive Expected where
  /-- A value. -/
  | value
  /-- A value, or the end of an array that has just begun. -/
  | firstItem
  /-- A key, or the end of an object that has just begun. -/
  | firstKey
  /-- A key. -/
  | key (done : List (Option String × Tree))
  /-- The colon after a key. -/
  | colon
  /-- What follows a complete tree: a comma, or the end of what holds it. -/
  | after (tree : Tree)

/-- The open arrays and objects around a place in a text, the innermost first,
and what may come next there. -/
structure Reading where
  /-- What is open. -/
  frames : List Frame
  /-- What may come next. -/
  expected : Expected

namespace Reading

/-- The place before a text. -/
def start : Reading := ⟨[], .value⟩

/-- The place at the start of a value, once its first token is read. -/
def beginValue? (frames : List Frame) : Token → Option Reading
  | .scalar scalar => some ⟨frames, .after (.scalar scalar)⟩
  | .mark .openArray => some ⟨.items [] :: frames, .firstItem⟩
  | .mark .openObject => some ⟨frames, .firstKey⟩
  | .mark _ => none

/-- The place after a key. -/
def beginMember? (frames : List Frame) (done : List (Option String × Tree)) :
    Token → Option Reading
  | .scalar (.text key) => some ⟨.members done key :: frames, .colon⟩
  | _ => none

/-- The place after a mark that follows a complete tree. -/
def continue? (tree : Tree) : List Frame → Token → Option Reading
  | .items done :: frames, .mark .comma => some ⟨.items (tree :: done) :: frames, .value⟩
  | .items done :: frames, .mark .closeArray =>
      some ⟨frames, .after (.array (tree :: done).reverse)⟩
  | .members done key :: frames, .mark .comma => some ⟨frames, .key ((key, tree) :: done)⟩
  | .members done key :: frames, .mark .closeObject =>
      some ⟨frames, .after (.object ((key, tree) :: done).reverse)⟩
  | _, _ => none

/-- The place after one more token. -/
def step? (reading : Reading) (token : Token) : Option Reading :=
  match reading.expected with
  | .value => beginValue? reading.frames token
  | .firstItem =>
      match reading.frames, token with
      | .items _ :: frames, .mark .closeArray => some ⟨frames, .after (.array [])⟩
      | frames, token => beginValue? frames token
  | .firstKey =>
      match token with
      | .mark .closeObject => some ⟨reading.frames, .after (.object [])⟩
      | token => beginMember? reading.frames [] token
  | .key done => beginMember? reading.frames done token
  | .colon =>
      match token with
      | .mark .colon => some ⟨reading.frames, .value⟩
      | _ => none
  | .after tree => continue? tree reading.frames token

/-- The tree that a complete reading has read. -/
def tree? : Reading → Option Tree
  | ⟨[], .after tree⟩ => some tree
  | _ => none

end Reading

/-- The tree of a text, if the text is well formed. -/
def Tree.read? (text : String) : Option Tree :=
  match tokens? text with
  | none => none
  | some tokens => (tokens.foldlM Reading.step? Reading.start).bind Reading.tree?

/-- The value of a scalar. -/
def Scalar.value? : Scalar → Option Value
  | .null => some .null
  | .bool value => some (.bool value)
  | .number literal => (Number.ofLiteral? literal).map .number
  | .text content => content.map .string

mutual

/-- The value of a tree, when at most `room` arrays and objects may be open at
once. -/
def Tree.value? (room : Nat) : Tree → Option Value
  | .scalar scalar => scalar.value?
  | .array items =>
      match room with
      | 0 => none
      | room + 1 => (itemValues? room items).map .array
  | .object members =>
      match room with
      | 0 => none
      | room + 1 => (memberValues? room [] members).map .object

/-- The values of the items of an array. -/
def itemValues? (room : Nat) : List Tree → Option (List Value)
  | [] => some []
  | item :: rest =>
      match item.value? room, itemValues? room rest with
      | some value, some values => some (value :: values)
      | _, _ => none

/-- The fields of an object, after those that its earlier members have set. -/
def memberValues? (room : Nat) (fields : Fields) :
    List (Option String × Tree) → Option Fields
  | [] => some fields
  | (key, tree) :: rest =>
      match key, tree.value? room with
      | some key, some value => memberValues? room (fields.put key value) rest
      | _, _ => none

end

/-- The most arrays and objects that may be open at once in a value. -/
def greatestDepth : Nat := 127

/-- The value of a text. -/
def Value.read? (text : String) : Option Value :=
  (Tree.read? text).bind (Tree.value? greatestDepth)

end Json
end SchemaCompiler
