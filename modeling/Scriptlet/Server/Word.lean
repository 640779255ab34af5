import Scriptlet.Json.Basic
import Scriptlet.Run.Operation
import Scriptlet.Script.Grammar
import Scriptlet.Text.Utf16

/-!
# Words of a document

What an editor can ask about the **word** under its cursor, and what it can offer to complete.
The word at a place is the run of name characters there; just after a word still counts as
on it, and so does the end of the line.
-/

namespace Scriptlet

/-! ### Vocabulary -/

/-- The keywords of the language. -/
def keywords : List Bytes :=
  ["and", "false", "func", "if", "or", "return", "true", "while"].map Bytes.ofString

/-- The kinds of built-in names that values have. -/
inductive BuiltinKind where
  /-- A property. -/
  | member
  /-- A method. -/
  | method
  deriving DecidableEq, Repr

/-- A built-in name of values, with what it does. -/
structure Builtin where
  /-- The name. -/
  name : Bytes
  /-- Whether it is a property or a method. -/
  kind : BuiltinKind
  /-- What it does. -/
  description : Bytes

/-- The built-in names of values. -/
def builtins : List Builtin :=
  [⟨Value.lengthName, .member,
    Bytes.ofString "`value.length` number of elements of an array or bytes of a text"⟩,
   ⟨Value.startsWithName, .method,
    Bytes.ofString "`text.starts_with(prefix)` reports whether text begins with prefix"⟩]

/-! ### Completion -/

/-- Something an editor can offer while a name is typed. -/
structure Completion where
  /-- The name. -/
  label : Bytes
  /-- The number of the kind of name. -/
  kind : Nat
  /-- The words for the kind of name. -/
  detail : String

/-- What completes a name of a value. -/
def Builtin.completion (b : Builtin) : Completion :=
  match b.kind with
  | .member => ⟨b.name, 10, "member"⟩
  | .method => ⟨b.name, 2, "method"⟩

/-- All completions, by name. -/
def completions : List Completion :=
  let words : List Completion := keywords.map fun k => ⟨k, 14, "keyword"⟩
  (words ++ builtins.map Builtin.completion).mergeSort
    fun c c' => Bytes.order c.label c'.label != .gt

/-- A completion, as JSON. -/
def Completion.toJson (c : Completion) : Json :=
  .record
    [("detail", .ofLiteral c.detail), ("kind", .ofNat c.kind), ("label", .ofText c.label)]

/-! ### Descriptions -/

/-- A word between backquotes, with a remark below it. -/
def remark (word : Bytes) (words : String) : Bytes :=
  Bytes.ofString "`" ++ word ++ Bytes.ofString "`\n\n" ++ Bytes.ofString words

/-- The description of a function: how it is called and where it is defined. -/
def describeFunction (name : Bytes) (f : Func Position) : Bytes :=
  Bytes.ofString "```\nfunc " ++ name ++ Bytes.ofString "(" ++
    Bytes.join (Bytes.ofString ", ") f.params ++ Bytes.ofString ")\n```\n\ndefined on line " ++
    Bytes.ofNat f.mark.line

/-- The first definition of a function in a document, if the document is a script that has
one. -/
def definition? (document name : Bytes) : Option (Func Position) :=
  match parse (Bytes.dropFinalNewline document) with
  | .error _ => none
  | .ok script =>
    script.statements.findSome? fun
      | .func n f => if n = name then some f else none
      | _ => none

/-- **What a word of a document means**: a keyword, a built-in name, a function of the document,
or else a variable. -/
def describeWord (document word : Bytes) : Bytes :=
  if keywords.contains word then remark word "TinyScript keyword"
  else match builtins.find? fun b => b.name = word with
    | some b => b.description
    | none =>
      match definition? document word with
      | some f => describeFunction word f
      | none => remark word "TinyScript variable"

/-! ### The word under the cursor -/

/-- The run of name characters on both sides of a place. -/
def wordAround (line : List Glyph) (place : Nat) : List Glyph :=
  ((line.take place).reverse.takeWhile Glyph.isNameChar).reverse ++
    (line.drop place).takeWhile Glyph.isNameChar

/-- Whether a name character stands at a place. -/
def isWordAt (line : List Glyph) (place : Nat) : Bool :=
  ((line.drop place).head?.map Glyph.isNameChar).getD false

/-- The word at a place of a line, counted in glyphs. A place at the end of the line means the
last glyph; a place without a name character means the one before it. -/
def wordInLine (line : List Glyph) (place : Nat) : Bytes :=
  let place := if place = line.length then place - 1 else place
  if isWordAt line place then Bytes.ofGlyphs (wordAround line place)
  else if 0 < place && isWordAt line (place - 1) then
    Bytes.ofGlyphs (wordAround line (place - 1))
  else []

/-- **The word at a place of a document**, its line counted from zero and its character in
UTF-16 units; empty when there is none. -/
def wordAt (document : Bytes) (line character : Int) : Bytes :=
  if line < 0 then []
  else match (Bytes.lines document)[line.toNat]? with
    | none => []
    | some text =>
      let glyphs := Bytes.glyphs text
      wordInLine glyphs (glyphsOfUnits glyphs character.toNat)

end Scriptlet
