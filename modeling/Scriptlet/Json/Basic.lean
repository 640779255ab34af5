import Scriptlet.Decimal.Style
import Scriptlet.Text.Glyph

/-!
# JSON documents

The language server speaks JSON, and the bindings of a run can be written as JSON. A
**document** here keeps its leaves as they are written: a number is its digits, and a
string the text between its quotes with all escapes in place. So a document that was read can be
sent back with nothing changed but its white space, which is what a reply does with the
identifier of the request it answers; and a string is decoded only where its meaning is
wanted.

Strings made by `Json.ofText` also escape the characters that could be taken for markup,
and the two line separators that end a line in some readers but not in others.
-/

namespace Scriptlet

/-- A JSON document. -/
inductive Json where
  /-- The absent value. -/
  | null
  /-- A truth value. -/
  | bool (value : Bool)
  /-- A number, as its literal. -/
  | number (literal : Bytes)
  /-- A string, as the text between its quotes. -/
  | string (content : Bytes)
  /-- A list of documents. -/
  | array (items : List Json)
  /-- Named documents; the names are, like strings, as written. -/
  | object (members : List (Bytes × Json))
  deriving Inhabited

namespace Json

/-! ### Strings -/

/-- The escape `\u` with four digits. -/
def unicodeEscape (v : Nat) : Bytes :=
  Bytes.ofString "\\u" ++ Bytes.hex 4 v

/-- A character of markup or a line separator, which strings hold only escaped. -/
def isGuarded (c : Char) : Bool :=
  c == '<' || c == '>' || c == '&' || c == '\u2028' || c == '\u2029'

/-- A character as it stands in a string. -/
def escapeChar (c : Char) : Bytes :=
  match c.toNat with
  | 0x22 => Bytes.ofString "\\\""
  | 0x5c => Bytes.ofString "\\\\"
  | 0x08 => Bytes.ofString "\\b"
  | 0x0c => Bytes.ofString "\\f"
  | 0x0a => Bytes.ofString "\\n"
  | 0x0d => Bytes.ofString "\\r"
  | 0x09 => Bytes.ofString "\\t"
  | v => if v < 0x20 || isGuarded c then unicodeEscape v else String.utf8EncodeChar c

/-- A glyph as it stands in a string; a stray byte is written as the replacement
character. -/
def escapeGlyph (g : Glyph) : Bytes :=
  escapeChar g.toChar

/-- The string that means a given text. -/
def ofText (s : Bytes) : Json :=
  .string ((Bytes.glyphs s).flatMap escapeGlyph)

/-- The string that means a given literal text. -/
def ofLiteral (s : String) : Json :=
  ofText (Bytes.ofString s)

/-- The number that means a natural number. -/
def ofNat (n : Nat) : Json :=
  .number (Bytes.ofNat n)

/-- The number that means an integer. -/
def ofInt (n : Int) : Json :=
  .number (Bytes.ofInt n)

/-- The object with the given members, whose names are literal texts without escapes. -/
def record (members : List (String × Json)) : Json :=
  .object (members.map fun (name, value) => (Bytes.ofString name, value))

/-- How numbers are written: in full from a millionth on up to twenty-one digits, with an
exponent otherwise. There is no literal for the others; as strings they appear elsewhere. -/
def numberStyle : NumberStyle where
  inFull := some (-6, 20)
  exponentDigits := 1
  nan := Bytes.ofString "null"
  infinity := fun _ => Bytes.ofString "null"

/-! ### Writing -/

/-- A quoted string. -/
def quote (content : Bytes) : Bytes :=
  Bytes.doubleQuote :: content ++ [Bytes.doubleQuote]

/-- A document that is neither list nor object. -/
def leaf : Json → Bytes
  | null => Bytes.ofString "null"
  | bool true => Bytes.ofString "true"
  | bool false => Bytes.ofString "false"
  | number literal => literal
  | string content => quote content
  | array _ | object _ => []

mutual

/-- **A document without white space.** -/
def compact : Json → Bytes
  | array items => 0x5b :: compactItems items ++ [0x5d]
  | object members => 0x7b :: compactMembers members ++ [0x7d]
  | value => leaf value

/-- The items of a list, with commas between them. -/
def compactItems : List Json → Bytes
  | [] => []
  | [item] => compact item
  | item :: items => compact item ++ 0x2c :: compactItems items

/-- The members of an object, with commas between them. -/
def compactMembers : List (Bytes × Json) → Bytes
  | [] => []
  | [(name, value)] => quote name ++ 0x3a :: compact value
  | (name, value) :: members =>
    quote name ++ 0x3a :: compact value ++ 0x2c :: compactMembers members

end

/-- The line break before an entry at a given depth, with what follows it. -/
def breakLine (depth : Nat) (rest : Bytes) : Bytes :=
  Bytes.newline :: (Bytes.spaces (2 * depth) ++ rest)

mutual

/-- A document on many lines, with what follows it: every entry on a line of its own, two blanks
deeper than what holds it. Empty lists and objects stay together. -/
def onLines (depth : Nat) : Json → (rest : Bytes) → Bytes
  | array [], rest => 0x5b :: 0x5d :: rest
  | array items, rest => 0x5b :: itemsOnLines (depth + 1) items (breakLine depth (0x5d :: rest))
  | object [], rest => 0x7b :: 0x7d :: rest
  | object members, rest =>
    0x7b :: membersOnLines (depth + 1) members (breakLine depth (0x7d :: rest))
  | value, rest => leaf value ++ rest

/-- The items of a list, each on its own line, with what follows them. -/
def itemsOnLines (depth : Nat) : List Json → (rest : Bytes) → Bytes
  | [], rest => rest
  | [item], rest => breakLine depth (onLines depth item rest)
  | item :: items, rest =>
    breakLine depth (onLines depth item (0x2c :: itemsOnLines depth items rest))

/-- The members of an object, each on its own line, with what follows them. -/
def membersOnLines (depth : Nat) : List (Bytes × Json) → (rest : Bytes) → Bytes
  | [], rest => rest
  | [(name, value)], rest =>
    breakLine depth (quote name ++ 0x3a :: Bytes.space :: onLines depth value rest)
  | (name, value) :: members, rest =>
    breakLine depth (quote name ++ 0x3a :: Bytes.space ::
      onLines depth value (0x2c :: membersOnLines depth members rest))

end

/-- **A document on many lines.** -/
def indented (j : Json) : Bytes :=
  onLines 0 j []

/-! ### Guarding -/

/-- A string's content with the guarded characters escaped and all else as it is. -/
def guardContent (content : Bytes) : Bytes :=
  (Bytes.glyphs content).flatMap fun
    | .char c => if isGuarded c then unicodeEscape c.toNat else String.utf8EncodeChar c
    | .stray b => [b]

mutual

/-- A document with the guarded characters of its strings and names escaped. -/
def guarded : Json → Json
  | string content => string (guardContent content)
  | array items => array (guardedItems items)
  | object members => object (guardedMembers members)
  | value => value

/-- The items of a list, guarded. -/
def guardedItems : List Json → List Json
  | [] => []
  | item :: items => guarded item :: guardedItems items

/-- The members of an object, guarded. -/
def guardedMembers : List (Bytes × Json) → List (Bytes × Json)
  | [] => []
  | (name, value) :: members => (guardContent name, guarded value) :: guardedMembers members

end

end Json

end Scriptlet
