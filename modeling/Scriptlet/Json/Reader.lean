import Scriptlet.Json.Basic

/-!
# Reading JSON

A text is a document when it is one value with white space around its tokens and nothing else.
Lists and objects may be nested `maxDepth` deep; as in the grammar of scripts, the reader is a
recursion on the depth that is left, and every rule takes the reader for what stands inside.
Strings are checked here and kept as they are written; `Json.decode` gives their meaning.
-/

namespace Scriptlet

namespace Json

/-- How deep lists and objects may be nested. -/
def maxDepth : Nat := 10000

/-- White space between tokens. -/
def isSpace (b : UInt8) : Bool :=
  b == Bytes.space || b == Bytes.tab || b == Bytes.newline || b == Bytes.carriageReturn

/-- What follows the white space at the beginning. -/
def skipSpace (s : Bytes) : Bytes :=
  s.dropWhile isSpace

/-! ### Strings -/

/-- A letter that may follow a backslash. -/
def isEscapeLetter (b : UInt8) : Bool :=
  b == 0x22 || b == 0x5c || b == 0x2f || b == 0x62 || b == 0x66 || b == 0x6e || b == 0x72 ||
    b == 0x74

/-- The content of a string and what follows its closing quote, from just after the opening
quote on. -/
def content? : Bytes → Option (Bytes × Bytes)
  | [] => none
  | 0x22 :: s => some ([], s)
  | 0x5c :: 0x75 :: a :: b :: c :: d :: s =>
    if [a, b, c, d].all fun x => (Bytes.hexValue? x).isSome then
      (content? s).map fun (t, r) => (0x5c :: 0x75 :: a :: b :: c :: d :: t, r)
    else none
  | 0x5c :: e :: s =>
    if isEscapeLetter e then (content? s).map fun (t, r) => (0x5c :: e :: t, r) else none
  | b :: s => if b < 0x20 || b == 0x5c then none else (content? s).map fun (t, r) => (b :: t, r)

/-- The value of four hexadecimal digits. -/
def hex4 (a b c d : UInt8) : Nat :=
  [a, b, c, d].foldl (fun n x => 16 * n + (Bytes.hexValue? x).getD 0) 0

/-- The first half of a surrogate pair. -/
def isHighSurrogate (v : Nat) : Bool := 0xd800 ≤ v && v < 0xdc00

/-- The second half of a surrogate pair. -/
def isLowSurrogate (v : Nat) : Bool := 0xdc00 ≤ v && v < 0xe000

/-- The character of a pair of surrogates. -/
def pairChar (high low : Nat) : Char :=
  Char.ofNat (0x10000 + (high - 0xd800) * 0x400 + (low - 0xdc00))

/-- The character of one escape; half a surrogate pair is the replacement character. -/
def escapedCode (v : Nat) : Char :=
  if isHighSurrogate v || isLowSurrogate v then Glyph.replacement else Char.ofNat v

/-- What the letter after a backslash means. -/
def escapeMeaning (b : UInt8) : UInt8 :=
  match b with
  | 0x62 => 0x08
  | 0x66 => 0x0c
  | 0x6e => 0x0a
  | 0x72 => 0x0d
  | 0x74 => 0x09
  | b => b

/-- A string's content with its escapes resolved; other bytes are not looked at. -/
def unescape : Bytes → Bytes
  | [] => []
  | 0x5c :: 0x75 :: a :: b :: c :: d :: 0x5c :: 0x75 :: a' :: b' :: c' :: d' :: s =>
    let v := hex4 a b c d
    let v' := hex4 a' b' c' d'
    if isHighSurrogate v && isLowSurrogate v' then
      String.utf8EncodeChar (pairChar v v') ++ unescape s
    else
      String.utf8EncodeChar (escapedCode v) ++
        unescape (0x5c :: 0x75 :: a' :: b' :: c' :: d' :: s)
  | 0x5c :: 0x75 :: a :: b :: c :: d :: s =>
    String.utf8EncodeChar (escapedCode (hex4 a b c d)) ++ unescape s
  | 0x5c :: e :: s => escapeMeaning e :: unescape s
  | b :: s => b :: unescape s

/-- **The text that a string's content means.** Stray bytes become replacement
characters. -/
def decode (content : Bytes) : Bytes :=
  unescape (Bytes.mended content)

/-! ### Numbers -/

/-- A run of digits, not empty, and what follows it. -/
def digits? (s : Bytes) : Option (Bytes × Bytes) :=
  match s.takeWhile Bytes.isDigit with
  | [] => none
  | ds => some (ds, s.drop ds.length)

/-- The whole part of a number: a zero alone, or digits that begin with another. -/
def whole? (s : Bytes) : Option (Bytes × Bytes) :=
  match s with
  | 0x30 :: r => some ([0x30], r)
  | _ => digits? s

/-- The fraction of a number, possibly absent. -/
def fraction? (s : Bytes) : Option (Bytes × Bytes) :=
  match s with
  | 0x2e :: r => (digits? r).map fun (ds, r') => (0x2e :: ds, r')
  | _ => some ([], s)

/-- The exponent of a number, possibly absent. -/
def exponent? (s : Bytes) : Option (Bytes × Bytes) :=
  match s with
  | e :: r =>
    if e == 0x65 || e == 0x45 then
      match r with
      | sign :: r' =>
        if sign == 0x2b || sign == 0x2d then
          (digits? r').map fun (ds, r'') => (e :: sign :: ds, r'')
        else (digits? r).map fun (ds, r'') => (e :: ds, r'')
      | [] => none
    else some ([], s)
  | [] => some ([], s)

/-- A number without its sign. -/
def unsigned? (s : Bytes) : Option (Bytes × Bytes) := do
  let (w, s) ← whole? s
  let (f, s) ← fraction? s
  let (e, s) ← exponent? s
  some (w ++ f ++ e, s)

/-- A number. -/
def number? (s : Bytes) : Option (Bytes × Bytes) :=
  match s with
  | 0x2d :: r => (unsigned? r).map fun (n, r') => (0x2d :: n, r')
  | _ => unsigned? s

/-! ### Values -/

/-- A reader of one value at the beginning of a text. -/
abbrev Inner := Bytes → Option (Json × Bytes)

/-- The items of a list after its first, up to the closing bracket. -/
def items? (inner : Inner) : (fuel : Nat) → Bytes → Option (List Json × Bytes)
  | 0, _ => none
  | fuel + 1, s => do
    let (item, s) ← inner (skipSpace s)
    match skipSpace s with
    | 0x5d :: s => some ([item], s)
    | 0x2c :: s => do
      let (items, s) ← items? inner fuel s
      some (item :: items, s)
    | _ => none

/-- A name in quotes. -/
def name? (s : Bytes) : Option (Bytes × Bytes) :=
  match s with
  | 0x22 :: s => content? s
  | _ => none

/-- The members of an object after its first, up to the closing brace. -/
def members? (inner : Inner) : (fuel : Nat) → Bytes → Option (List (Bytes × Json) × Bytes)
  | 0, _ => none
  | fuel + 1, s => do
    let (name, s) ← name? (skipSpace s)
    match skipSpace s with
    | 0x3a :: s => do
      let (value, s) ← inner (skipSpace s)
      match skipSpace s with
      | 0x7d :: s => some ([(name, value)], s)
      | 0x2c :: s => do
        let (members, s) ← members? inner fuel s
        some ((name, value) :: members, s)
      | _ => none
    | _ => none

/-- A list, from just after its opening bracket on. -/
def array? (inner : Inner) (s : Bytes) : Option (Json × Bytes) :=
  match skipSpace s with
  | 0x5d :: s => some (.array [], s)
  | _ => (items? inner (s.length + 1) s).map fun (items, s) => (.array items, s)

/-- An object, from just after its opening brace on. -/
def object? (inner : Inner) (s : Bytes) : Option (Json × Bytes) :=
  match skipSpace s with
  | 0x7d :: s => some (.object [], s)
  | _ => (members? inner (s.length + 1) s).map fun (members, s) => (.object members, s)

/-- A value that holds no other. -/
def leaf? (s : Bytes) : Option (Json × Bytes) :=
  match s with
  | 0x22 :: s => (content? s).map fun (c, s) => (.string c, s)
  | 0x6e :: _ => (Bytes.after? (Bytes.ofString "null") s).map fun s => (.null, s)
  | 0x74 :: _ => (Bytes.after? (Bytes.ofString "true") s).map fun s => (.bool true, s)
  | 0x66 :: _ => (Bytes.after? (Bytes.ofString "false") s).map fun s => (.bool false, s)
  | _ => (number? s).map fun (n, s) => (.number n, s)

/-- A value in which lists and objects are nested at most `depth` deep. -/
def value? : (depth : Nat) → Inner
  | 0, s =>
    match s with
    | 0x5b :: _ | 0x7b :: _ => none
    | _ => leaf? s
  | depth + 1, s =>
    match s with
    | 0x5b :: s => array? (value? depth) s
    | 0x7b :: s => object? (value? depth) s
    | _ => leaf? s

/-- **Reads a document**; nothing but white space may stand around it. -/
def parse? (s : Bytes) : Option Json :=
  match value? maxDepth (skipSpace s) with
  | some (value, rest) => if (skipSpace rest).isEmpty then some value else none
  | none => none

end Json

end Scriptlet
