import Scriptlet.Bytes

/-!
# Characters of a byte string

Columns, carets and quoted text are counted in **glyphs**, not in bytes. A glyph is what
one reads at a place of a byte string: the character whose UTF-8 form stands there, or,
where no such form stands, the single byte alone. Reading is total, every byte belongs to
exactly one glyph, and the bytes of the glyphs in order are the string again; so a count
of glyphs makes sense for every input, however damaged.

A reader walks the bytes and skips those already claimed by the glyph in front, which keeps
the recursion on the list itself. Only well-formed sequences are characters: the shortest
form, no surrogate, nothing above the last code point.
-/

namespace Scriptlet

/-- One element of a text: a character, or a byte that begins no character. -/
inductive Glyph where
  /-- A character that stands in its UTF-8 form. -/
  | char (c : Char)
  /-- A byte at which no UTF-8 form begins. -/
  | stray (b : UInt8)
  deriving DecidableEq, Repr

namespace Glyph

/-- The bytes a glyph takes in the text. -/
def bytes : Glyph → Bytes
  | char c => String.utf8EncodeChar c
  | stray b => [b]

/-- How many bytes a glyph takes. -/
def width : Glyph → Nat
  | char c => c.utf8Size
  | stray _ => 1

/-- The character shown for bytes that are none. -/
def replacement : Char := '\uFFFD'

/-- The character a glyph counts as: a stray byte is shown as the replacement. -/
def toChar : Glyph → Char
  | char c => c
  | stray _ => replacement

/-- Whether a glyph is a character in its own right. -/
def isChar : Glyph → Bool
  | char _ => true
  | stray _ => false

/-- Whether a glyph is a given character. -/
def is (r : Glyph) (c : Char) : Bool :=
  r == .char c

/-- Whether a glyph may stand in a name: a lower-case letter or the underscore. -/
def isNameChar : Glyph → Bool
  | char c => ('a' ≤ c && c ≤ 'z') || c == '_'
  | stray _ => false

/-! ### Reading -/

/-- A byte that may follow the first of a longer form. -/
def isTail (b : UInt8) : Bool :=
  0x80 ≤ b && b ≤ 0xbf

/-- The six bits a following byte carries. -/
def tailBits (b : UInt8) : Nat :=
  b.toNat - 0x80

/-- The character of code `v`, when there is one and it needs more than `low`. -/
def scalar? (low v : Nat) : Option Char :=
  if h : v.isValidChar then
    if low ≤ v then some (Char.ofNatAux v h) else none
  else none

/-- The character whose UTF-8 form is `a` and the bytes `s` begins with, when there is
one. -/
def lead? (a : UInt8) (s : Bytes) : Option Char :=
  if a < 0x80 then scalar? 0 a.toNat
  else if a < 0xc0 then none
  else if a < 0xe0 then
    match s with
    | b :: _ =>
      if isTail b then scalar? 0x80 ((a.toNat - 0xc0) * 64 + tailBits b) else none
    | _ => none
  else if a < 0xf0 then
    match s with
    | b :: c :: _ =>
      if isTail b && isTail c then
        scalar? 0x800 (((a.toNat - 0xe0) * 64 + tailBits b) * 64 + tailBits c)
      else none
    | _ => none
  else if a < 0xf8 then
    match s with
    | b :: c :: d :: _ =>
      if isTail b && isTail c && isTail d then
        scalar? 0x10000
          ((((a.toNat - 0xf0) * 64 + tailBits b) * 64 + tailBits c) * 64 + tailBits d)
      else none
    | _ => none
  else none

/-- The glyph that begins with the byte `a`, when `s` follows. -/
def lead (a : UInt8) (s : Bytes) : Glyph :=
  match lead? a s with
  | some c => char c
  | none => stray a

end Glyph

namespace Bytes

/-- The glyphs of a string whose first `skip` bytes belong to an earlier glyph. -/
def glyphsFrom : (skip : Nat) → Bytes → List Glyph
  | _, [] => []
  | skip + 1, _ :: s => glyphsFrom skip s
  | 0, a :: s => Glyph.lead a s :: glyphsFrom ((Glyph.lead a s).width - 1) s

/-- **The glyphs of a string**, from left to right. -/
def glyphs (s : Bytes) : List Glyph :=
  glyphsFrom 0 s

/-- How many glyphs a string has. -/
def glyphCount (s : Bytes) : Nat :=
  (glyphs s).length

/-- The string that a list of glyphs makes, each in its own bytes. -/
def ofGlyphs (rs : List Glyph) : Bytes :=
  rs.flatMap Glyph.bytes

/-- The string that a list of characters makes. -/
def ofChars (cs : List Char) : Bytes :=
  cs.flatMap String.utf8EncodeChar

/-- Whether a string is well-formed text throughout. -/
def isText (s : Bytes) : Bool :=
  (glyphs s).all Glyph.isChar

/-- The characters a string is shown as, one for each glyph. -/
def chars (s : Bytes) : List Char :=
  (glyphs s).map Glyph.toChar

/-- The string with every stray byte replaced by the replacement character. -/
def mended (s : Bytes) : Bytes :=
  ofChars (chars s)

end Bytes

end Scriptlet
