import Scriptlet.Text.Glyph

/-!
# White space

Commands and headers ignore **white space** around their words. The class is that of the
character standard: the control characters from tab to carriage return, the blank, the
next-line and no-break characters, and the typographic spaces and separators. A stray byte
is never white space.
-/

namespace Scriptlet

/-- Whether a character is white space. -/
def isBlank (c : Char) : Bool :=
  let v := c.toNat
  (0x09 ≤ v && v ≤ 0x0d) || v == 0x20 || v == 0x85 || v == 0xa0 || v == 0x1680 ||
    (0x2000 ≤ v && v ≤ 0x200a) || v == 0x2028 || v == 0x2029 || v == 0x202f ||
    v == 0x205f || v == 0x3000

/-- Whether a glyph is white space. -/
def Glyph.isBlank : Glyph → Bool
  | .char c => Scriptlet.isBlank c
  | .stray _ => false

namespace Bytes

/-- A text without the white space at both of its ends. -/
def trimmed (s : Bytes) : Bytes :=
  ofGlyphs ((((glyphs s).dropWhile Glyph.isBlank).reverse.dropWhile Glyph.isBlank).reverse)

/-- The first word of a text: the glyphs up to white space, after skipping leading white
space. -/
def firstWord (s : Bytes) : Bytes :=
  ofGlyphs (((glyphs s).dropWhile Glyph.isBlank).takeWhile fun r => !r.isBlank)

end Bytes

end Scriptlet
