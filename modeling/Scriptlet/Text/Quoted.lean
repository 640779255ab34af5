import Scriptlet.Text.Glyph
import Scriptlet.Text.Printable

/-!
# Quoted text

The **quoted form** of a text shows it on one line, between double quotes, so that no two
texts look the same: printable characters stand as they are, the quote and the backslash
after a backslash, seven control characters by a letter, and everything else by its code
in hexadecimal. A stray byte is written by its two digits, which no character needs, since
characters with codes from U+0080 on are written with four digits or eight.
-/

namespace Scriptlet

/-- The letter that stands for a control character after a backslash. -/
def controlLetter? (c : Char) : Option Char :=
  match c.toNat with
  | 0x07 => some 'a'
  | 0x08 => some 'b'
  | 0x0c => some 'f'
  | 0x0a => some 'n'
  | 0x0d => some 'r'
  | 0x09 => some 't'
  | 0x0b => some 'v'
  | _ => none

/-- A character that is not printable, written by a letter or by its code. -/
def escapedChar (c : Char) : Bytes :=
  match controlLetter? c with
  | some letter => Bytes.ofChars ['\\', letter]
  | none =>
    let v := c.toNat
    if v < 0x80 then Bytes.ofString "\\x" ++ Bytes.hex 2 v
    else if v < 0x10000 then Bytes.ofString "\\u" ++ Bytes.hex 4 v
    else Bytes.ofString "\\U" ++ Bytes.hex 8 v

/-- One glyph as it stands between the quotes. -/
def Glyph.quoted : Glyph → Bytes
  | .stray b => Bytes.ofString "\\x" ++ Bytes.hex 2 b.toNat
  | .char c =>
    if c = '"' ∨ c = '\\' then Bytes.ofChars ['\\', c]
    else if isPrintable c then String.utf8EncodeChar c
    else escapedChar c

/-- **The quoted form of a text.** -/
def Bytes.quoted (s : Bytes) : Bytes :=
  doubleQuote :: (glyphs s).flatMap Glyph.quoted ++ [doubleQuote]

end Scriptlet
