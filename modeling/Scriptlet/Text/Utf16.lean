import Scriptlet.Text.Glyph

/-!
# Columns in UTF-16 units

Editors count columns in **UTF-16 units**: a character outside the basic plane takes two,
every other glyph one. The two functions here go between such columns and glyph columns on
one line. They are inverse to each other at the places where a glyph begins; a unit in the
middle of a pair belongs to the glyph after it.
-/

namespace Scriptlet

/-- How many UTF-16 units a glyph takes. -/
def Glyph.units : Glyph → Nat
  | .char c => if c.toNat < 0x10000 then 1 else 2
  | .stray _ => 1

/-- How many units the first `n` glyphs of a line take. Past the end of the line every
further glyph counts as one unit. -/
def unitsOfGlyphs : List Glyph → (n : Nat) → Nat
  | _, 0 => 0
  | [], n + 1 => n + 1
  | r :: rs, n + 1 => r.units + unitsOfGlyphs rs n

/-- How many glyphs of a line begin before its unit `units`. -/
def glyphsOfUnits : List Glyph → (units : Nat) → Nat
  | [], _ => 0
  | _ :: _, 0 => 0
  | r :: rs, u + 1 => glyphsOfUnits rs (u + 1 - r.units) + 1

/-- How many units the first `n` glyphs of the 0-based line `line` take. On a line that does not
exist, every glyph counts as one unit. -/
def unitsOnLine (lines : List (List Glyph)) (line n : Nat) : Nat :=
  unitsOfGlyphs (lines[line]?.getD []) n

/-- The unit at which the 1-based glyph column `column` of the 0-based line `line` begins. Columns
and units are numbers of 64 bits, and go round at the ends of their range. -/
def utf16Column (lines : List Bytes) (line : Nat) (column : Int64) : Int64 :=
  .ofNat (unitsOnLine (lines.map Bytes.glyphs) line (column - 1).toNatClampNeg)

end Scriptlet
