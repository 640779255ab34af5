import Scriptlet.Bytes
import Scriptlet.Decimal.Shortest

/-!
# Writing numbers

Every output format writes a number with the same digits, the shortest that read back, and
differs only in its **style**: which numbers are written out in full and which with an
exponent, how many digits an exponent has at least, and what stands for the numbers that
have no digits. A style is a record; each format declares its own beside its writer.
-/

namespace Scriptlet

/-- How a format writes numbers. -/
structure NumberStyle where
  /-- The least and the greatest exponent of a first digit that is written in full; other
  numbers get an exponent. No bounds: all are written in full. -/
  inFull : Option (Int × Int)
  /-- The least number of digits of an exponent. -/
  exponentDigits : Nat
  /-- What stands for a non-number. -/
  nan : Bytes
  /-- What stands for an infinity, by its sign. -/
  infinity : (negative : Bool) → Bytes

namespace Decimal

/-- The decimal digits of a natural number. -/
def digits (n : Nat) : Bytes :=
  Bytes.ofNat n

/-- A decimal written in full: without an exponent, with a point only before digits. -/
def inFull (d : Decimal) : Bytes :=
  let ds := digits d.significand
  let zero : UInt8 := 0x30
  if 0 ≤ d.exponent then ds ++ List.replicate d.exponent.toNat zero
  else
    let places := (-d.exponent).toNat
    let padded := List.replicate (places + 1 - ds.length) zero ++ ds
    padded.take (padded.length - places) ++ Bytes.dot :: padded.drop (padded.length - places)

/-- The exponent of a decimal's first digit. -/
def firstExponent (d : Decimal) : Int :=
  d.exponent + (digitCount d.significand - 1)

/-- An exponent: its sign, and at least `width` digits. -/
def exponentText (width : Nat) (e : Int) : Bytes :=
  let ds := digits e.natAbs
  (if e < 0 then Bytes.hyphen else 0x2b) :: List.replicate (width - ds.length) 0x30 ++ ds

/-- A decimal written with one digit before the point and an exponent. -/
def withExponent (width : Nat) (d : Decimal) : Bytes :=
  let tail := exponentText width d.firstExponent
  match digits d.significand with
  | [] => 0x65 :: tail
  | [first] => first :: 0x65 :: tail
  | first :: rest => first :: Bytes.dot :: rest ++ 0x65 :: tail

end Decimal

/-- A number in a given style. -/
def NumberStyle.write (style : NumberStyle) (x : Float) : Bytes :=
  match Binary.ofFloat x with
  | .nan => style.nan
  | .infinite negative => style.infinity negative
  | .finite negative m q =>
    let d := Decimal.shortest m q
    let text :=
      match style.inFull with
      | none => d.inFull
      | some (least, greatest) =>
        if least ≤ d.firstExponent ∧ d.firstExponent ≤ greatest then d.inFull
        else d.withExponent style.exponentDigits
    if negative then Bytes.hyphen :: text else text

end Scriptlet
