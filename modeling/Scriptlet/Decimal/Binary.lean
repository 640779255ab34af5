/-!
# Binary numbers taken apart

Numbers are 64-bit floating-point. To write one in decimal digits, or to use one as an
index, it is first **taken apart** into what its bits say: not a number, an infinity, or a
sign with a natural number `m` and an exponent `q`, standing for `m · 2^q` exactly. All
later work is on `m` and `q` in exact arithmetic.
-/

namespace Scriptlet

/-- What the bits of a floating-point number say. -/
inductive Binary where
  /-- Not a number. -/
  | nan
  /-- An infinity of either sign. -/
  | infinite (negative : Bool)
  /-- The number `m · 2^q`, negated when `negative`; zero has a sign too. -/
  | finite (negative : Bool) (m : Nat) (q : Int)
  deriving DecidableEq, Repr

namespace Binary

/-- The least exponent of a finite number. -/
def leastExponent : Int := -1074

/-- The number of a normal significand's hidden bit. -/
def hiddenBit : Nat := Nat.pow 2 52

/-- **A floating-point number taken apart.** -/
def ofFloat (x : Float) : Binary :=
  let bits := x.toBits.toNat
  let negative := bits / Nat.pow 2 63 == 1
  let field : Nat := bits / Nat.pow 2 52 % Nat.pow 2 11
  let fraction := bits % Nat.pow 2 52
  if field = Nat.pow 2 11 - 1 then
    if fraction = 0 then .infinite negative else .nan
  else if field = 0 then .finite negative fraction leastExponent
  else .finite negative (fraction + hiddenBit) (leastExponent + ((field : Int) - 1))

/-- The whole part of `m · 2^q`: what is left when the fraction is cut off. -/
def wholePart (m : Nat) (q : Int) : Nat :=
  m * Nat.pow 2 q.toNat / Nat.pow 2 (-q).toNat

end Binary

/-- The place in a sequence that a number names: its whole part, when the number is not
negative after cutting off the fraction. Infinities and non-numbers name no place. -/
def placeOf? (x : Float) : Option Nat :=
  match Binary.ofFloat x with
  | .finite negative m q =>
    let n := Binary.wholePart m q
    if negative && n != 0 then none else some n
  | _ => none

end Scriptlet
