import Scriptlet.Bytes

/-!
# Reading whole numbers

Headers, protocol messages and command-line flags hold whole numbers of 64 bits. Reading one
has two ways to fail, and a reader is told which: the text is **malformed**, or the number
is **out of range**. Digits are taken from left to right, so a number that leaves the range of
64 unsigned bits is out of range whatever follows.

Flags also accept the literals of programming languages: a base in front (`0x`, `0o`, `0b`, or
a plain leading zero for base eight) and underscores between digits.
-/

namespace Scriptlet

/-- Why a text is no whole number. -/
inductive IntegerError where
  /-- It has a wrong form. -/
  | malformed
  /-- Its number does not fit. -/
  | outOfRange
  deriving DecidableEq, Repr

namespace Integer

/-- The value of a digit: a decimal digit, or a letter of either case from ten on. -/
def digit? (b : UInt8) : Option Nat :=
  if Bytes.isDigit b then some (b.toNat - 0x30)
  else
    let l := Bytes.toLower b
    if 0x61 ≤ l && l ≤ 0x7a then some (l.toNat - 0x61 + 10) else none

/-- The underscore. -/
def underscore : UInt8 := 0x5f

/-- The number that digits of a base denote after those of `n`, passing over underscores when
they are allowed. -/
def digits (base : Nat) (underscores : Bool) : (n : Nat) → Bytes → Except IntegerError Nat
  | n, [] => .ok n
  | n, b :: s =>
    if underscores && b == underscore then digits base underscores n s
    else match digit? b with
      | none => .error .malformed
      | some d =>
        if d < base then
          if base * n + d < Nat.pow 2 64 then digits base underscores (base * n + d) s
          else .error .outOfRange
        else .error .malformed

/-- The sign in front of a number, and the rest. -/
def sign (s : Bytes) : Bool × Bytes :=
  match s with
  | 0x2b :: r => (false, r)
  | 0x2d :: r => (true, r)
  | _ => (false, s)

/-- A magnitude with its sign, when it fits into 64 bits. -/
def signed (negative : Bool) (n : Nat) : Except IntegerError Int :=
  if negative then
    if n ≤ Nat.pow 2 63 then .ok (-(n : Int)) else .error .outOfRange
  else if n < Nat.pow 2 63 then .ok n else .error .outOfRange

/-- **Reads a decimal number** with an optional sign. -/
def read (s : Bytes) : Except IntegerError Int := do
  let (negative, r) := sign s
  if r.isEmpty then .error .malformed
  else signed negative (← digits 10 false 0 r)

/-- The base of a literal without its sign, and the digits after the mark of the base. -/
def base (s : Bytes) : Nat × Bytes :=
  match s with
  | 0x30 :: m :: d :: r =>
    let l := Bytes.toLower m
    if l == 0x62 then (2, d :: r)
    else if l == 0x6f then (8, d :: r)
    else if l == 0x78 then (16, d :: r)
    else (8, m :: d :: r)
  | 0x30 :: r => (8, r)
  | _ => (10, s)

/-- Whether a literal has a mark of its base other than a plain zero. -/
def hasMark (s : Bytes) : Bool :=
  match s with
  | 0x30 :: m :: _ =>
    let l := Bytes.toLower m
    l == 0x62 || l == 0x6f || l == 0x78
  | _ => false

/-- Whether every underscore stands after a digit and before one. -/
def separated : (afterDigit : Bool) → Bytes → Bool
  | _, [] => true
  | afterDigit, b :: s =>
    if b == underscore then
      afterDigit && (match s with
        | [] => false
        | c :: _ => c != underscore) && separated false s
    else separated true s

/-- Whether the underscores of a literal are where they may be: between digits, or between the
mark of the base and a digit. -/
def underscoresFit (s : Bytes) : Bool :=
  if hasMark s then separated true (s.drop 2) else separated false s

/-- **Reads a literal** with an optional sign. -/
def readLiteral (s : Bytes) : Except IntegerError Int := do
  let (negative, r) := sign s
  if r.isEmpty then .error .malformed
  else
    let (b, ds) := base r
    let n ← digits b true 0 ds
    if underscoresFit r then signed negative n else .error .malformed

end Integer

end Scriptlet
