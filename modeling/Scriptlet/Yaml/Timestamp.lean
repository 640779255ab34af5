import Scriptlet.Bytes

/-!
# Texts that are dates

A text of the form of a **date**, alone or with a time of day, would be read back as a point in
time and not as a text. The forms are a year of four digits, a month and a day of one or two,
then nothing; or `T`, `t` and a time with a zone; or blanks and a time without one. A time may
have a fraction. All numbers must be in range, the day also for its month.
-/

namespace Scriptlet

namespace Timestamp

/-- A number of one or two digits, and what follows. -/
def number? (s : Bytes) : Option (Nat × Bytes) :=
  match s with
  | a :: b :: r =>
    if Bytes.isDigit a then
      if Bytes.isDigit b then some (10 * Bytes.digitValue a + Bytes.digitValue b, r)
      else some (Bytes.digitValue a, b :: r)
    else none
  | [a] => if Bytes.isDigit a then some (Bytes.digitValue a, []) else none
  | [] => none

/-- A number of one or two digits below a bound, and what follows. -/
def below? (bound : Nat) (s : Bytes) : Option (Nat × Bytes) :=
  (number? s).bind fun (n, r) => if n < bound then some (n, r) else none

/-- What follows a given byte. -/
def past? (b : UInt8) (s : Bytes) : Option Bytes :=
  Bytes.after? [b] s

/-- Whether a year is a leap year. -/
def isLeap (year : Nat) : Bool :=
  year % 4 == 0 && (year % 100 != 0 || year % 400 == 0)

/-- How many days a month has. -/
def daysIn (year month : Nat) : Nat :=
  if month = 2 then if isLeap year then 29 else 28
  else if month = 4 ∨ month = 6 ∨ month = 9 ∨ month = 11 then 30
  else 31

/-- A date, and what follows. -/
def date? (s : Bytes) : Option Bytes := do
  let year := s.takeWhile Bytes.isDigit
  if year.length ≠ 4 then none
  let s ← past? Bytes.hyphen (s.drop 4)
  let (month, s) ← below? 13 s
  let s ← past? Bytes.hyphen s
  let (day, s) ← number? s
  if 1 ≤ month ∧ 1 ≤ day ∧ day ≤ daysIn (Bytes.toNat year) month then some s else none

/-- What follows a fraction, which may be absent. -/
def dropFraction (s : Bytes) : Bytes :=
  match s with
  | p :: d :: r =>
    if (p == Bytes.dot || p == 0x2c) && Bytes.isDigit d then r.dropWhile Bytes.isDigit else s
  | _ => s

/-- A time of day, and what follows. -/
def time? (s : Bytes) : Option Bytes := do
  let (_, s) ← below? 24 s
  let s ← past? Bytes.colon s
  let (_, s) ← below? 60 s
  let s ← past? Bytes.colon s
  let (_, s) ← below? 60 s
  some (dropFraction s)

/-- Two digits that make a number below a bound. -/
def pairBelow (bound : Nat) (a b : UInt8) : Bool :=
  Bytes.isDigit a && Bytes.isDigit b &&
    10 * Bytes.digitValue a + Bytes.digitValue b < bound

/-- Whether a text is a time zone. -/
def isZone (s : Bytes) : Bool :=
  match s with
  | [0x5a] => true
  | [sign, a, b, colon, c, d] =>
    (sign == 0x2b || sign == 0x2d) && colon == Bytes.colon && pairBelow 25 a b &&
      pairBelow 61 c d
  | _ => false

end Timestamp

open Timestamp in
/-- **Whether a text would be read as a point in time.** -/
def isTimestamp (s : Bytes) : Bool :=
  match date? s with
  | none => false
  | some [] => true
  | some (b :: r) =>
    if b == 0x54 || b == 0x74 then ((time? r).map isZone).getD false
    else if b == Bytes.space then
      ((time? (r.dropWhile (· == Bytes.space))).map List.isEmpty).getD false
    else false

end Scriptlet
