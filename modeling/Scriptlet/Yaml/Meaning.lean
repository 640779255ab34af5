import Scriptlet.Decimal.Integer
import Scriptlet.Decimal.Shortest
import Scriptlet.Yaml.Timestamp

/-!
# What a bare word means

YAML has no need of quotes around most texts, but some **bare words** do not mean
themselves: truth values and the absent value in their spellings, numbers in all notations,
dates, and words that older readers take for truth values or for numbers in base sixty. A text
that is such a word has to be quoted.
-/

namespace Scriptlet

namespace Yaml

/-- Words for truth values, the absent value, and the numbers without digits. -/
def reserved : List Bytes :=
  ["true", "True", "TRUE", "false", "False", "FALSE", "", "~", "null", "Null", "NULL",
   ".nan", ".NaN", ".NAN", ".inf", ".Inf", ".INF", "+.inf", "+.Inf", "+.INF",
   "-.inf", "-.Inf", "-.INF"].map Bytes.ofString

/-- Words that older readers take for truth values. -/
def oldTruthValues : List Bytes :=
  ["y", "Y", "yes", "Yes", "YES", "on", "On", "ON",
   "n", "N", "no", "No", "NO", "off", "Off", "OFF"].map Bytes.ofString

/-! ### Whole numbers -/

/-- Whether a text without sign is a whole number of 64 unsigned bits. -/
def isUnsigned (s : Bytes) : Bool :=
  let (base, digits) := Integer.base s
  !s.isEmpty && (Integer.digits base false 0 digits).toOption.isSome

/-- Whether a text is a whole number of 64 bits in a base, with an optional sign. -/
def isSigned (base : Nat) (s : Bytes) : Bool :=
  let (negative, digits) := Integer.sign s
  !digits.isEmpty &&
    ((Integer.digits base false 0 digits).bind (Integer.signed negative)).toOption.isSome

/-- Whether a text is a mark of a base with a signed number after it. -/
def isMarked (mark : String) (base : Nat) (s : Bytes) : Bool :=
  ((Bytes.after? (Bytes.ofString mark) s).map (isSigned base)).getD false

/-- Whether a text is a whole number in some notation. -/
def isInteger (s : Bytes) : Bool :=
  (Integer.readLiteral s).toOption.isSome || isUnsigned s || isMarked "0b" 2 s ||
    isMarked "0o" 8 s

/-! ### Numbers with a fraction or an exponent -/

/-- The digits of a number: those before the point, those after it, and the exponent. -/
structure Digits where
  /-- The digits before the point. -/
  whole : Bytes
  /-- The digits after the point. -/
  fraction : Bytes
  /-- The power of ten. -/
  exponent : Int

/-- The number that the digits of an exponent denote. Once it has come to ten thousand, further
digits do not count. -/
def exponentOf (digits : Bytes) : Nat :=
  digits.foldl (fun e b => if e < 10000 then 10 * e + Bytes.digitValue b else e) 0

/-- The exponent that ends a number; zero when nothing is left. -/
def exponent? (s : Bytes) : Option Int :=
  match s with
  | [] => some 0
  | e :: r =>
    if e == 0x65 || e == 0x45 then
      let (negative, digits) := Integer.sign r
      if digits.isEmpty || !digits.all Bytes.isDigit then none
      else if negative then some (-(exponentOf digits : Int)) else some (exponentOf digits)
    else none

/-- A number without its sign: digits on at least one side of the point, the point itself only
where digits stand before or after it, and an exponent. -/
def digits? (s : Bytes) : Option Digits :=
  let whole := s.takeWhile Bytes.isDigit
  match s.drop whole.length with
  | 0x2e :: r =>
    let fraction := r.takeWhile Bytes.isDigit
    if whole.isEmpty && fraction.isEmpty then none
    else (exponent? (r.drop fraction.length)).map (⟨whole, fraction, ·⟩)
  | r => if whole.isEmpty then none else (exponent? r).map (⟨whole, [], ·⟩)

/-- The least number that is rounded to an infinity: it lies half-way between the greatest
64-bit floating-point number and the next power of two. -/
def overflow : Nat := Nat.pow 2 1024 - Nat.pow 2 970

/-- The number of digits of `overflow`. -/
def overflowSize : Nat := 309

/-- The whole part of a number: its first `size` digits. -/
def wholeOf (digits : Bytes) (size : Nat) : Nat :=
  Bytes.toNat (digits.take size) * Nat.pow 10 (size - digits.length)

/-- Whether a number fits into 64-bit floating point. How many digits it has before the point tells
in most cases; else its whole part does. -/
def fits (d : Digits) : Bool :=
  let digits := (d.whole ++ d.fraction).dropWhile (· == 0x30)
  let size := digits.length + d.exponent - d.fraction.length
  if digits.isEmpty || size < overflowSize then true
  else if overflowSize < size then false
  else wholeOf digits overflowSize < overflow

/-- Whether a text is a number with a fraction or an exponent. -/
def isFloat (s : Bytes) : Bool :=
  ((digits? (Integer.sign s).2).map fits).getD false

/-- A text without its underscores. -/
def withoutUnderscores (s : Bytes) : Bytes :=
  s.filter (· != Integer.underscore)

/-- Whether a text that begins with a point is a number; underscores may stand between its
digits only. -/
def isPointFloat (s : Bytes) : Bool :=
  Integer.separated false s &&
    (s.zip s.tail).all (fun (a, b) =>
      (a != Integer.underscore || Bytes.isDigit b) &&
        (b != Integer.underscore || Bytes.isDigit a)) &&
    isFloat (withoutUnderscores s)

/-! ### Base sixty -/

/-- Groups of digits below sixty after colons, at least one, and an optional fraction. -/
def isSexagesimalTail : Bytes → (seen : Bool) → Bool
  | 0x3a :: a :: b :: s, _ =>
    if Bytes.isDigit a then
      if Bytes.isDigit b then a ≤ 0x35 && isSexagesimalTail s true
      else isSexagesimalTail (b :: s) true
    else false
  | [0x3a, a], _ => Bytes.isDigit a
  | 0x2e :: s, seen => seen && s.all fun b => Bytes.isDigit b || b == Integer.underscore
  | [], seen => seen
  | _, _ => false

/-- Whether a text is a number in base sixty. -/
def isSexagesimal (s : Bytes) : Bool :=
  let digits := (Integer.sign s).2
  match digits with
  | [] => false
  | d :: r =>
    Bytes.isDigit d &&
      isSexagesimalTail (r.dropWhile fun b => Bytes.isDigit b || b == Integer.underscore) false

/-! ### Bare words -/

/-- Whether a text that begins with a digit or a sign is a number or a date. -/
def isNumeric (s : Bytes) : Bool :=
  let plain := withoutUnderscores s
  isTimestamp s || isInteger plain || isFloat plain

/-- **Whether a bare word means itself.** -/
def isPlainWord (s : Bytes) : Bool :=
  match s with
  | [] => false
  | b :: _ =>
    let sign := b == 0x2b || b == 0x2d
    !reserved.contains s && !oldTruthValues.contains s && !isSexagesimal s &&
      !((Bytes.isDigit b || sign) && isNumeric s) && !(b == Bytes.dot && isPointFloat s)

end Yaml

end Scriptlet
