import Scriptlet.Decimal.Binary

/-!
# The shortest decimal that reads back

A floating-point number is shown by **the fewest decimal digits that read back as the
number**. Reading rounds to the nearest number, so the decimals that read back are those in
an interval around `m · 2^q` that reaches half-way to the two neighbours; its ends belong
to it exactly when `m` is even, because a tie is rounded to the even side. Just above a power
of two the lower neighbour is nearer, and so is the lower end.

The search goes from the coarsest grid of decimals to finer ones and takes the first grid
of which a point next to the number lies in the interval. When both points next to the
number do, the nearer one is taken, and of two equally near ones the even one.
-/

namespace Scriptlet

/-- The decimal `significand · 10^exponent`. -/
structure Decimal where
  /-- The digits, read as a natural number. -/
  significand : Nat
  /-- The power of ten that the last digit counts. -/
  exponent : Int
  deriving DecidableEq, Repr

namespace Decimal

/-- How `n · 10^k` compares with `b · 2^j`. -/
def compareBinary (n : Nat) (k : Int) (b : Nat) (j : Int) : Ordering :=
  compare (n * Nat.pow 10 k.toNat * Nat.pow 2 (-j).toNat)
    (b * Nat.pow 2 j.toNat * Nat.pow 10 (-k).toNat)

/-- The lower end of the decimals that read back as `m · 2^q`, in units of `2^(q-2)`. -/
def lowerEnd (m : Nat) (q : Int) : Nat :=
  if m = Binary.hiddenBit ∧ q ≠ Binary.leastExponent then 4 * m - 1 else 4 * m - 2

/-- The upper end of the decimals that read back as `m · 2^q`, in units of `2^(q-2)`. -/
def upperEnd (m : Nat) : Nat :=
  4 * m + 2

/-- Whether `n · 10^k` reads back as `m · 2^q`. -/
def readsBack (m : Nat) (q : Int) (n : Nat) (k : Int) : Bool :=
  let low := compareBinary n k (lowerEnd m q) (q - 2)
  let high := compareBinary n k (upperEnd m) (q - 2)
  if m % 2 = 0 then low != .lt && high != .gt else low == .gt && high == .lt

/-- The greatest `n` with `n · 10^k ≤ m · 2^q`. -/
def below (m : Nat) (q k : Int) : Nat :=
  m * Nat.pow 2 q.toNat * Nat.pow 10 (-k).toNat / (Nat.pow 2 (-q).toNat * Nat.pow 10 k.toNat)

/-- The point of the grid of multiples of `10^k` that reads back as `m · 2^q` and is
nearest to it, if one of the number's two neighbours on the grid reads back. -/
def onGrid? (m : Nat) (q k : Int) : Option Nat :=
  let n := below m q k
  match readsBack m q n k, readsBack m q (n + 1) k with
  | false, false => none
  | true, false => some n
  | false, true => some (n + 1)
  | true, true =>
    match compareBinary (2 * n + 1) k (2 * m) q with
    | .gt => some n
    | .lt => some (n + 1)
    | .eq => some (if n % 2 = 0 then n else n + 1)

/-- How many decimal digits a natural number has; zero has one. -/
def digitCount (n : Nat) : Nat :=
  (Nat.toDigits 10 n).length

/-- The exponent of the first decimal digit of `m · 2^q`, for `0 < m`. -/
def leadingExponent (m : Nat) (q : Int) : Int :=
  let num := m * Nat.pow 2 q.toNat
  let den := Nat.pow 2 (-q).toNat
  if den ≤ num then digitCount (num / den) - 1
  else -(digitCount ((den - 1) / num) : Int)

/-- The first grid with a point that reads back, looking at `steps` grids from `10^k` on
downwards. -/
def search (m : Nat) (q : Int) : (steps : Nat) → (k : Int) → Decimal
  | 0, k => ⟨below m q k, k⟩
  | steps + 1, k =>
    match onGrid? m q k with
    | some n => ⟨n, k⟩
    | none => search m q steps (k - 1)

/-- The decimal without zeros at its end, of which at most `steps` are taken away. -/
def stripZeros : (steps : Nat) → Decimal → Decimal
  | 0, d => d
  | steps + 1, d =>
    if d.significand ≠ 0 ∧ d.significand % 10 = 0 then
      stripZeros steps ⟨d.significand / 10, d.exponent + 1⟩
    else d

/-- **The shortest decimal that reads back as `m · 2^q`.** Seventeen digits always
suffice. -/
def shortest (m : Nat) (q : Int) : Decimal :=
  if m = 0 then ⟨0, 0⟩
  else stripZeros 17 (search m q 17 (leadingExponent m q))

end Decimal

end Scriptlet
