import Scriptlet.Bytes

/-!
# Base 64

Bytes that are not text can be written as text in **base 64**: three bytes make four
characters of an alphabet of sixty-four, and an incomplete group at the end is filled up
with equals signs.
-/

namespace Scriptlet

namespace Base64

/-- The character for six bits. -/
def char (n : Nat) : UInt8 :=
  UInt8.ofNat
    (if n < 26 then 0x41 + n
    else if n < 52 then 0x61 + (n - 26)
    else if n < 62 then 0x30 + (n - 52)
    else if n = 62 then 0x2b
    else 0x2f)

/-- The sign that fills up the last group. -/
def filler : UInt8 := 0x3d

/-- **Bytes in base 64.** -/
def encode : Bytes → Bytes
  | [] => []
  | [a] => [char (a.toNat / 4), char (a.toNat % 4 * 16), filler, filler]
  | [a, b] =>
    [char (a.toNat / 4), char (a.toNat % 4 * 16 + b.toNat / 16), char (b.toNat % 16 * 4), filler]
  | a :: b :: c :: s =>
    char (a.toNat / 4) :: char (a.toNat % 4 * 16 + b.toNat / 16) ::
      char (b.toNat % 16 * 4 + c.toNat / 64) :: char (c.toNat % 64) :: encode s

end Base64

end Scriptlet
