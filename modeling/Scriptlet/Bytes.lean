/-!
# Byte strings

Scripts, the names and texts in them, and everything the tools print are **byte
strings**: a script may hold any bytes at all between two quotes, so nothing below
the level of a single rendered character may assume well-formed text. A byte string
is a list, which makes "what is left of the input" an ordinary tail and lets every
scanner be an ordinary recursion.

The operations here are the ones the tools share: literals, decimal numbers, looking
for a fixed beginning, cutting at a separator, joining, and trimming. Ordering is by
bytes, first difference first, which is the order in which names and paths are listed.
-/

namespace Scriptlet

/-- A string of bytes. -/
abbrev Bytes := List UInt8

namespace Bytes

/-! ### Literals -/

/-- The UTF-8 bytes of a text literal. -/
def ofString (s : String) : Bytes :=
  s.toList.flatMap String.utf8EncodeChar

/-- The line feed, which ends a line. -/
def newline : UInt8 := 0x0a

/-- The carriage return. -/
def carriageReturn : UInt8 := 0x0d

/-- The horizontal tab. -/
def tab : UInt8 := 0x09

/-- The blank. -/
def space : UInt8 := 0x20

/-- The double quote. -/
def doubleQuote : UInt8 := 0x22

/-- The backslash. -/
def backslash : UInt8 := 0x5c

/-- The colon. -/
def colon : UInt8 := 0x3a

/-- The hyphen, also the minus sign. -/
def hyphen : UInt8 := 0x2d

/-- The full stop. -/
def dot : UInt8 := 0x2e

/-- The solidus, which divides the parts of a path. -/
def slash : UInt8 := 0x2f

/-- `n` blanks. -/
def spaces (n : Nat) : Bytes :=
  List.replicate n space

/-! ### Classes of bytes -/

/-- A decimal digit. -/
def isDigit (b : UInt8) : Bool :=
  0x30 ≤ b && b ≤ 0x39

/-- A byte a name may hold: a lower-case letter or the underscore. -/
def isNameByte (b : UInt8) : Bool :=
  (0x61 ≤ b && b ≤ 0x7a) || b == 0x5f

/-- The lower-case form of an ASCII letter; every other byte is itself. -/
def toLower (b : UInt8) : UInt8 :=
  if 0x41 ≤ b && b ≤ 0x5a then b + 0x20 else b

/-- The value of a hexadecimal digit of either case. -/
def hexValue? (b : UInt8) : Option Nat :=
  if isDigit b then some (b.toNat - 0x30)
  else if 0x61 ≤ b && b ≤ 0x66 then some (b.toNat - 0x61 + 10)
  else if 0x41 ≤ b && b ≤ 0x46 then some (b.toNat - 0x41 + 10)
  else none

/-! ### Numbers in digits -/

/-- The digit `d`, for `d < 16`, with lower-case letters from ten on. -/
def hexDigit (d : Nat) : UInt8 :=
  UInt8.ofNat (if d < 10 then 0x30 + d else 0x57 + d)

/-- `n` in exactly `width` hexadecimal digits, the higher ones cut off. -/
def hex : (width : Nat) → (n : Nat) → Bytes
  | 0, _ => []
  | w + 1, n => hex w (n / 16) ++ [hexDigit (n % 16)]

/-- The digit of a byte that is a decimal digit. -/
def digitValue (b : UInt8) : Nat :=
  b.toNat - 0x30

/-- The number a run of decimal digits denotes; leading zeros do not matter. -/
def toNat (digits : Bytes) : Nat :=
  digits.foldl (fun n b => 10 * n + digitValue b) 0

/-- A number in decimal digits, without leading zeros. -/
def ofNat (n : Nat) : Bytes :=
  (Nat.toDigits 10 n).flatMap String.utf8EncodeChar

/-- A number in decimal digits, after a hyphen when it is negative. -/
def ofInt : Int → Bytes
  | .ofNat n => ofNat n
  | .negSucc n => hyphen :: ofNat (n + 1)

/-! ### Fixed beginnings and ends -/

/-- What follows `p` in `s`, when `s` begins with `p`. -/
def after? : (p s : Bytes) → Option Bytes
  | [], s => some s
  | _ :: _, [] => none
  | a :: p, b :: s => if a = b then after? p s else none

/-- `after?` finds exactly the ways to continue `p`. -/
theorem after?_eq_some_iff {p s r : Bytes} : after? p s = some r ↔ s = p ++ r := by
  induction p generalizing s with
  | nil => simp [after?]
  | cons a p ih =>
    cases s with
    | nil => simp [after?]
    | cons b s =>
      simp only [after?]
      split
      · rename_i hab
        rw [ih, hab]
        simp
      · rename_i hab
        simp only [reduceCtorEq, List.cons_append, List.cons.injEq, false_iff, not_and]
        exact fun hba => absurd hba.symm hab

/-- Whether `s` begins with `p`. -/
def beginsWith (s p : Bytes) : Bool :=
  (after? p s).isSome

theorem beginsWith_eq_true_iff {s p : Bytes} : beginsWith s p = true ↔ ∃ r, s = p ++ r := by
  simp [beginsWith, Option.isSome_iff_exists, after?_eq_some_iff]

/-- Whether `s` ends with `e`. -/
def endsWith (s e : Bytes) : Bool :=
  beginsWith s.reverse e.reverse

/-- `s` without one line feed at its end. A text file ends in one and a script does
not, so every tool that reads a file drops it. -/
def dropFinalNewline : Bytes → Bytes
  | [] => []
  | [b] => if b = newline then [] else [b]
  | a :: b :: s => a :: dropFinalNewline (b :: s)

/-! ### Cutting and joining -/

/-- The parts of `s` between occurrences of the byte `sep`; there is always one part
more than occurrences. -/
def parts (sep : UInt8) : Bytes → List Bytes
  | [] => [[]]
  | b :: s =>
    if b = sep then [] :: parts sep s
    else match parts sep s with
      | [] => [[b]]
      | part :: parts => (b :: part) :: parts

/-- The lines of a text: the parts between line feeds. -/
def lines (s : Bytes) : List Bytes :=
  parts newline s

/-- The parts in order, with `sep` between neighbours. -/
def join (sep : Bytes) : List Bytes → Bytes
  | [] => []
  | [part] => part
  | part :: parts => part ++ sep ++ join sep parts

theorem parts_ne_nil (sep : UInt8) (s : Bytes) : parts sep s ≠ [] := by
  cases s with
  | nil => simp [parts]
  | cons b s =>
    simp only [parts]
    split
    · simp
    · split <;> simp

theorem join_nil_cons (sep : Bytes) {ps : List Bytes} (h : ps ≠ []) :
    join sep ([] :: ps) = sep ++ join sep ps := by
  cases ps with
  | nil => exact absurd rfl h
  | cons p ps => rfl

theorem join_cons_head (sep : Bytes) (b : UInt8) (p : Bytes) (ps : List Bytes) :
    join sep ((b :: p) :: ps) = b :: join sep (p :: ps) := by
  cases ps <;> rfl

/-- Cutting a string into parts loses nothing. -/
theorem join_parts (sep : UInt8) (s : Bytes) : join [sep] (parts sep s) = s := by
  induction s with
  | nil => rfl
  | cons b s ih =>
    simp only [parts]
    split
    · rename_i hb
      rw [join_nil_cons [sep] (parts_ne_nil sep s), ih, hb]
      rfl
    · split
      · rename_i h
        exact absurd h (parts_ne_nil sep s)
      · rename_i p ps h
        rw [join_cons_head, ← h, ih]

/-- No part has a separator in it. -/
theorem not_mem_of_mem_parts {sep : UInt8} {s p : Bytes} (h : p ∈ parts sep s) : sep ∉ p := by
  induction s generalizing p with
  | nil =>
    simp only [parts, List.mem_singleton] at h
    simp [h]
  | cons b s ih =>
    simp only [parts] at h
    split at h
    · rcases List.mem_cons.1 h with rfl | h
      · simp
      · exact ih h
    · rename_i hb
      split at h
      · rename_i h'
        exact absurd h' (parts_ne_nil sep s)
      · rename_i q qs hq
        -- the byte goes to the front of the first part, and it is no separator
        rcases List.mem_cons.1 h with rfl | h
        · intro hmem
          rcases List.mem_cons.1 hmem with hmem | hmem
          · exact hb hmem.symm
          · exact ih (hq ▸ List.mem_cons_self) hmem
        · exact ih (hq ▸ List.mem_cons_of_mem q h)

/-- What stands before and after the first occurrence of the byte `sep`. -/
def cut? (sep : UInt8) : Bytes → Option (Bytes × Bytes)
  | [] => none
  | b :: s =>
    if b = sep then some ([], s)
    else (cut? sep s).map fun (before, rest) => (b :: before, rest)

/-- `s` with every occurrence of the pair of bytes `a b` replaced by the byte `c`,
from left to right. -/
def replacePair (a b c : UInt8) : Bytes → Bytes
  | [] => []
  | [x] => [x]
  | x :: y :: s =>
    if x = a ∧ y = b then c :: replacePair a b c s
    else x :: replacePair a b c (y :: s)

/-! ### Trimming -/

/-- `s` without the bytes at its end that satisfy `p`. -/
def trimEnd (p : UInt8 → Bool) (s : Bytes) : Bytes :=
  (s.reverse.dropWhile p).reverse

/-- A blank or a tab. -/
def isBlankOrTab (b : UInt8) : Bool :=
  b == space || b == tab

/-! ### Order -/

/-- The order of byte strings: the first byte in which they differ decides, and a
proper beginning comes first. -/
def order : (s t : Bytes) → Ordering
  | [], [] => .eq
  | [], _ :: _ => .lt
  | _ :: _, [] => .gt
  | a :: s, b :: t => if a < b then .lt else if b < a then .gt else order s t

/-- Two strings that compare equal are equal. -/
theorem order_eq_iff {s t : Bytes} : order s t = .eq ↔ s = t := by
  induction s generalizing t with
  | nil => cases t <;> simp [order]
  | cons a s ih =>
    cases t with
    | nil => simp [order]
    | cons b t =>
      simp only [order, List.cons.injEq]
      split
      · rename_i h
        simp only [reduceCtorEq, false_iff, not_and]
        rintro rfl
        exact absurd h (UInt8.lt_irrefl a)
      · split
        · rename_i h
          simp only [reduceCtorEq, false_iff, not_and]
          rintro rfl
          exact absurd h (UInt8.lt_irrefl a)
        · rename_i h h'
          have hab : a = b := UInt8.le_antisymm (UInt8.not_lt.1 h') (UInt8.not_lt.1 h)
          simp [hab, ih]

/-- Comparing the other way round gives the opposite answer. -/
theorem order_swap (s t : Bytes) : (order s t).swap = order t s := by
  induction s generalizing t with
  | nil => cases t <;> rfl
  | cons a s ih =>
    cases t with
    | nil => rfl
    | cons b t =>
      simp only [order]
      by_cases h : a < b
      · simp [h, UInt8.not_lt.2 (UInt8.le_of_lt h)]
      · by_cases h' : b < a
        · simp [h, h']
        · simp [h, h', ih]

/-- The order is transitive. -/
theorem order_lt_trans {s t u : Bytes} (h : order s t = .lt) (h' : order t u = .lt) :
    order s u = .lt := by
  induction s generalizing t u with
  | nil =>
    cases u with
    | nil => cases t <;> simp [order] at h h'
    | cons => rfl
  | cons a s ih =>
    cases t with
    | nil => simp [order] at h
    | cons b t =>
      cases u with
      | nil => simp [order] at h'
      | cons c u =>
        simp only [order] at h h' ⊢
        simp only [UInt8.lt_iff_toNat_lt] at *
        -- which of the heads is less decides, and where they are the same the rest does
        split at h
        · split at h'
          · rw [if_pos (by omega)]
          · split at h'
            · simp at h'
            · rw [if_pos (by omega)]
        · split at h
          · simp at h
          · split at h'
            · rw [if_pos (by omega)]
            · split at h'
              · simp at h'
              · rw [if_neg (by omega), if_neg (by omega)]
                exact ih h h'

end Bytes

end Scriptlet
