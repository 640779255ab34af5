import Mathlib.Data.List.Basic
import Scriptlet.Decimal.Integer
import Scriptlet.Text.Blank

/-!
# Plain text

Numbers and names that go over a wire are **plain**: they are made of visible ASCII characters.
Two operations on texts, which have to be defined for all byte strings, are simple on these. A
number of 64 bits is what is read from its digits (`Scriptlet.Integer.read_ofNat`), and trimming
takes away the blanks before such a text and nothing else
(`Scriptlet.Bytes.trimmed_spaces_append`).

Digits are written from the last one backwards and read from the first one forwards; both are
brought to the same form, in which the last digit comes off the end.
-/

namespace Scriptlet

/-! ### Decimal numbers -/

namespace Bytes

theorem utf8EncodeChar_digitChar {d : Nat} (hd : d < 10) :
    String.utf8EncodeChar d.digitChar = [UInt8.ofNat (0x30 + d)] := by
  have hall : ∀ d < 10, String.utf8EncodeChar (Nat.digitChar d) = [UInt8.ofNat (0x30 + d)] := by
    decide
  exact hall d hd

theorem ofNat_of_lt {n : Nat} (hn : n < 10) : ofNat n = [UInt8.ofNat (0x30 + n)] := by
  rw [ofNat, Nat.toDigits_of_lt_base hn, List.flatMap_singleton, utf8EncodeChar_digitChar hn]

/-- The last digit comes off the end. -/
theorem ofNat_of_le {n : Nat} (hn : 10 ≤ n) :
    ofNat n = ofNat (n / 10) ++ [UInt8.ofNat (0x30 + n % 10)] := by
  have hlast : n % 10 < 10 := Nat.mod_lt n (by omega)
  rw [ofNat, Nat.toDigits_of_base_le (by omega) hn, List.flatMap_append, List.flatMap_singleton,
    utf8EncodeChar_digitChar hlast]
  rfl

theorem ofNat_ne_nil (n : Nat) : ofNat n ≠ [] := by
  rcases Nat.lt_or_ge n 10 with hn | hn
  · simp [ofNat_of_lt hn]
  · simp [ofNat_of_le hn]

theorem isDigit_of_mem_ofNat {n : Nat} {b : UInt8} (hb : b ∈ ofNat n) : isDigit b = true := by
  have hdigit : ∀ d < 10, isDigit (UInt8.ofNat (0x30 + d)) = true := by decide
  induction n using Nat.strongRecOn with
  | ind n ih =>
    rcases Nat.lt_or_ge n 10 with hn | hn
    · rw [ofNat_of_lt hn, List.mem_singleton] at hb
      exact hb ▸ hdigit n hn
    · rw [ofNat_of_le hn] at hb
      rcases List.mem_append.1 hb with hb | hb
      · exact ih (n / 10) (by omega) hb
      · rw [List.mem_singleton.1 hb]
        exact hdigit (n % 10) (by omega)

end Bytes

namespace Integer

/-- Digits are read from left to right, so those of two texts in a row one after the other. -/
theorem digits_append (base : Nat) (underscores : Bool) (n : Nat) (s t : Bytes) :
    digits base underscores n (s ++ t) =
      (digits base underscores n s).bind fun m => digits base underscores m t := by
  induction s generalizing n with
  | nil => rfl
  | cons b s ih =>
    rw [List.cons_append, digits, digits]
    split
    · exact ih n
    · split
      · rfl
      · split
        · split
          · exact ih _
          · rfl
        · rfl

/-- One more digit of base ten. -/
theorem digits_digit {n d : Nat} (hd : d < 10) (h : 10 * n + d < Nat.pow 2 64) :
    digits 10 false n [UInt8.ofNat (0x30 + d)] = .ok (10 * n + d) := by
  have hvalue : ∀ d < 10, digit? (UInt8.ofNat (0x30 + d)) = some d := by decide
  simp only [digits, hvalue d hd, Bool.false_and, Bool.false_eq_true, if_false, if_pos hd, if_pos h]

/-- The digits of a number are read as the number. -/
theorem digits_ofNat {n : Nat} (h : n < Nat.pow 2 64) :
    digits 10 false 0 (Bytes.ofNat n) = .ok n := by
  induction n using Nat.strongRecOn with
  | ind n ih =>
    rcases Nat.lt_or_ge n 10 with hn | hn
    · rw [Bytes.ofNat_of_lt hn, digits_digit hn (by omega)]
      simp
    · have hfront : digits 10 false 0 (Bytes.ofNat (n / 10)) = .ok (n / 10) :=
        ih (n / 10) (by omega) (by omega)
      rw [Bytes.ofNat_of_le hn, digits_append, hfront]
      show digits 10 false (n / 10) _ = _
      rw [digits_digit (by omega) (by omega), show 10 * (n / 10) + n % 10 = n by omega]

/-- A number of 64 bits is read back from its digits. -/
theorem read_ofNat {n : Nat} (h : n < Nat.pow 2 63) : read (Bytes.ofNat n) = .ok n := by
  -- The first byte is a digit, so it is not taken for a sign.
  have hsign : sign (Bytes.ofNat n) = (false, Bytes.ofNat n) := by
    unfold sign
    split
    · rename_i r hr
      have hb : (0x2b : UInt8) ∈ Bytes.ofNat n := hr ▸ List.mem_cons_self
      exact absurd (Bytes.isDigit_of_mem_ofNat hb) (by decide)
    · rename_i r hr
      have hb : (0x2d : UInt8) ∈ Bytes.ofNat n := hr ▸ List.mem_cons_self
      exact absurd (Bytes.isDigit_of_mem_ofNat hb) (by decide)
    · rfl
  have hdigits : digits 10 false 0 (Bytes.ofNat n) = .ok n :=
    digits_ofNat (Nat.lt_trans h (by decide))
  have hempty : (Bytes.ofNat n).isEmpty = false := by
    simp [Bytes.ofNat_ne_nil]
  simp only [read, hsign, hempty, hdigits]
  show signed false n = _
  rw [signed, if_neg (by simp), if_pos h]

end Integer

/-! ### Trimming plain text -/

/-- A visible ASCII character. -/
def isVisible (b : UInt8) : Bool :=
  0x21 ≤ b && b ≤ 0x7e

theorem isVisible_of_isDigit {b : UInt8} (hb : Bytes.isDigit b = true) : isVisible b = true := by
  simp only [Bytes.isDigit, isVisible, Bool.and_eq_true, decide_eq_true_eq] at *
  exact ⟨UInt8.le_trans (by decide) hb.1, UInt8.le_trans hb.2 (by decide)⟩

namespace Bytes

/-- The character of an ASCII byte. -/
def asciiChar (b : UInt8) : Char :=
  Char.ofNat b.toNat

theorem isValidChar_of_lt {b : UInt8} (hb : b < 0x80) : b.toNat.isValidChar := by
  rw [UInt8.lt_iff_toNat_lt] at hb
  exact .inl (Nat.lt_trans hb (by decide))

theorem toNat_asciiChar {b : UInt8} (hb : b < 0x80) : (asciiChar b).toNat = b.toNat := by
  rw [asciiChar, Char.ofNat, dif_pos (isValidChar_of_lt hb)]
  rfl

theorem utf8Size_asciiChar {b : UInt8} (hb : b < 0x80) : (asciiChar b).utf8Size = 1 := by
  rw [Char.utf8Size_eq_one_iff, UInt32.le_iff_toNat_le]
  show (asciiChar b).toNat ≤ 127
  rw [toNat_asciiChar hb]
  rw [UInt8.lt_iff_toNat_lt] at hb
  exact Nat.le_of_lt_succ hb

/-- A plain byte is a character of its own. -/
theorem utf8EncodeChar_asciiChar {b : UInt8} (hb : b < 0x80) :
    String.utf8EncodeChar (asciiChar b) = [b] := by
  rw [String.utf8EncodeChar_eq_singleton (utf8Size_asciiChar hb)]
  show [UInt8.ofNat (asciiChar b).toNat] = [b]
  rw [toNat_asciiChar hb, UInt8.ofNat_toNat]

theorem lead_of_lt {b : UInt8} (hb : b < 0x80) (s : Bytes) :
    Glyph.lead b s = .char (asciiChar b) := by
  have hvalid := isValidChar_of_lt hb
  have hscalar : Glyph.scalar? 0 b.toNat = some (asciiChar b) := by
    rw [Glyph.scalar?, dif_pos hvalid, if_pos (Nat.zero_le _), asciiChar, Char.ofNat,
      dif_pos hvalid]
  unfold Glyph.lead Glyph.lead?
  rw [if_pos hb, hscalar]

/-- An ASCII byte is a glyph of its own. -/
theorem glyphs_cons_of_lt {b : UInt8} (hb : b < 0x80) (s : Bytes) :
    glyphs (b :: s) = .char (asciiChar b) :: glyphs s := by
  have hwidth : (Glyph.char (asciiChar b)).width - 1 = 0 := by
    rw [Glyph.width, utf8Size_asciiChar hb]
  rw [glyphs, glyphsFrom, lead_of_lt hb, hwidth]
  rfl

/-- A text of plain bytes has one glyph for each of them. -/
theorem glyphs_of_ascii {s : Bytes} (hs : ∀ b ∈ s, b < 0x80) :
    glyphs s = s.map fun b => .char (asciiChar b) := by
  induction s with
  | nil => rfl
  | cons b s ih =>
    have htail : glyphs s = s.map fun b => .char (asciiChar b) :=
      ih fun c hc => hs c (List.mem_cons_of_mem b hc)
    rw [glyphs_cons_of_lt (hs b List.mem_cons_self), htail, List.map_cons]

theorem ofGlyphs_ascii {s : Bytes} (hs : ∀ b ∈ s, b < 0x80) :
    ofGlyphs (s.map fun b => .char (asciiChar b)) = s := by
  rw [ofGlyphs, List.flatMap_map]
  calc s.flatMap (fun b => (Glyph.char (asciiChar b)).bytes) = s.flatMap fun b => [b] :=
        List.flatMap_congr fun b hb => utf8EncodeChar_asciiChar (hs b hb)
    _ = s := List.flatMap_singleton' s

theorem isBlank_asciiChar {b : UInt8} (hb : isVisible b = true) :
    Glyph.isBlank (.char (asciiChar b)) = false := by
  simp only [isVisible, Bool.and_eq_true, decide_eq_true_eq, UInt8.le_iff_toNat_le] at hb
  obtain ⟨hlow, hhigh⟩ : 0x21 ≤ b.toNat ∧ b.toNat ≤ 0x7e := hb
  have hascii : b < 0x80 := UInt8.lt_iff_toNat_lt.2 (Nat.lt_of_le_of_lt hhigh (by decide))
  simp only [Glyph.isBlank, Scriptlet.isBlank, toNat_asciiChar hascii, Bool.or_eq_false_iff,
    Bool.and_eq_false_iff, decide_eq_false_iff_not, beq_eq_false_iff_ne]
  omega

theorem dropWhile_isBlank {rs : List Glyph} (h : ∀ r ∈ rs, r.isBlank = false) :
    rs.dropWhile Glyph.isBlank = rs := by
  cases rs with
  | nil => rfl
  | cons r rs => rw [List.dropWhile_cons, h r List.mem_cons_self, if_neg (by simp)]

/-- Text of visible characters has nothing to trim but the blanks before it. -/
theorem trimmed_spaces_append (k : Nat) {s : Bytes} (hs : ∀ b ∈ s, isVisible b = true) :
    trimmed (spaces k ++ s) = s := by
  have hvisible : ∀ b ∈ s, b < 0x80 := fun b hb => by
    have h := hs b hb
    simp only [isVisible, Bool.and_eq_true, decide_eq_true_eq] at h
    exact UInt8.lt_of_le_of_lt h.2 (by decide)
  have hascii : ∀ b ∈ spaces k ++ s, b < 0x80 := by
    intro b hb
    rcases List.mem_append.1 hb with hb | hb
    · rw [List.eq_of_mem_replicate hb]
      decide
    · exact hvisible b hb
  -- blanks go from the front, and nothing else goes from either end
  have hsolid : ∀ r ∈ s.map fun b => Glyph.char (asciiChar b), r.isBlank = false := by
    intro r hr
    obtain ⟨b, hb, rfl⟩ := List.mem_map.1 hr
    exact isBlank_asciiChar (hs b hb)
  have hfront : ∀ r ∈ (spaces k).map fun b => Glyph.char (asciiChar b), r.isBlank = true := by
    intro r hr
    obtain ⟨b, hb, rfl⟩ := List.mem_map.1 hr
    rw [List.eq_of_mem_replicate hb]
    decide
  rw [trimmed, glyphs_of_ascii hascii, List.map_append, List.dropWhile_append_of_pos hfront,
    dropWhile_isBlank hsolid, dropWhile_isBlank fun r hr => hsolid r (List.mem_reverse.1 hr),
    List.reverse_reverse, ofGlyphs_ascii hvisible]

end Bytes

end Scriptlet
