import Mathlib.Order.WellFounded
import Scriptlet.Proofs.Text.Columns

/-!
# Columns in units and columns in glyphs

Two walks over a line go between its glyphs and its UTF-16 units. They have been written apart from
each other, but belong together: a unit is at most where glyph `k` begins exactly when its glyph is
at most `k`, as long as there is a glyph `k` (`glyphsOfUnits_le_iff`). All that is to be known about
the way from units to glyphs follows from this, as the way from glyphs to units is strictly
increasing.

What a unit is, is told by the **UTF-16 form** of a glyph (`Glyph.utf16`), which has one unit, or a
pair of them. Only the second of a pair is a low surrogate, so such units are those in the middle of
a glyph.

The unit of a column is a number of 64 bits. It is the right one on the whole line, since a line
has no more units than bytes. But columns go on past the end of the line, and there the units come
to the end of their range before the columns do, if the line has more than one pair in it. From
there on they are negative (`utf16Column_goes_round`).
-/

namespace Scriptlet

/-! ### UTF-16 forms -/

/-- **The UTF-16 form** of a glyph: its code, or a pair of surrogates with ten bits of the code
each. A stray byte counts as the replacement character. -/
def Glyph.utf16 (r : Glyph) : List UInt16 :=
  let code := r.toChar.toNat
  if code < 0x10000 then [.ofNat code]
  else [.ofNat (0xd800 + (code - 0x10000) / 0x400), .ofNat (0xdc00 + (code - 0x10000) % 0x400)]

/-- The UTF-16 form of a line. -/
def utf16 (rs : List Glyph) : List UInt16 :=
  rs.flatMap Glyph.utf16

/-- A unit is the second one of a pair. -/
def IsLowSurrogate (w : UInt16) : Prop :=
  0xdc00 ≤ w.toNat ∧ w.toNat < 0xe000

section Forms

variable {rs : List Glyph} {r : Glyph} {w : UInt16} {i u : Nat}

theorem Glyph.length_utf16 (r : Glyph) : r.utf16.length = r.units := by
  cases r with
  | char c =>
    rw [utf16, units, toChar]
    split <;> rfl
  | stray b => rfl

/-- No glyph takes more units than bytes. -/
theorem Glyph.units_le_width (r : Glyph) : r.units ≤ r.width := by
  cases r with
  | char c =>
    rw [units, width]
    split
    · exact c.utf8Size_pos
    · rename_i hc
      have hfour : c.utf8Size = 4 := Char.utf8Size_eq_four_iff.2 <|
        UInt32.lt_iff_toNat_lt.2 (Nat.le_of_not_lt hc)
      rw [hfour]
      decide
  | stray b => exact Nat.le_refl _

/-- In the form of a glyph, a low surrogate is the second unit of a pair: the other units are high
surrogates, or the codes of characters, which are no surrogates. -/
theorem Glyph.eq_one_of_isLowSurrogate (h : r.utf16[i]? = some w) (hw : IsLowSurrogate w) :
    i = 1 := by
  have hvalid : r.toChar.toNat < 0xd800 ∨ 0xdfff < r.toChar.toNat ∧ r.toChar.toNat < 0x110000 :=
    r.toChar.valid
  rw [IsLowSurrogate] at hw
  rw [utf16] at h
  split at h
  · obtain ⟨rfl, rfl⟩ : i = 0 ∧ .ofNat r.toChar.toNat = w := by
      rcases i with _ | i <;> simp_all
    rw [UInt16.toNat_ofNat_of_lt' (by assumption)] at hw
    omega
  · rcases i with _ | _ | i
    · obtain rfl := Option.some.inj h
      have hhigh : 0xd800 + (r.toChar.toNat - 0x10000) / 0x400 < 0xdc00 := by omega
      rw [UInt16.toNat_ofNat_of_lt' (Nat.lt_trans hhigh (by decide))] at hw
      omega
    · rfl
    · cases h

/-- **Units are those of the UTF-16 form**, and past the end of the line there is one for each
place. -/
theorem unitsOfGlyphs_eq (rs : List Glyph) (n : Nat) :
    unitsOfGlyphs rs n = (utf16 (rs.take n)).length + (n - rs.length) := by
  induction rs generalizing n with
  | nil => cases n <;> simp [unitsOfGlyphs, utf16]
  | cons r rs ih =>
    cases n with
    | zero => simp [unitsOfGlyphs, utf16]
    | succ n =>
      rw [unitsOfGlyphs, ih, List.take_succ_cons, utf16, utf16, List.flatMap_cons,
        List.length_append, r.length_utf16, List.length_cons, Nat.add_sub_add_right, Nat.add_assoc]

theorem unitsOfGlyphs_le_size (rs : List Glyph) (n : Nat) :
    unitsOfGlyphs rs n ≤ sizeOfGlyphs rs + (n - rs.length) := by
  induction rs generalizing n with
  | nil => cases n <;> simp [unitsOfGlyphs]
  | cons r rs ih =>
    cases n with
    | zero => exact Nat.zero_le _
    | succ n =>
      have hunits := r.units_le_width
      have hrest := ih n
      rw [unitsOfGlyphs, sizeOfGlyphs, List.length_cons]
      omega

/-- **A low surrogate stands in the middle of a glyph.** -/
theorem exists_glyph_of_isLowSurrogate (h : (utf16 rs)[u]? = some w) (hw : IsLowSurrogate w) :
    ∃ k < rs.length, u = unitsOfGlyphs rs k + 1 := by
  induction rs generalizing u with
  | nil => cases h
  | cons r rs ih =>
    rw [utf16, List.flatMap_cons, ← utf16] at h
    -- The unit is one of the first glyph, or one of the others.
    by_cases hu : u < r.utf16.length
    · rw [List.getElem?_append_left hu] at h
      exact ⟨0, Nat.zero_lt_succ _, Glyph.eq_one_of_isLowSurrogate h hw⟩
    · rw [List.getElem?_append_right (Nat.le_of_not_lt hu), r.length_utf16] at h
      rw [r.length_utf16] at hu
      obtain ⟨k, hk, heq⟩ := ih h
      refine ⟨k + 1, Nat.succ_lt_succ hk, ?_⟩
      rw [unitsOfGlyphs]
      omega

end Forms

/-! ### From units to glyphs -/

section Glyphs

variable {rs : List Glyph} {u v k : Nat}

theorem glyphsOfUnits_le (rs : List Glyph) (u : Nat) : glyphsOfUnits rs u ≤ rs.length :=
  glyphsOfUnits_le_iff.2 (.inr (Nat.le_refl _))

theorem glyphsOfUnits_mono (h : u ≤ v) : glyphsOfUnits rs u ≤ glyphsOfUnits rs v :=
  glyphsOfUnits_le_iff.2 <|
    (glyphsOfUnits_le_iff.1 (Nat.le_refl _)).imp_left (Nat.le_trans h)

/-- **A unit after the first one of a glyph** belongs to the glyph after it. -/
theorem glyphsOfUnits_succ (hk : k < rs.length) :
    glyphsOfUnits rs (unitsOfGlyphs rs k + 1) = k + 1 := by
  refine Nat.le_antisymm ?_ (Nat.succ_le_of_lt (Nat.lt_of_not_le fun hle => ?_))
  · exact glyphsOfUnits_le_iff.2 (.inl (unitsOfGlyphs_lt_succ rs k))
  · rcases glyphsOfUnits_le_iff.1 hle with hunits | hlength
    · exact Nat.not_succ_le_self _ hunits
    · exact Nat.not_le_of_lt hk hlength

end Glyphs

/-! ### Numbers of 64 bits -/

/-- How many UTF-16 units stand before a column of a line; past its end there is one for each
column. -/
def unitsBefore (line : Bytes) (column : Int64) : Nat :=
  let rs := Bytes.glyphs line
  let n := column.toNatClampNeg - 1
  (utf16 (rs.take n)).length + (n - rs.length)

section Words

variable {line : Bytes} {c d : Int64} {k m n : Nat}

theorem unitsBefore_eq (line : Bytes) (c : Int64) :
    unitsBefore line c = unitsOfGlyphs (Bytes.glyphs line) (c.toNatClampNeg - 1) :=
  (unitsOfGlyphs_eq _ _).symm

/-- **The unit of a column** on a line alone, up to the range of numbers. -/
theorem utf16Column_eq (hc : 1 ≤ c) :
    utf16Column [line] 0 c = .ofNat (unitsBefore line c) := by
  have hn : (c - 1).toNatClampNeg = c.toNatClampNeg - 1 :=
    Int64.toNatClampNeg_sub_of_le (by decide) hc
  rw [unitsBefore_eq, ← hn]
  rfl

theorem utf16Column_succ (hk : k < Nat.pow 2 63) :
    utf16Column [line] 0 (.ofNat (k + 1)) = .ofNat (unitsOfGlyphs (Bytes.glyphs line) k) := by
  have hn : (Int64.ofNat (k + 1) - 1).toNatClampNeg = k := by
    have hone : Int64.ofNat 1 = 1 := rfl
    rw [Int64.ofNat_add, hone, Int64.add_sub_cancel]
    exact Int64.toNatClampNeg_ofNat_of_lt hk
  rw [utf16Column, hn]
  rfl

theorem unitsOfGlyphs_le_length (hk : k ≤ (Bytes.glyphs line).length) :
    unitsOfGlyphs (Bytes.glyphs line) k ≤ line.length := by
  have hsize := unitsOfGlyphs_le_size (Bytes.glyphs line) k
  rwa [Nat.sub_eq_zero_of_le hk, Nat.add_zero, Bytes.sizeOfGlyphs_glyphs] at hsize

theorem unitsBefore_lt (hc : 1 ≤ c) (h : c < d) : unitsBefore line c < unitsBefore line d := by
  have hone : (1 : Int64).toInt = 1 := rfl
  rw [Int64.le_iff_toInt_le, hone] at hc
  rw [Int64.lt_iff_toInt_lt] at h
  rw [unitsBefore_eq, unitsBefore_eq]
  refine unitsOfGlyphs_strictMono _ ?_
  rw [Int64.toNatClampNeg, Int64.toNatClampNeg]
  omega

/-- There are fewer units than twice the positive range of numbers: up to the end of a line no more
than bytes, and past it no more than columns. -/
theorem unitsBefore_lt_size (hline : line.length < Nat.pow 2 63) (c : Int64) :
    unitsBefore line c < Nat.pow 2 64 := by
  have hsize := unitsOfGlyphs_le_size (Bytes.glyphs line) (c.toNatClampNeg - 1)
  have hc := c.toNatClampNeg_lt
  rw [Bytes.sizeOfGlyphs_glyphs] at hsize
  rw [unitsBefore_eq]
  simp only [Nat.pow_eq] at *
  omega

/-- Two numbers that go round once at most keep their order, unless the greater one alone goes
round. -/
theorem ofNat_lt_ofNat_iff (h : m < n) (hn : n < Nat.pow 2 64) :
    Int64.ofNat m < Int64.ofNat n ↔ n < Nat.pow 2 63 ∨ Nat.pow 2 63 ≤ m := by
  have hsize : Int64.size = 18446744073709551616 := rfl
  -- Going round takes `2 ^ 64` off the numbers from `2 ^ 63` on.
  rw [Int64.lt_iff_toInt_lt, Int64.toInt_ofNat', Int64.toInt_ofNat', hsize, Int.bmod_def,
    Int.bmod_def]
  simp only [Nat.pow_eq] at *
  omega

end Words

/-- **Columns in units and columns in glyphs.** On a line of any bytes, no more than there can be in
a text:

* The unit of the column of a glyph, or of the end of the line, is that of this glyph.
* Of two columns the later one has the greater unit, also past the end of the line, unless its unit,
  and not that of the earlier one, is beyond the range of numbers.
* A later unit, also a negative one, never belongs to an earlier glyph. It belongs to a glyph of the
  line or to its end.
* A unit that is a low surrogate stands after the first unit of a glyph, and belongs to the next
  one. -/
theorem utf16Column_inverse (line : Bytes) (hline : line.length < Nat.pow 2 63) :
    let rs := Bytes.glyphs line
    (∀ k ≤ rs.length,
      glyphsOfUnits rs (utf16Column [line] 0 (.ofNat (k + 1))).toNatClampNeg = k) ∧
    (∀ c d : Int64, 1 ≤ c → c < d →
      (utf16Column [line] 0 c < utf16Column [line] 0 d ↔
        unitsBefore line d < Nat.pow 2 63 ∨ Nat.pow 2 63 ≤ unitsBefore line c)) ∧
    (∀ u v : Int, u ≤ v → glyphsOfUnits rs u.toNat ≤ glyphsOfUnits rs v.toNat) ∧
    (∀ u : Int, glyphsOfUnits rs u.toNat ≤ rs.length) ∧
    ∀ u w, (utf16 rs)[u]? = some w → IsLowSurrogate w →
      ∃ k < rs.length, u = (utf16 (rs.take k)).length + 1 ∧ glyphsOfUnits rs u = k + 1 := by
  intro rs
  refine ⟨fun k hk => ?_, fun c d hc h => ?_, fun u v h => ?_, fun u => glyphsOfUnits_le _ _,
    fun u w hu hw => ?_⟩
  · have hunits : unitsOfGlyphs rs k < Nat.pow 2 63 :=
      Nat.lt_of_le_of_lt (unitsOfGlyphs_le_length hk) hline
    have hk' : k < Nat.pow 2 63 :=
      Nat.lt_of_le_of_lt (unitsOfGlyphs_strictMono rs).le_apply hunits
    rw [utf16Column_succ hk', Int64.toNatClampNeg_ofNat_of_lt hunits,
      glyphsOfUnits_unitsOfGlyphs hk]
  · rw [utf16Column_eq hc, utf16Column_eq (Int64.le_of_lt (Int64.lt_of_le_of_lt hc h)),
      ofNat_lt_ofNat_iff (unitsBefore_lt hc h) (unitsBefore_lt_size hline d)]
  · exact glyphsOfUnits_mono (Int.toNat_le_toNat h)
  · obtain ⟨k, hk, rfl⟩ := exists_glyph_of_isLowSurrogate hu hw
    refine ⟨k, hk, ?_, glyphsOfUnits_succ hk⟩
    -- In the line, the units of the walk are those of the form.
    rw [unitsOfGlyphs_eq, Nat.sub_eq_zero_of_le (Nat.le_of_lt hk), Nat.add_zero]

/-- Two characters of two units each. The columns 2 and 3 begin with the units 2 and 4, and the unit
between them, in the middle of the second character, belongs to the end of the line. -/
theorem utf16Column_inverse_twoPairs :
    let line : Bytes := [0xf0, 0x9f, 0x98, 0x80, 0xf0, 0x9f, 0x98, 0x80]
    let rs := Bytes.glyphs line
    line.length < Nat.pow 2 63 ∧
    glyphsOfUnits rs (utf16Column [line] 0 (.ofNat (1 + 1))).toNatClampNeg = 1 ∧
    utf16Column [line] 0 2 < utf16Column [line] 0 3 ∧
    glyphsOfUnits rs (3 : Int).toNat ≤ glyphsOfUnits rs (4 : Int).toNat ∧
    glyphsOfUnits rs (4 : Int).toNat ≤ rs.length ∧
    ∃ k < rs.length, 3 = (utf16 (rs.take k)).length + 1 ∧ glyphsOfUnits rs 3 = k + 1 := by
  intro line rs
  have hline : line.length < Nat.pow 2 63 := by decide
  obtain ⟨hback, hcolumns, hmono, hle, hmiddle⟩ := utf16Column_inverse line hline
  exact ⟨hline, hback 1 (by decide), (hcolumns 2 3 (by decide) (by decide)).2 (by decide),
    hmono 3 4 (by decide), hle 4, hmiddle 3 0xde00 rfl ⟨by decide, by decide⟩⟩

/-- **The last column goes round**: its unit is less than the one of the column before it, on a line
with two pairs. -/
theorem utf16Column_goes_round :
    let line : Bytes := [0xf0, 0x9f, 0x98, 0x80, 0xf0, 0x9f, 0x98, 0x80]
    (1 : Int64) ≤ 9223372036854775806 ∧ (9223372036854775806 : Int64) < 9223372036854775807 ∧
    ¬utf16Column [line] 0 9223372036854775806 < utf16Column [line] 0 9223372036854775807 := by
  decide

end Scriptlet
