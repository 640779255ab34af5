import Mathlib
import Scriptlet.Proofs.Decimal.Shortest
import Scriptlet.Proofs.Text.Plain
import Scriptlet.Value.Basic

/-!
# Numbers in writing

No two numbers are shown the same. A number is taken apart, a shortest decimal is found for it, and
the decimal is written in full; from each of these one gets back to what was there before. Bits are
computed from the parts (`Binary.code_ofFloat`), the shortest decimal tells the parts
(`Decimal.shortest_unique`), and a decimal written in full can be read, from left to right and with
regard to where the point is (`Decimal.read_inFull`).

Two zeros have different signs and are shown as `0` and `-0`. There is one non-number.
-/

namespace Scriptlet

/-! ### Bits from parts -/

namespace Binary

/-- The bits that say what a number is made of. -/
def code : Binary → Nat
  | nan => 0x7ff8000000000000
  | infinite negative => (if negative then 2 ^ 63 else 0) + 2047 * 2 ^ 52
  | finite negative m q =>
    (if negative then 2 ^ 63 else 0) +
      if m < hiddenBit then m else (q - leastExponent + 1).toNat * 2 ^ 52 + (m - hiddenBit)

open Float.Model.UnpackedFloat in
/-- There is only one non-number. -/
theorem toBits_of_nan {x : Float} (hfield : x.toBits.toNat / 2 ^ 52 % 2 ^ 11 = 2047)
    (hfraction : x.toBits.toNat % 2 ^ 52 ≠ 0) : x.toBits.toNat = 0x7ff8000000000000 := by
  have hexponent : @unpackExponent .binary64 x.toBits.toBitVec = -1#11 := by
    refine BitVec.eq_of_toNat_eq ?_
    rw [unpackExponent, BitVec.toNat_cast, BitVec.extractLsb_toNat, Nat.shiftRight_eq_div_pow]
    exact hfield
  have hmantissa : @unpackMantissa .binary64 x.toBits.toBitVec ≠ 0#52 := by
    intro hzero
    have hzero := congrArg BitVec.toNat hzero
    rw [unpackMantissa, BitVec.toNat_cast, BitVec.extractLsb_toNat, Nat.shiftRight_zero] at hzero
    exact hfraction hzero
  have hbits := congrArg BitVec.toNat (x.toModel.valid.eq_packedNaN hexponent hmantissa)
  exact hbits.trans (by decide)

/-- **The bits of a number** are told by its parts. -/
theorem code_ofFloat (x : Float) : (ofFloat x).code = x.toBits.toNat := by
  have hbits : x.toBits.toNat < 2 ^ 64 := x.toBits.toNat_lt
  have hnan := @toBits_of_nan x
  rw [ofFloat]
  generalize x.toBits.toNat = bits at *
  -- the sign is the highest bit, and what is below it is left to the parts
  have hsign : (if (bits / Nat.pow 2 63 == 1) = true then 2 ^ 63 else 0) =
      bits / 2 ^ 63 * 2 ^ 63 := by
    simp only [Nat.pow_eq, beq_iff_eq]
    split <;> omega
  simp only [Nat.pow_eq] at *
  split
  · split
    · rw [code, hsign]
      omega
    · rw [code, hnan]
      · assumption
      · assumption
  · split
    · rw [code, hsign, hiddenBit_eq, if_pos]
      · omega
      · omega
    · rw [code, hsign, hiddenBit_eq, if_neg]
      · omega
      · omega

/-- A double is told by its parts. -/
theorem ofFloat_injective {x y : Float} (h : ofFloat x = ofFloat y) : x = y := by
  rw [← Float.toBits_inj, ← UInt64.toNat_inj, ← code_ofFloat, ← code_ofFloat, h]

/-- The significand of a double has 53 bits, unless its exponent is the least one. -/
theorem normal_of_ofFloat {x : Float} {negative : Bool} {m : Nat} {q : Int}
    (h : ofFloat x = finite negative m q) : Normal m q := by
  rw [ofFloat] at h
  generalize x.toBits.toNat = bits at *
  simp only [Nat.pow_eq] at h
  split at h
  · split at h <;> cases h
  · split at h
    · cases h
      constructor
      · rw [hiddenBit_eq]
        omega
      · exact fun hne => absurd rfl hne
      · exact Int.le_refl _
    · cases h
      constructor
      · rw [hiddenBit_eq]
        omega
      · exact fun _ => Nat.le_add_left _ _
      · omega
end Binary

/-! ### Decimals from their digits -/

namespace Bytes

theorem toNat_concat (s : Bytes) {d : Nat} (hd : d < 10) :
    toNat (s ++ [UInt8.ofNat (0x30 + d)]) = 10 * toNat s + d := by
  have hvalue : ∀ d < 10, digitValue (UInt8.ofNat (0x30 + d)) = d := by decide
  rw [toNat, List.foldl_append, List.foldl_cons, List.foldl_nil, hvalue d hd]
  rfl

/-- A number is read back from its digits. -/
theorem toNat_ofNat (n : Nat) : toNat (ofNat n) = n := by
  induction n using Nat.strongRecOn with
  | ind n ih =>
    rcases Nat.lt_or_ge n 10 with hn | hn
    · rw [ofNat_of_lt hn]
      exact (toNat_concat [] hn).trans (Nat.zero_add n)
    · rw [ofNat_of_le hn, toNat_concat _ (Nat.mod_lt n (by decide)), ih (n / 10) (by omega)]
      omega

theorem toNat_append_zeros (s : Bytes) (k : Nat) :
    toNat (s ++ List.replicate k 0x30) = toNat s * 10 ^ k := by
  induction k with
  | zero => rw [List.replicate_zero, List.append_nil, Nat.pow_zero, Nat.mul_one]
  | succ k ih =>
    rw [List.replicate_succ', ← List.append_assoc]
    refine (toNat_concat _ (by decide : 0 < 10)).trans ?_
    rw [ih, Nat.pow_succ]
    ring

theorem toNat_zeros_append (k : Nat) (s : Bytes) :
    toNat (List.replicate k 0x30 ++ s) = toNat s := by
  have hzeros : toNat (List.replicate k 0x30) = 0 := by
    rw [← List.nil_append (List.replicate k 0x30), toNat_append_zeros]
    exact Nat.zero_mul _
  rw [toNat, List.foldl_append]
  exact congrArg (fun n => s.foldl (fun n b => 10 * n + digitValue b) n) hzeros

end Bytes

namespace Decimal

/-- The number that a decimal in writing stands for: what its digits make, divided by a power of
ten for each digit behind the point. -/
def read (s : Bytes) : ℚ :=
  Bytes.toNat (s.filter (· != Bytes.dot)) / 10 ^ (s.dropWhile (· != Bytes.dot)).tail.length

section InFull

variable {s u v : Bytes}

theorem ne_dot_of_isDigit {b : UInt8} (h : Bytes.isDigit b = true) : (b != Bytes.dot) = true := by
  rw [bne_iff_ne]
  rintro rfl
  exact absurd h (by decide)

/-- A run of digits is read as a whole number. -/
theorem read_digits (h : ∀ b ∈ s, Bytes.isDigit b = true) : read s = Bytes.toNat s := by
  have hdot : ∀ b ∈ s, (b != Bytes.dot) = true := fun b hb => ne_dot_of_isDigit (h b hb)
  rw [read, List.filter_eq_self.2 hdot, List.dropWhile_eq_nil_iff.2 hdot, List.tail_nil,
    List.length_nil, pow_zero, div_one]

/-- Digits behind a full stop divide by ten. -/
theorem read_dot (h : ∀ b ∈ u ++ v, Bytes.isDigit b = true) :
    read (u ++ Bytes.dot :: v) = Bytes.toNat (u ++ v) / 10 ^ v.length := by
  obtain ⟨hu, hv⟩ := List.forall_mem_append.1 h
  have hu' : ∀ b ∈ u, (b != Bytes.dot) = true := fun b hb => ne_dot_of_isDigit (hu b hb)
  have hv' : ∀ b ∈ v, (b != Bytes.dot) = true := fun b hb => ne_dot_of_isDigit (hv b hb)
  rw [read, List.filter_append, List.filter_eq_self.2 hu', List.filter_cons_of_neg (by decide),
    List.filter_eq_self.2 hv', List.dropWhile_append_of_pos hu',
    List.dropWhile_cons_of_neg (by decide), List.tail_cons]

theorem isDigit_of_mem_zeros {k : Nat} {b : UInt8} (hb : b ∈ List.replicate k (0x30 : UInt8)) :
    Bytes.isDigit b = true := by
  rw [List.eq_of_mem_replicate hb]
  decide

/-- **A decimal written in full** is one run of digits, or two with a point between them. -/
theorem inFull_cases (d : Decimal) :
    (0 ≤ d.exponent ∧ (∀ b ∈ d.inFull, Bytes.isDigit b = true) ∧
      Bytes.toNat d.inFull = d.significand * 10 ^ d.exponent.toNat) ∨
    ∃ u v, d.exponent < 0 ∧ d.inFull = u ++ Bytes.dot :: v ∧
      (∀ b ∈ u ++ v, Bytes.isDigit b = true) ∧ Bytes.toNat (u ++ v) = d.significand ∧
        v.length = (-d.exponent).toNat := by
  have hdigits : ∀ b ∈ digits d.significand, Bytes.isDigit b = true :=
    fun b hb => Bytes.isDigit_of_mem_ofNat hb
  rw [inFull]
  split
  · rename_i hexponent
    refine .inl ⟨hexponent, List.forall_mem_append.2 ⟨hdigits, fun b => isDigit_of_mem_zeros⟩, ?_⟩
    rw [Bytes.toNat_append_zeros, digits, Bytes.toNat_ofNat]
  · rename_i hexponent
    refine .inr ⟨_, _, by omega, rfl, ?_, ?_, ?_⟩
    · rw [List.take_append_drop]
      exact List.forall_mem_append.2 ⟨fun b => isDigit_of_mem_zeros, hdigits⟩
    · rw [List.take_append_drop, Bytes.toNat_zeros_append, digits, Bytes.toNat_ofNat]
    -- the zeros in front make up for the digits that are missing before the point
    · rw [List.length_drop, List.length_append, List.length_replicate]
      omega

/-- **A decimal is read back** from its writing in full. -/
theorem read_inFull (d : Decimal) : read d.inFull = d.value := by
  rcases inFull_cases d with
    ⟨hexponent, hdigits, hvalue⟩ | ⟨u, v, hexponent, hd, hdigits, hvalue, hv⟩
  · rw [read_digits hdigits, hvalue, value, ← Int.toNat_of_nonneg hexponent, zpow_natCast,
      Int.toNat_natCast]
    push_cast
    rfl
  · have hneg : d.exponent = -((-d.exponent).toNat : Int) := by omega
    rw [hd, read_dot hdigits, hvalue, hv, value]
    conv_rhs => rw [hneg, zpow_neg, zpow_natCast]
    rfl

/-- A decimal is written with digits and a full stop only. -/
theorem mem_inFull {d : Decimal} {b : UInt8} (hb : b ∈ d.inFull) :
    Bytes.isDigit b = true ∨ b = Bytes.dot := by
  rcases inFull_cases d with ⟨-, hdigits, -⟩ | ⟨u, v, -, hd, hdigits, -⟩
  · exact .inl (hdigits b hb)
  · rw [hd, List.mem_append, List.mem_cons] at hb
    rcases hb with hb | rfl | hb
    · exact .inl (hdigits b (List.mem_append_left v hb))
    · exact .inr rfl
    · exact .inl (hdigits b (List.mem_append_right u hb))

theorem inFull_ne_nil (d : Decimal) : d.inFull ≠ [] := by
  rw [inFull]
  split
  · exact List.append_ne_nil_of_left_ne_nil (Bytes.ofNat_ne_nil d.significand) _
  · exact List.append_ne_nil_of_right_ne_nil _ (List.cons_ne_nil _ _)

end InFull

end Decimal

/-! ### Numbers as they are shown -/

namespace Value

/-- The bytes that finite numbers are shown with. -/
def isFiniteByte (b : UInt8) : Bool :=
  Bytes.isDigit b || b == Bytes.dot || b == Bytes.hyphen

/-- The bytes that numbers are shown with: these, and the letters of three words. -/
def isNumberByte (b : UInt8) : Bool :=
  isFiniteByte b || (Bytes.ofString "NaNinf").contains b

/-- How a number is shown that has been taken apart. -/
def showBinary : Binary → Bytes
  | .nan => Bytes.ofString "NaN"
  | .infinite negative => Bytes.ofString (if negative then "-inf" else "inf")
  | .finite negative m q =>
    if negative then Bytes.hyphen :: (Decimal.shortest m q).inFull
    else (Decimal.shortest m q).inFull

theorem showNumber_eq (x : Float) : showNumber x = showBinary (Binary.ofFloat x) := by
  rw [showNumber, NumberStyle.write, showBinary.eq_def]
  rfl

section Shown

variable {negative negative' : Bool} {m m' : Nat} {q q' : Int} {b : UInt8}

theorem isFiniteByte_of_mem (hb : b ∈ showBinary (.finite negative m q)) :
    isFiniteByte b = true := by
  have hdigits : ∀ b ∈ (Decimal.shortest m q).inFull, isFiniteByte b = true := by
    intro b hb
    rcases Decimal.mem_inFull hb with hb | rfl
    · rw [isFiniteByte, hb]
      rfl
    · rfl
  rw [showBinary] at hb
  split at hb
  · rcases List.mem_cons.1 hb with rfl | hb
    · rfl
    · exact hdigits b hb
  · exact hdigits b hb

theorem hyphen_not_mem_inFull (d : Decimal) : Bytes.hyphen ∉ d.inFull := by
  intro hmem
  rcases Decimal.mem_inFull hmem with hdigit | hdot
  · exact absurd hdigit (by decide)
  · exact absurd hdot (by decide)

/-- The sign and the decimal are told from what is shown, and so are the parts. -/
theorem finite_of_showBinary (h : Binary.Normal m q) (h' : Binary.Normal m' q')
    (heq : showBinary (.finite negative m q) = showBinary (.finite negative' m' q')) :
    Binary.finite negative m q = .finite negative' m' q' := by
  have hvalue : ∀ {d d' : Decimal}, d.inFull = d'.inFull → d.value = d'.value := by
    intro d d' hd
    rw [← Decimal.read_inFull, hd, Decimal.read_inFull]
  have hsign : ∀ {d d' : Decimal}, d.inFull ≠ Bytes.hyphen :: d'.inFull := by
    intro d d' hd
    exact hyphen_not_mem_inFull d (hd ▸ List.mem_cons_self)
  cases negative <;> cases negative'
  · obtain ⟨rfl, rfl⟩ := Decimal.shortest_unique h h' (hvalue heq)
    rfl
  · exact absurd heq hsign
  · exact absurd heq.symm hsign
  · obtain ⟨rfl, rfl⟩ := Decimal.shortest_unique h h' (hvalue (List.cons.inj heq).2)
    rfl

/-- A letter stands in what is shown for no finite number. -/
theorem showBinary_nan_ne_finite : showBinary .nan ≠ showBinary (.finite negative m q) := by
  intro heq
  have hletter : (0x4e : UInt8) ∈ showBinary .nan := by decide
  rw [heq] at hletter
  exact absurd (isFiniteByte_of_mem hletter) (by decide)

theorem showBinary_infinite_ne_finite :
    showBinary (.infinite negative') ≠ showBinary (.finite negative m q) := by
  intro heq
  have hletter : (0x6e : UInt8) ∈ showBinary (.infinite negative') := by
    cases negative' <;> decide
  rw [heq] at hletter
  exact absurd (isFiniteByte_of_mem hletter) (by decide)

theorem showBinary_nan_ne_infinite : showBinary .nan ≠ showBinary (.infinite negative) := by
  cases negative <;> decide

theorem infinite_of_showBinary
    (heq : showBinary (.infinite negative) = showBinary (.infinite negative')) :
    Binary.infinite negative = .infinite negative' := by
  revert heq
  cases negative <;> cases negative' <;> decide

end Shown

/-- **Numbers that are shown the same are the same.** -/
theorem showNumber_injective {x y : Float} (h : showNumber x = showNumber y) : x = y := by
  rw [showNumber_eq, showNumber_eq] at h
  refine Binary.ofFloat_injective ?_
  have hx := @Binary.normal_of_ofFloat x
  have hy := @Binary.normal_of_ofFloat y
  generalize Binary.ofFloat x = c at *
  generalize Binary.ofFloat y = d at *
  -- numbers of different sorts are not shown the same, and those of one sort tell their parts
  cases c with
  | nan =>
    cases d with
    | nan => rfl
    | infinite => exact absurd h showBinary_nan_ne_infinite
    | finite => exact absurd h showBinary_nan_ne_finite
  | infinite =>
    cases d with
    | nan => exact absurd h.symm showBinary_nan_ne_infinite
    | infinite => exact infinite_of_showBinary h
    | finite => exact absurd h showBinary_infinite_ne_finite
  | finite =>
    cases d with
    | nan => exact absurd h.symm showBinary_nan_ne_finite
    | infinite => exact absurd h.symm showBinary_infinite_ne_finite
    | finite => exact finite_of_showBinary (hx rfl) (hy rfl) h

theorem showNumber_ne_nil (x : Float) : showNumber x ≠ [] := by
  rw [showNumber_eq]
  cases Binary.ofFloat x with
  | nan => decide
  | infinite negative => cases negative <;> decide
  | finite negative m q =>
    cases negative
    · exact Decimal.inFull_ne_nil _
    · exact List.cons_ne_nil _ _

theorem isNumberByte_of_mem {x : Float} {b : UInt8} (hb : b ∈ showNumber x) :
    isNumberByte b = true := by
  rw [showNumber_eq] at hb
  generalize Binary.ofFloat x = c at hb
  cases c with
  | nan => exact List.all_eq_true.1 (rfl : (showBinary .nan).all isNumberByte = true) b hb
  | infinite negative =>
    have hword : (showBinary (.infinite negative)).all isNumberByte = true := by
      cases negative <;> rfl
    exact List.all_eq_true.1 hword b hb
  | finite => rw [isNumberByte, isFiniteByte_of_mem hb, Bool.true_or]

end Value

end Scriptlet
