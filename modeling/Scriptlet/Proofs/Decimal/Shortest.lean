import Mathlib.Algebra.Order.Field.Power
import Mathlib.Algebra.Order.Ring.Rat
import Mathlib.Tactic.FieldSimp
import Mathlib.Tactic.Linarith
import Mathlib.Tactic.Positivity
import Mathlib.Tactic.Ring
import Scriptlet.Decimal.Shortest

/-!
# The shortest decimal tells the number

Comparisons of decimals with binary numbers are made on natural numbers; here they are comparisons
of rational numbers. The decimals that read back as `m · 2^q` are then those in an interval around
it (`Decimal.ReadsBack`), and two things are to be shown.

* The search for the shortest decimal finds one that reads back. On the last grid it looks at, the
  points are less than the width of the interval apart: the number has seventeen digits there, and a
  significand is less than `2^53`, which is less than `10^16`. So one of the two points next to the
  number lies in the interval.
* Intervals of different numbers have no point in common. Those of neighbours have an end in common,
  and it belongs to the one with the even significand.

Together these say that numbers with the same shortest decimal are the same
(`Decimal.shortest_unique`). A number is meant to be given in its **normal** form, with the least
exponent or a significand that has the hidden bit.
-/

namespace Scriptlet

theorem Binary.hiddenBit_eq : hiddenBit = 4503599627370496 := rfl

/-- The number `m · 2^q`. -/
def Binary.magnitude (m : Nat) (q : Int) : ℚ :=
  m * 2 ^ q

/-- **A significand and an exponent in normal form.** -/
structure Binary.Normal (m : Nat) (q : Int) : Prop where
  /-- The significand has no more bits than there is room for. -/
  lt : m < 2 * hiddenBit
  /-- If it has fewer, the exponent is the least one. -/
  hidden : q ≠ leastExponent → hiddenBit ≤ m
  /-- No exponent is less. -/
  le : leastExponent ≤ q

namespace Decimal

open Binary

/-- The number that a decimal stands for. -/
def value (d : Decimal) : ℚ :=
  d.significand * 10 ^ d.exponent

variable {m m' n b : Nat} {q q' k j : Int} {x : ℚ}

/-! ### Comparisons -/

theorem zpow_mul_pow_toNat {a : ℚ} (ha : a ≠ 0) (k : Int) :
    a ^ k * a ^ (-k).toNat = a ^ k.toNat := by
  rw [← zpow_natCast, ← zpow_natCast, ← zpow_add₀ ha]
  congr 1
  omega

/-- A decimal and a binary number are natural numbers in a common unit. -/
theorem exists_common_unit (n b : Nat) (k j : Int) : ∃ c : ℚ, 0 < c ∧
    value ⟨n, k⟩ * c = (n * 10 ^ k.toNat * 2 ^ (-j).toNat : Nat) ∧
      magnitude b j * c = (b * 2 ^ j.toNat * 10 ^ (-k).toNat : Nat) := by
  have hten := zpow_mul_pow_toNat (by norm_num : (10 : ℚ) ≠ 0) k
  have htwo := zpow_mul_pow_toNat (by norm_num : (2 : ℚ) ≠ 0) j
  refine ⟨2 ^ (-j).toNat * 10 ^ (-k).toNat, by positivity, ?_, ?_⟩
  · push_cast [value]
    rw [← hten]
    ring
  · push_cast [magnitude]
    rw [← htwo]
    ring

/-- Comparing a decimal with a binary fraction is comparing natural numbers, once both are
multiplied out. -/
theorem value_le_magnitude_iff : value ⟨n, k⟩ ≤ magnitude b j ↔
    n * 10 ^ k.toNat * 2 ^ (-j).toNat ≤ b * 2 ^ j.toNat * 10 ^ (-k).toNat := by
  obtain ⟨c, hc, hvalue, hmagnitude⟩ := exists_common_unit n b k j
  rw [← mul_le_mul_iff_left₀ hc, hvalue, hmagnitude, Nat.cast_le]

theorem magnitude_le_value_iff : magnitude b j ≤ value ⟨n, k⟩ ↔
    b * 2 ^ j.toNat * 10 ^ (-k).toNat ≤ n * 10 ^ k.toNat * 2 ^ (-j).toNat := by
  obtain ⟨c, hc, hvalue, hmagnitude⟩ := exists_common_unit n b k j
  rw [← mul_le_mul_iff_left₀ hc, hvalue, hmagnitude, Nat.cast_le]

/-- The comparison that is computed is that of the two numbers. -/
theorem compareBinary_eq_lt_iff :
    compareBinary n k b j = .lt ↔ value ⟨n, k⟩ < magnitude b j := by
  rw [compareBinary, compare_lt_iff_lt, ← not_le, ← not_le, magnitude_le_value_iff]
  rfl

theorem compareBinary_eq_gt_iff :
    compareBinary n k b j = .gt ↔ magnitude b j < value ⟨n, k⟩ := by
  rw [compareBinary, compare_gt_iff_gt, ← not_le, ← not_le, value_le_magnitude_iff]
  rfl

/-- The grid point below a number is not above it. -/
theorem value_below_le (m : Nat) (q k : Int) : value ⟨below m q k, k⟩ ≤ magnitude m q := by
  rw [value_le_magnitude_iff, Nat.mul_assoc, Nat.mul_comm (10 ^ k.toNat)]
  exact Nat.div_mul_le_self _ _

/-- The next grid point is above it. -/
theorem lt_value_below_succ (m : Nat) (q k : Int) :
    magnitude m q < value ⟨below m q k + 1, k⟩ := by
  rw [← not_le, value_le_magnitude_iff, Nat.not_le, Nat.mul_assoc (below m q k + 1),
    Nat.mul_comm (10 ^ k.toNat), Nat.mul_comm (below m q k + 1)]
  exact Nat.lt_mul_div_succ _ (Nat.mul_pos (Nat.pow_pos (by decide)) (Nat.pow_pos (by decide)))

/-! ### The interval of a number -/

/-- **The decimals that read back**: those between the two ends, with the ends exactly when the
significand is even. -/
def ReadsBack (m : Nat) (q : Int) (x : ℚ) : Prop :=
  if m % 2 = 0 then magnitude (lowerEnd m q) (q - 2) ≤ x ∧ x ≤ magnitude (upperEnd m) (q - 2)
  else magnitude (lowerEnd m q) (q - 2) < x ∧ x < magnitude (upperEnd m) (q - 2)

/-- What is computed about the interval of a number is true of the rational numbers in it. -/
theorem readsBack_iff : readsBack m q n k = true ↔ ReadsBack m q (value ⟨n, k⟩) := by
  rw [readsBack, ReadsBack]
  split
  · rw [Bool.and_eq_true, bne_iff_ne, bne_iff_ne, Ne, Ne, compareBinary_eq_lt_iff,
      compareBinary_eq_gt_iff, not_lt, not_lt]
  · rw [Bool.and_eq_true, beq_iff_eq, beq_iff_eq, compareBinary_eq_lt_iff, compareBinary_eq_gt_iff]

/-- What reads back as a number lies between the ends of its interval. -/
theorem ReadsBack.le (h : ReadsBack m q x) :
    magnitude (lowerEnd m q) (q - 2) ≤ x ∧ x ≤ magnitude (upperEnd m) (q - 2) := by
  rw [ReadsBack] at h
  split at h
  · exact h
  · exact ⟨h.1.le, h.2.le⟩

theorem ReadsBack.lt (h : ReadsBack m q x) (hm : m % 2 ≠ 0) :
    magnitude (lowerEnd m q) (q - 2) < x ∧ x < magnitude (upperEnd m) (q - 2) := by
  rwa [ReadsBack, if_neg hm] at h

/-- Everything strictly between the ends reads back; the ends do only for an even significand. -/
theorem readsBack_of_lt (hlow : magnitude (lowerEnd m q) (q - 2) < x)
    (hhigh : x < magnitude (upperEnd m) (q - 2)) : ReadsBack m q x := by
  rw [ReadsBack]
  split
  · exact ⟨hlow.le, hhigh.le⟩
  · exact ⟨hlow, hhigh⟩

/-! ### Intervals of different numbers -/

theorem magnitude_le_magnitude (h : m ≤ n) (q : Int) : magnitude m q ≤ magnitude n q := by
  rw [magnitude, magnitude, mul_le_mul_iff_left₀ (by positivity), Nat.cast_le]
  exact h

theorem magnitude_lt_magnitude_iff : magnitude m q < magnitude n q ↔ m < n := by
  rw [magnitude, magnitude, mul_lt_mul_iff_left₀ (by positivity), Nat.cast_lt]

theorem magnitude_eq_four_mul (m : Nat) (q : Int) : magnitude m q = magnitude (4 * m) (q - 2) := by
  rw [magnitude, magnitude, zpow_sub₀ (by norm_num)]
  push_cast
  ring

/-- A unit that is greater is at least twice as great. -/
theorem magnitude_two_mul_le (m : Nat) (h : q < q') : magnitude (2 * m) q ≤ magnitude m q' := by
  have hunit : (2 : ℚ) * 2 ^ q ≤ 2 ^ q' := by
    rw [mul_comm, ← zpow_add_one₀ (by norm_num : (2 : ℚ) ≠ 0)]
    exact zpow_le_zpow_right₀ (by norm_num) h
  calc magnitude (2 * m) q = m * (2 * 2 ^ q) := by
        push_cast [magnitude]
        ring
    _ ≤ m * 2 ^ q' := by gcongr

/-- **The interval of a smaller number ends before that of a greater one begins**, or where it
begins; then not both have even significands. -/
theorem ends_before (h : Normal m q) (h' : Normal m' q') (hlt : q < q' ∨ q = q' ∧ m < m') :
    magnitude (upperEnd m) (q - 2) ≤ magnitude (lowerEnd m' q') (q' - 2) ∧
      (m % 2 = 0 → m' % 2 = 0 →
        magnitude (upperEnd m) (q - 2) < magnitude (lowerEnd m' q') (q' - 2)) := by
  have hroom := h.lt
  have hhidden := h'.hidden
  have hle := h.le
  rw [hiddenBit_eq] at hroom hhidden
  rcases hlt with hlt | ⟨rfl, hlt⟩
  · -- the greater number has a greater unit, and so the hidden bit
    have hm' := hhidden (by omega)
    have hends : upperEnd m ≤ 2 * lowerEnd m' q' ∧
        (m % 2 = 0 → upperEnd m < 2 * lowerEnd m' q') := by
      rw [upperEnd, lowerEnd, hiddenBit_eq]
      split <;> omega
    have htwice := magnitude_two_mul_le (lowerEnd m' q') (Int.sub_lt_sub_right hlt 2)
    exact ⟨(magnitude_le_magnitude hends.1 _).trans htwice, fun heven _ =>
      (magnitude_lt_magnitude_iff.2 (hends.2 heven)).trans_le htwice⟩
  -- the ends are half a unit from the significands, and these differ by a unit at least
  · have hends : upperEnd m ≤ lowerEnd m' q ∧
        (m % 2 = 0 → m' % 2 = 0 → upperEnd m < lowerEnd m' q) := by
      rw [upperEnd, lowerEnd]
      split <;> omega
    exact ⟨magnitude_le_magnitude hends.1 _, fun heven heven' =>
      magnitude_lt_magnitude_iff.2 (hends.2 heven heven')⟩

/-- **Intervals of different numbers have nothing in common.** They may share an end, but of two
neighbours only one has an even significand. -/
theorem not_readsBack_of_lt (h : Normal m q) (h' : Normal m' q')
    (hlt : q < q' ∨ q = q' ∧ m < m') (hx : ReadsBack m q x) : ¬ReadsBack m' q' x := by
  intro hx'
  obtain ⟨hends, hends'⟩ := ends_before h h' hlt
  by_cases hm : m % 2 = 0
  · by_cases hm' : m' % 2 = 0
    · exact absurd (hx.le.2.trans_lt (hends' hm hm')) (not_lt.2 hx'.le.1)
    · exact absurd ((hx.le.2.trans hends).trans_lt (hx'.lt hm').1) (lt_irrefl x)
  · exact absurd (((hx.lt hm).2.trans_le hends).trans_le hx'.le.1) (lt_irrefl x)

/-- **A decimal reads back as one number only.** -/
theorem ReadsBack.unique (h : Normal m q) (h' : Normal m' q') (hx : ReadsBack m q x)
    (hx' : ReadsBack m' q' x) : m = m' ∧ q = q' := by
  rcases lt_trichotomy q q' with hq | rfl | hq
  · exact absurd hx' (not_readsBack_of_lt h h' (.inl hq) hx)
  · rcases lt_trichotomy m m' with hm | rfl | hm
    · exact absurd hx' (not_readsBack_of_lt h h' (.inr ⟨rfl, hm⟩) hx)
    · exact ⟨rfl, rfl⟩
    · exact absurd hx (not_readsBack_of_lt h' h (.inr ⟨rfl, hm⟩) hx')
  · exact absurd hx (not_readsBack_of_lt h' h (.inl hq) hx')

/-- What reads back as a number above zero is above zero. -/
theorem ReadsBack.pos (hx : ReadsBack m q x) (hm : 0 < m) : 0 < x := by
  have hlow : 0 < lowerEnd m q := by
    rw [lowerEnd]
    split <;> omega
  have hpos : 0 < magnitude (lowerEnd m q) (q - 2) := by
    rw [magnitude]
    positivity
  exact hpos.trans_le hx.le.1

/-! ### Seventeen digits -/

/-- A number has as many digits as it needs, with no zero in front. -/
theorem pow_digitCount_le (hn : 0 < n) : 10 ^ (digitCount n - 1) ≤ n := by
  rcases Nat.eq_zero_or_pos (digitCount n - 1) with hone | hmore
  · rw [hone]
    exact hn
  · by_contra hlt
    have hcount := (Nat.length_toDigits_le_iff (by decide) hmore).2 (Nat.not_le.1 hlt)
    rw [← digitCount] at hcount
    omega

theorem lt_pow_digitCount (n : Nat) : n < 10 ^ digitCount n :=
  (Nat.length_toDigits_le_iff (by decide) Nat.length_toDigits_pos).1 (Nat.le_refl _)

/-- The first digit of a number counts a power of ten that is not above it. -/
theorem pow_leadingExponent_le (hm : 0 < m) (q : Int) :
    value ⟨1, leadingExponent m q⟩ ≤ magnitude m q := by
  have hnum : 0 < m * 2 ^ q.toNat := Nat.mul_pos hm (Nat.two_pow_pos _)
  have hden : 0 < 2 ^ (-q).toNat := Nat.two_pow_pos _
  rw [value_le_magnitude_iff, leadingExponent, Nat.pow_eq, Nat.pow_eq, Nat.one_mul]
  generalize m * 2 ^ q.toNat = num at *
  generalize 2 ^ (-q).toNat = den at *
  split
  · rename_i hle
    have hcount : 0 < digitCount (num / den) := Nat.length_toDigits_pos
    have hpos : ((digitCount (num / den) : Int) - 1).toNat = digitCount (num / den) - 1 := by omega
    have hneg : (-((digitCount (num / den) : Int) - 1)).toNat = 0 := by omega
    rw [hpos, hneg, Nat.pow_zero, Nat.mul_one]
    exact (Nat.le_div_iff_mul_le hden).1 (pow_digitCount_le (Nat.div_pos hle hden))
  · have hlt := lt_pow_digitCount ((den - 1) / num)
    rw [Nat.div_lt_iff_lt_mul hnum, Nat.mul_comm] at hlt
    rw [Int.toNat_neg_natCast, Int.neg_neg, Int.toNat_natCast, Nat.pow_zero, Nat.one_mul]
    omega

/-- When nothing is found on a grid, neither the grid point below the number nor the one above it
reads back. -/
theorem not_readsBack_of_onGrid? (h : onGrid? m q k = none) :
    ¬ReadsBack m q (value ⟨below m q k, k⟩) ∧ ¬ReadsBack m q (value ⟨below m q k + 1, k⟩) := by
  rw [← readsBack_iff, ← readsBack_iff, Bool.not_eq_true, Bool.not_eq_true]
  rw [onGrid?] at h
  split at h
  · rename_i hn hn'
    exact ⟨hn, hn'⟩
  · cases h
  · cases h
  · split at h
    · cases h
    · cases h
    · cases h

/-- **Seventeen digits are enough** to find a decimal that reads back. -/
theorem onGrid?_ne_none (h : Normal m q) (hm : 0 < m) (hk : value ⟨1, k + 16⟩ ≤ magnitude m q) :
    onGrid? m q k ≠ none := by
  intro hnone
  obtain ⟨hbelow, habove⟩ := not_readsBack_of_onGrid? hnone
  have hunit : (0 : ℚ) < 2 ^ (q - 2) := by positivity
  -- neither neighbour lies between the ends, so the ends lie between the neighbours
  have hlow : value ⟨below m q k, k⟩ ≤ magnitude (lowerEnd m q) (q - 2) := by
    by_contra hlt
    refine hbelow (readsBack_of_lt (not_le.1 hlt) ((value_below_le m q k).trans_lt ?_))
    rw [magnitude_eq_four_mul, magnitude_lt_magnitude_iff, upperEnd]
    omega
  have hhigh : magnitude (upperEnd m) (q - 2) ≤ value ⟨below m q k + 1, k⟩ := by
    by_contra hlt
    refine habove (readsBack_of_lt (lt_of_le_of_lt ?_ (lt_value_below_succ m q k)) (not_le.1 hlt))
    rw [magnitude_eq_four_mul m]
    refine magnitude_le_magnitude ?_ _
    rw [lowerEnd]
    split <;> omega
  have hwidth : upperEnd m * 10 ^ 16 ≤ lowerEnd m q * 10 ^ 16 + 4 * m := by
    rw [magnitude_eq_four_mul] at hk
    simp only [value, magnitude, zpow_add₀ (by norm_num : (10 : ℚ) ≠ 0)] at hlow hhigh hk
    have hscaled : (upperEnd m * 10 ^ 16 : ℚ) ≤ lowerEnd m q * 10 ^ 16 + 4 * m := by
      refine le_of_mul_le_mul_right ?_ hunit
      push_cast at hhigh hk
      linarith
    exact_mod_cast hscaled
  have hroom := h.lt
  rw [upperEnd, lowerEnd] at hwidth
  rw [hiddenBit_eq] at hroom hwidth
  split at hwidth <;> omega

/-- What is found on a grid reads back. -/
theorem readsBack_of_onGrid? (h : onGrid? m q k = some n) : ReadsBack m q (value ⟨n, k⟩) := by
  rw [← readsBack_iff]
  rw [onGrid?] at h
  split at h
  · cases h
  · rename_i hn _
    rwa [← Option.some.inj h]
  · rename_i _ hn'
    rwa [← Option.some.inj h]
  · rename_i hn hn'
    -- whichever of the two is taken
    have hcases : n = below m q k ∨ n = below m q k + 1 := by
      split at h
      · exact .inl (Option.some.inj h).symm
      · exact .inr (Option.some.inj h).symm
      · split at h
        · exact .inl (Option.some.inj h).symm
        · exact .inr (Option.some.inj h).symm
    rcases hcases with rfl | rfl
    · exact hn
    · exact hn'

/-! ### The search -/

/-- The search comes to a grid that is fine enough. The induction is on the steps that are left. -/
theorem readsBack_search {steps j : Nat} (hj : j < steps) (h : onGrid? m q (k - j) ≠ none) :
    ReadsBack m q (search m q steps k).value := by
  induction steps generalizing k j with
  | zero => exact absurd hj (Nat.not_lt_zero j)
  | succ steps ih =>
    rw [search]
    split
    · rename_i n hn
      exact readsBack_of_onGrid? hn
    · rename_i hnone
      cases j with
      | zero =>
        rw [Int.natCast_zero, Int.sub_zero] at h
        exact absurd hnone h
      | succ j =>
        refine ih (Nat.lt_of_succ_lt_succ hj) ?_
        rwa [Int.sub_sub, Int.add_comm 1]

/-- Zeros at the end do not matter to the value. -/
theorem value_stripZeros (steps : Nat) (d : Decimal) : (stripZeros steps d).value = d.value := by
  induction steps generalizing d with
  | zero => rfl
  | succ steps ih =>
    rw [stripZeros]
    split
    · rename_i hzero
      obtain ⟨n, hn⟩ := Nat.dvd_of_mod_eq_zero hzero.2
      rw [ih, value, value, hn, Nat.mul_div_cancel_left n (by decide), zpow_add_one₀ (by norm_num)]
      push_cast
      ring
    · rfl

/-- **The shortest decimal of a number reads back as it.** -/
theorem readsBack_shortest (h : Normal m q) (hm : 0 < m) : ReadsBack m q (shortest m q).value := by
  rw [shortest, if_neg hm.ne', value_stripZeros]
  refine readsBack_search (j := 16) (by decide) (onGrid?_ne_none h hm ?_)
  rw [Nat.cast_ofNat, Int.sub_add_cancel]
  exact pow_leadingExponent_le hm q

/-- **Numbers with the same shortest decimal are the same.** -/
theorem shortest_unique (h : Normal m q) (h' : Normal m' q')
    (heq : (shortest m q).value = (shortest m' q').value) : m = m' ∧ q = q' := by
  have hzero : ∀ r, (shortest 0 r).value = 0 := by
    intro r
    rw [shortest, if_pos rfl, value, Nat.cast_zero, zero_mul]
  -- a zero has no hidden bit
  have hleast : ∀ r, Normal 0 r → r = leastExponent := by
    intro r hr
    by_contra hne
    exact absurd (hr.hidden hne) (by decide)
  rcases Nat.eq_zero_or_pos m with rfl | hm <;> rcases Nat.eq_zero_or_pos m' with rfl | hm'
  · exact ⟨rfl, (hleast q h).trans (hleast q' h').symm⟩
  · exact absurd (heq.symm.trans (hzero q)) ((readsBack_shortest h' hm').pos hm').ne'
  · exact absurd (heq.trans (hzero q')) ((readsBack_shortest h hm).pos hm).ne'
  · exact (readsBack_shortest h hm).unique h h' (heq ▸ readsBack_shortest h' hm')

end Decimal

end Scriptlet
