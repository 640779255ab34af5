import Mathlib.Data.Rat.Floor
import Scriptlet.Proofs.Decimal.Shortest
import Scriptlet.Proofs.Running.Operations

/-!
# Indices are cut off toward zero

The place in an array that a number names is computed by a division of natural numbers, and the sign
of the number is looked at afterwards. What is meant is simpler. A finite number is a rational
number; cut off toward zero it is a whole number, and if that is in the range of the array, the
index is a good one. So an index between minus one and zero is good for an array that is not empty,
whereas an infinity and a non-number are not cut off to anything.
-/

namespace Scriptlet

/-- The whole number that is left of a number when it is **cut off toward zero**. -/
def truncate (r : ℚ) : ℤ :=
  if 0 ≤ r then ⌊r⌋ else ⌈r⌉

theorem truncate_neg_of_nonneg {r : ℚ} (h : 0 ≤ r) : truncate (-r) = -⌊r⌋ := by
  rw [truncate]
  split
  · rename_i hneg
    obtain rfl : r = 0 := le_antisymm (neg_nonneg.1 hneg) h
    simp
  · exact Int.ceil_neg

namespace Binary

/-- A number cut off toward zero, if it is finite. -/
def truncated? : Binary → Option ℤ
  | finite negative m q => some (truncate (if negative then -magnitude m q else magnitude m q))
  | nan | infinite _ => none

theorem magnitude_nonneg (m : Nat) (q : Int) : 0 ≤ magnitude m q := by
  rw [magnitude]
  positivity

/-- **The whole part is the greatest whole number** that is not beyond `m · 2^q`. -/
theorem floor_magnitude (m : Nat) (q : Int) : ⌊magnitude m q⌋ = wholePart m q := by
  obtain ⟨hle, hlt⟩ := wholePart_eq_iff.1 (Eq.refl (wholePart m q))
  -- both sides of the comparisons are multiplied by a power of two, to make them whole
  have hunit : magnitude m q * (2 ^ (-q).toNat : Nat) = (m * Nat.pow 2 q.toNat : Nat) := by
    push_cast [magnitude]
    rw [mul_assoc, Decimal.zpow_mul_pow_toNat two_ne_zero]
    simp
  have hpos : (0 : ℚ) < (2 ^ (-q).toNat : Nat) := by positivity
  rw [Int.floor_eq_iff, Int.cast_natCast, ← mul_le_mul_iff_left₀ hpos, hunit,
    ← mul_lt_mul_iff_left₀ hpos, hunit]
  exact ⟨by exact_mod_cast hle, by exact_mod_cast hlt⟩

/-- A number of either sign, cut off toward zero. -/
theorem truncate_signed (negative : Bool) (m : Nat) (q : Int) :
    truncate (if negative then -magnitude m q else magnitude m q) =
      if negative then -(wholePart m q : ℤ) else wholePart m q := by
  cases negative with
  | true => simp only [if_true, truncate_neg_of_nonneg (magnitude_nonneg m q), floor_magnitude]
  | false =>
    simp only [Bool.false_eq_true, if_false, truncate, if_pos (magnitude_nonneg m q),
      floor_magnitude]

end Binary

/-- **The place that a number names** is the number cut off toward zero, unless that is less than
zero. -/
theorem placeOf?_eq_some_iff_truncated? {x : Float} {i : Nat} :
    placeOf? x = some i ↔ (Binary.ofFloat x).truncated? = some (i : ℤ) := by
  rw [placeOf?]
  rcases Binary.ofFloat x with _ | _ | ⟨negative, m, q⟩
  · simp [Binary.truncated?]
  · simp [Binary.truncated?]
  · simp only [Binary.truncated?, Option.some.injEq, Binary.truncate_signed]
    cases negative with
    | false => simp
    | true => rcases Binary.wholePart m q with _ | n <;> simp <;> omega

namespace Value

variable {vs : List Value} {x : Float}

/-- **An index in range.** There is an element at the place to which it is cut off, and that is the
result. -/
theorem exists_at?_of_inRange {t : ℤ} (ht : (Binary.ofFloat x).truncated? = some t)
    (hnonneg : 0 ≤ t) (hlt : t < vs.length) :
    ∃ v, (array vs).element? t = some v ∧ (array vs).at? (number x) = .ok v := by
  obtain ⟨i, rfl⟩ := Int.eq_ofNat_of_zero_le hnonneg
  have hplace : placeOf? x = some i := placeOf?_eq_some_iff_truncated?.2 ht
  have hget : vs[i]? = some vs[i] := List.getElem?_eq_getElem (by exact_mod_cast hlt)
  refine ⟨vs[i], ?_, ?_⟩
  · simp [element?, hget]
  · simp only [at?, hplace, Option.bind_some, hget]

/-- There is no other one. -/
theorem inRange_of_at? {v : Value} (h : (array vs).at? (number x) = .ok v) :
    ∃ t, (Binary.ofFloat x).truncated? = some t ∧ 0 ≤ t ∧ t < vs.length := by
  simp only [at?] at h
  split at h
  · rename_i u hu
    obtain ⟨i, hplace, hi⟩ := Option.bind_eq_some_iff.1 hu
    have hlt : i < vs.length := (List.getElem?_eq_some_iff.1 hi).1
    exact ⟨i, placeOf?_eq_some_iff_truncated?.1 hplace, Int.natCast_nonneg i,
      by exact_mod_cast hlt⟩
  · cases h

end Value

end Scriptlet
