import Mathlib
import Scriptlet.Value.Basic

/-!
# When values are equal

Equality of values is that of floating-point numbers, carried through arrays. It is no identity test
in two respects. A non-number is not equal to itself, and so no value is that holds one at any
depth, or holds an invalid value. And the two zeros are equal, although they are shown differently.
That is all: values are equal exactly when they are the same up to the signs of zeros, and hold
neither a non-number nor an invalid value (`Value.equal_iff`).

So the laws of an equivalence come from those of the identity of values without their signs of
zeros, except that the values not equal to themselves are left out; and values without zeros are
equal only when they are the same, and hence shown alike (`Value.equal_partialEquivalence`).

What a value holds at any depth is a member of its **parts**.
-/

namespace Scriptlet

/-! ### Values in values -/

namespace Value

/-- **Induction over values**, with all elements of an array at once. -/
@[elab_as_elim, induction_eliminator]
theorem induction {P : Value → Prop} (array : ∀ vs, (∀ v ∈ vs, P v) → P (.array vs))
    (bool : ∀ b, P (.bool b)) (number : ∀ x, P (.number x)) (text : ∀ s, P (.text s))
    (invalid : P .invalid) (v : Value) : P v :=
  @Value.rec P (fun vs => ∀ v ∈ vs, P v) array bool number text invalid
    (fun _ h => absurd h List.not_mem_nil)
    (fun _ _ hhead htail _ h => (List.mem_cons.1 h).elim (fun he => he ▸ hhead) (htail _)) v

mutual

/-- **The parts of a value**: itself first, and all that it holds at any depth. -/
def parts : Value → List Value
  | .array vs => .array vs :: partsList vs
  | .bool b => [.bool b]
  | .number x => [.number x]
  | .text s => [.text s]
  | .invalid => [.invalid]

/-- The parts of values. -/
def partsList : List Value → List Value
  | [] => []
  | v :: vs => v.parts ++ partsList vs

end

theorem partsList_eq_flatMap (vs : List Value) : partsList vs = vs.flatMap parts := by
  induction vs with
  | nil => rfl
  | cons v vs ih => rw [partsList, ih, List.flatMap_cons]

theorem mem_parts_array {v : Value} {vs : List Value} :
    v ∈ (Value.array vs).parts ↔ v = .array vs ∨ ∃ w ∈ vs, v ∈ w.parts := by
  rw [parts, partsList_eq_flatMap, List.mem_cons, List.mem_flatMap]

/-! ### Zeros without a sign -/

/-- A number, with the positive zero for the negative one. -/
def plusZero (x : Float) : Float :=
  if x = -0 then 0 else x

mutual

/-- The same value with the positive zero for each negative one. -/
def plusZeros : Value → Value
  | .array vs => .array (plusZerosList vs)
  | .bool b => .bool b
  | .number x => .number (plusZero x)
  | .text s => .text s
  | .invalid => .invalid

/-- The same values with the positive zero for each negative one. -/
def plusZerosList : List Value → List Value
  | [] => []
  | v :: vs => v.plusZeros :: plusZerosList vs

end

theorem plusZerosList_eq_map (vs : List Value) : plusZerosList vs = vs.map plusZeros := by
  induction vs with
  | nil => rfl
  | cons v vs ih => rw [plusZerosList, ih, List.map_cons]

/-! ### Equality -/

theorem zero_ne_nan : (0 : Float) ≠ Float.nan := by
  decide

theorem negZero_ne_nan : (-0 : Float) ≠ Float.nan := by
  decide

/-- **Numbers are equal** when they are the same up to the sign of a zero, and none is a
non-number. -/
theorem beq_number_iff {x y : Float} :
    (x == y) = true ↔ plusZero x = plusZero y ∧ x ≠ Float.nan := by
  rw [Float.beq_iff_ne_nan_and_eq]
  constructor
  · rintro ⟨hx, -, rfl | ⟨rfl, rfl⟩ | ⟨rfl, rfl⟩⟩
    · exact ⟨rfl, hx⟩
    · exact ⟨by simp [plusZero], hx⟩
    · exact ⟨by simp [plusZero], hx⟩
  · rintro ⟨h, hx⟩
    rw [plusZero, plusZero] at h
    -- a zero with a sign is the only number that is changed
    by_cases hx₀ : x = -0
    · by_cases hy₀ : y = -0
      · exact ⟨hx, hy₀ ▸ negZero_ne_nan, .inl (hx₀.trans hy₀.symm)⟩
      · rw [if_pos hx₀, if_neg hy₀] at h
        exact ⟨hx, h ▸ zero_ne_nan, .inr (.inr ⟨hx₀, h.symm⟩)⟩
    · by_cases hy₀ : y = -0
      · rw [if_neg hx₀, if_pos hy₀] at h
        exact ⟨hx, hy₀ ▸ negZero_ne_nan, .inr (.inl ⟨h, hy₀⟩)⟩
      · rw [if_neg hx₀, if_neg hy₀] at h
        exact ⟨hx, h ▸ hx, .inl h⟩

theorem equalList_iff {vs ws : List Value} :
    equalList vs ws = true ↔ List.Forall₂ (fun v w => v.equal w = true) vs ws := by
  induction vs generalizing ws with
  | nil => cases ws <;> simp [equalList]
  | cons v vs ih => cases ws <;> simp [equalList, ih]

/-- Nothing that a value holds at any depth, itself included, stands in the way of its equality to
itself. -/
structure Solid (v : Value) : Prop where
  /-- There is no non-number. -/
  nan_not_mem : .number Float.nan ∉ v.parts
  /-- There is no invalid value. -/
  invalid_not_mem : .invalid ∉ v.parts

theorem solid_array {vs : List Value} : (Value.array vs).Solid ↔ ∀ v ∈ vs, v.Solid := by
  constructor
  · intro h v hv
    exact ⟨fun hnan => h.nan_not_mem (mem_parts_array.2 (.inr ⟨v, hv, hnan⟩)),
      fun hinvalid => h.invalid_not_mem (mem_parts_array.2 (.inr ⟨v, hv, hinvalid⟩))⟩
  · intro h
    constructor
    · intro hnan
      rcases mem_parts_array.1 hnan with heq | ⟨v, hv, hnan⟩
      · cases heq
      · exact (h v hv).nan_not_mem hnan
    · intro hinvalid
      rcases mem_parts_array.1 hinvalid with heq | ⟨v, hv, hinvalid⟩
      · cases heq
      · exact (h v hv).invalid_not_mem hinvalid

/-- **When two values are equal**: they are the same up to the signs of zeros, and hold neither a
non-number nor an invalid value. -/
theorem equal_iff {v w : Value} : v.equal w = true ↔ v.plusZeros = w.plusZeros ∧ v.Solid := by
  induction v generalizing w with
  | array vs ih =>
    cases w with
    | array ws =>
      rw [equal, equalList_iff, plusZeros, plusZeros, Value.array.injEq, plusZerosList_eq_map,
        plusZerosList_eq_map, solid_array]
      -- items are compared in pairs, as far as both arrays go
      induction vs generalizing ws with
      | nil => cases ws <;> simp
      | cons v vs ihvs =>
        obtain ⟨hv, hvs⟩ := List.forall_mem_cons.1 ih
        cases ws with
        | nil => simp
        | cons w ws =>
          rw [List.forall₂_cons, hv, ihvs hvs, List.map_cons, List.map_cons, List.cons.injEq,
            List.forall_mem_cons]
          exact and_and_and_comm
    | _ => simp [equal, plusZeros]
  | bool b =>
    have hsolid : (Value.bool b).Solid := ⟨by simp [parts], by simp [parts]⟩
    cases w <;> simp [equal, plusZeros, hsolid]
  | number x =>
    -- a number is solid unless it is the non-number
    have hsolid : (Value.number x).Solid ↔ x ≠ Float.nan :=
      ⟨fun h hx => h.nan_not_mem (hx ▸ List.mem_cons_self), fun hx =>
        ⟨fun h => hx (Value.number.inj (List.mem_singleton.1 h)).symm, by simp [parts]⟩⟩
    cases w with
    | number y => rw [equal, beq_number_iff, plusZeros, plusZeros, Value.number.injEq, hsolid]
    | _ => simp [equal, plusZeros]
  | text s =>
    have hsolid : (Value.text s).Solid := ⟨by simp [parts], by simp [parts]⟩
    cases w with
    | text t => simp [equal, plusZeros, hsolid, Bytes.packed_beq_iff]
    | _ => simp [equal, plusZeros]
  | invalid =>
    have hsolid : ¬Value.invalid.Solid := fun h => h.invalid_not_mem List.mem_cons_self
    cases w <;> simp [equal, hsolid]

/-! ### A partial equivalence -/

section PartialEquivalence

variable {u v w : Value}

theorem plusZero_eq_nan_iff {x : Float} : plusZero x = Float.nan ↔ x = Float.nan := by
  rw [plusZero]
  split
  · rename_i hx
    exact iff_of_false zero_ne_nan (hx ▸ negZero_ne_nan)
  · rfl

/-- A number is no zero when it is not equal to one. -/
theorem plusZero_ne_zero {x : Float} (h : (x == 0) = false) : plusZero x ≠ 0 := by
  intro hx
  refine Bool.false_ne_true (h.symm.trans (beq_number_iff.2 ⟨?_, ?_⟩))
  · rw [hx]
    decide
  · rw [Ne, ← plusZero_eq_nan_iff, hx]
    exact zero_ne_nan

theorem plusZeros_eq_nan_iff : v.plusZeros = .number Float.nan ↔ v = .number Float.nan := by
  cases v <;> simp [plusZeros, plusZero_eq_nan_iff]

theorem plusZeros_eq_invalid_iff : v.plusZeros = .invalid ↔ v = .invalid := by
  cases v <;> simp [plusZeros]

/-- Zeros lose their signs at every depth. -/
theorem parts_plusZeros (v : Value) : v.plusZeros.parts = v.parts.map plusZeros := by
  induction v with
  | array vs ih =>
    rw [parts, List.map_cons, plusZeros, parts, plusZerosList_eq_map, partsList_eq_flatMap,
      partsList_eq_flatMap, List.flatMap_map, List.map_flatMap, List.flatMap_congr ih]
  | _ => rfl

/-- What stands in the way of equality has nothing to do with zeros. -/
theorem solid_plusZeros : v.plusZeros.Solid ↔ v.Solid := by
  have hnan : .number Float.nan ∈ v.plusZeros.parts ↔ .number Float.nan ∈ v.parts := by
    simp only [parts_plusZeros, List.mem_map, plusZeros_eq_nan_iff, exists_eq_right]
  have hinvalid : .invalid ∈ v.plusZeros.parts ↔ .invalid ∈ v.parts := by
    simp only [parts_plusZeros, List.mem_map, plusZeros_eq_invalid_iff, exists_eq_right]
  exact ⟨fun h => ⟨mt hnan.2 h.nan_not_mem, mt hinvalid.2 h.invalid_not_mem⟩,
    fun h => ⟨mt hnan.1 h.nan_not_mem, mt hinvalid.1 h.invalid_not_mem⟩⟩

/-- Equality is symmetric. -/
theorem equal_symm (h : v.equal w = true) : w.equal v = true := by
  obtain ⟨hzeros, hsolid⟩ := equal_iff.1 h
  refine equal_iff.2 ⟨hzeros.symm, ?_⟩
  rw [← solid_plusZeros, ← hzeros, solid_plusZeros]
  exact hsolid

/-- Equality is transitive: what is equal to a value is solid, so nothing is lost on the way. -/
theorem equal_trans (huv : u.equal v = true) (hvw : v.equal w = true) : u.equal w = true := by
  obtain ⟨hzeros, hsolid⟩ := equal_iff.1 huv
  exact equal_iff.2 ⟨hzeros.trans (equal_iff.1 hvw).1, hsolid⟩

/-- A value without negative zeros has no sign to lose. -/
theorem plusZeros_eq_self (h : .number (-0) ∉ v.parts) : v.plusZeros = v := by
  induction v with
  | array vs ih =>
    have hvs : ∀ v ∈ vs, v.plusZeros = v := fun v hv =>
      ih v hv fun hzero => h (mem_parts_array.2 (.inr ⟨v, hv, hzero⟩))
    rw [plusZeros, plusZerosList_eq_map, List.map_congr_left hvs, List.map_id']
  | number x =>
    have hx : x ≠ -0 := fun hx => h (hx ▸ List.mem_cons_self)
    rw [plusZeros, plusZero, if_neg hx]
  | _ => rfl

/-- **Equal values without zeros** are the same. -/
theorem eq_of_equal (h : v.equal w = true) (hv : ∀ x, .number x ∈ v.parts → (x == 0) = false) :
    v = w := by
  have hplus : plusZero 0 = 0 := by decide
  have hminus : plusZero (-0) = 0 := by decide
  have hzeros := (equal_iff.1 h).1
  have hself : v.plusZeros = v :=
    plusZeros_eq_self fun hzero => plusZero_ne_zero (hv _ hzero) hminus
  -- A negative zero in `w` leaves a zero without its sign, which would be one of `v`.
  have hother : w.plusZeros = w := by
    refine plusZeros_eq_self fun hzero => ?_
    have hmem : (Value.number (-0)).plusZeros ∈ w.plusZeros.parts := by
      rw [parts_plusZeros]
      exact List.mem_map_of_mem hzero
    rw [plusZeros, hminus, ← hzeros, hself] at hmem
    exact plusZero_ne_zero (hv 0 hmem) hplus
  rw [← hself, hzeros, hother]

/-- **Equality of values is a partial equivalence, and equal values are shown alike.** It is
symmetric and transitive; a value is equal to itself when it holds neither a non-number nor an
invalid value, at any depth; and two equal values are shown alike when there is no zero in them,
at any depth. -/
theorem equal_partialEquivalence :
    (∀ v w : Value, v.equal w = w.equal v) ∧
    (∀ u v w : Value, u.equal v = true → v.equal w = true → u.equal w = true) ∧
    (∀ v : Value, v.equal v = true ↔ v.Solid) ∧
    ∀ v w : Value, v.equal w = true → (∀ x, .number x ∈ v.parts → (x == 0) = false) →
      v.inspect = w.inspect := by
  refine ⟨fun v w => ?_, fun u v w => equal_trans, fun v => ?_, fun v w h hv => ?_⟩
  · exact Bool.eq_iff_iff.2 ⟨equal_symm, equal_symm⟩
  · rw [equal_iff, eq_self, true_and]
  · rw [eq_of_equal h hv]

/-- The two zeros are equal and not shown alike. -/
example : (number 0).equal (number (-0)) = true ∧
    (number 0).inspect ≠ (number (-0)).inspect := by
  decide

end PartialEquivalence

end Value

end Scriptlet
