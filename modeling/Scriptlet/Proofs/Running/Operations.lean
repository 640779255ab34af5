import Scriptlet.Proofs.Running.Semantics

/-!
# Operations follow the definition of the language

What operators, indices, properties and methods do to values is a function in one place and a few
rules in another. The two say the same, and the function gives every answer that the rules
allow and no other.

The only number that takes work is an index. The rules ask for the place that the number names
when its fraction is cut off, and say so by an inequality between whole numbers; the function
computes that place by a division.
-/

namespace Scriptlet

/-- The result of an operation, with its fault reported at a position. -/
def reportAt (mark : Position) : Except Fault Value → Except ErrorReport Value
  | .ok v => .ok v
  | .error fault => .error ⟨fault.kind, fault.message, mark⟩

/-- **The operators do what their table says**, row by row. -/
theorem combine?_eq_some_iff {op : Operator} {v w u : Value} :
    Value.combine? op v w = some u ↔ TableRow op v w u := by
  have hbne : ∀ s t : ByteArray, (s != t) = true ↔ s ≠ t := by
    intro s t
    rw [bne, Bool.not_eq_true', ← Bool.not_eq_true, Bytes.packed_beq_iff]
  constructor
  · intro h
    unfold Value.combine? at h
    split at h <;> cases h
    · exact .addNumbers _ _
    · exact .subtract _ _
    · exact .multiply _ _
    · exact .divide _ _
    · exact .equalNumbers _ _
    · exact .notEqualNumbers _ _
    · exact .addTexts _ _
    · exact .equalTexts Bytes.packed_beq_iff
    · exact .notEqualTexts (hbne _ _)
    · exact .and _ _
    · exact .or _ _
  · intro h
    cases h with
    | equalTexts h => rw [Value.combine?, Bool.eq_iff_iff.2 (Bytes.packed_beq_iff.trans h.symm)]
    | notEqualTexts h => rw [Value.combine?, Bool.eq_iff_iff.2 ((hbne _ _).trans h.symm)]
    | _ => rfl

/-- Where the table has no row for two values, the operator fails at its own mark. -/
theorem combined_iff {mark : Position} {op : Operator} {v w : Value}
    {r : Except ErrorReport Value} :
    Combined mark op v w r ↔ r = reportAt mark (v.combine op w) := by
  unfold Value.combine
  constructor
  · intro h
    cases h with
    | row hrow => rw [combine?_eq_some_iff.2 hrow, reportAt]
    | mismatch hnone =>
      have hcombine : Value.combine? op v w = none :=
        Option.eq_none_iff_forall_ne_some.2 fun u hu => hnone u (combine?_eq_some_iff.1 hu)
      rw [hcombine]
      rfl
  · rintro rfl
    rcases hc : Value.combine? op v w with _ | u
    · refine .mismatch fun u hu => ?_
      rw [combine?_eq_some_iff.2 hu] at hc
      cases hc
    · exact .row (combine?_eq_some_iff.1 hc)

/-- The whole part of a significand and an exponent is the greatest whole number below their value.
-/
theorem wholePart_eq_iff {m i : Nat} {q : Int} : Binary.wholePart m q = i ↔
    i * Nat.pow 2 (-q).toNat ≤ m * Nat.pow 2 q.toNat ∧
      m * Nat.pow 2 q.toNat < (i + 1) * Nat.pow 2 (-q).toNat := by
  have hpos : 0 < Nat.pow 2 (-q).toNat := Nat.two_pow_pos _
  rw [Binary.wholePart, Nat.div_eq_iff hpos, Nat.succ_mul]
  omega

/-- A number names the place that is left when its fraction is cut off. -/
theorem placeOf?_eq_some_iff {x : Float} {i : Nat} : placeOf? x = some i ↔ NamesPlace x i := by
  unfold placeOf? NamesPlace
  rcases hx : Binary.ofFloat x with _ | _ | ⟨negative, m, q⟩
  · simp
  · simp
  · simp only [Binary.finite.injEq]
    constructor
    · intro h
      split at h
      · cases h
      · rename_i hsign
        have hi := Option.some.inj h
        obtain ⟨hle, hlt⟩ := wholePart_eq_iff.1 hi
        refine ⟨negative, m, q, ⟨rfl, rfl, rfl⟩, hle, hlt, fun hneg => ?_⟩
        rw [hi, hneg] at hsign
        simpa using hsign
    · rintro ⟨_, _, _, ⟨rfl, rfl, rfl⟩, hle, hlt, hneg⟩
      rw [wholePart_eq_iff.2 ⟨hle, hlt⟩]
      cases negative with
      | false => rfl
      | true =>
        obtain rfl := hneg rfl
        rfl

/-- The result of an index expression, with its fault reported at the part to blame. -/
def reportIndex (objectMark placeMark : Position) :
    Except Value.IndexFault Value → Except ErrorReport Value
  | .ok v => .ok v
  | .error (.object fault) => reportAt objectMark (.error fault)
  | .error (.place fault) => reportAt placeMark (.error fault)

/-- The rules for indices blame the object or the place as the operation does. -/
theorem indexed_iff {objectMark placeMark : Position} {v w : Value}
    {r : Except ErrorReport Value} :
    Indexed objectMark placeMark v w r ↔ r = reportIndex objectMark placeMark (v.at? w) := by
  constructor
  · intro h
    cases h with
    | element hplace hget =>
      simp only [Value.at?, placeOf?_eq_some_iff.2 hplace, Option.bind_some, hget, reportIndex]
    | @outOfRange vs x hrange =>
      -- a number that names no place and one that names a place too far have the same fault
      have hnone : ((placeOf? x).bind fun i => vs[i]?) = none := by
        rcases hplace : placeOf? x with _ | i
        · rfl
        · exact List.getElem?_eq_none (hrange i (placeOf?_eq_some_iff.1 hplace))
      simp only [Value.at?, hnone]
      rfl
    | notNumber hkind =>
      cases w with
      | number => exact absurd rfl hkind
      | array | bool | text | invalid => rfl
    | notArray hkind =>
      cases v with
      | array => exact absurd rfl hkind
      | bool | number | text | invalid => rfl
  · rintro rfl
    cases v with
    | array vs =>
      cases w with
      | number x =>
        rcases hget : (placeOf? x).bind fun i => vs[i]? with _ | u
        · have hrange : ∀ i, NamesPlace x i → vs.length ≤ i := by
            intro i hi
            rw [placeOf?_eq_some_iff.2 hi] at hget
            exact List.getElem?_eq_none_iff.1 hget
          simp only [Value.at?, hget]
          exact .outOfRange hrange
        · obtain ⟨i, hplace, hi⟩ := Option.bind_eq_some_iff.1 hget
          simp only [Value.at?, hget]
          exact .element (placeOf?_eq_some_iff.1 hplace) hi
      | array | bool | text | invalid => exact .notNumber fun h => by cases h
    | bool | number | text | invalid => exact .notArray fun h => by cases h

/-- Arrays and texts have a length, and nothing else has. -/
theorem measured_iff {v : Value} {n : Nat} : Measured v n ↔ v.length? = some n := by
  constructor
  · intro h
    cases h with
    | array vs => rfl
    | text s => rw [Bytes.length_unpack, Value.length?]
  · intro h
    cases v with
    | array vs =>
      cases h
      exact .array vs
    | text s =>
      cases h
      rw [← Bytes.length_unpack]
      exact .text s
    | bool | number | invalid => cases h

theorem memberOf_iff {mark : Position} {v : Value} {property : Bytes}
    {r : Except ErrorReport Value} :
    MemberOf mark v property r ↔ r = reportAt mark (v.member property) := by
  unfold Value.member Value.lengthName
  constructor
  · intro h
    cases h with
    | length hname hn =>
      rw [if_pos hname, measured_iff.1 hn]
      rfl
    | unknown hnone =>
      have hlength : (if property = Bytes.ofString "length" then v.length? else none) = none := by
        split
        · rename_i hname
          exact Option.eq_none_iff_forall_ne_some.2 fun n hn => hnone hname n (measured_iff.2 hn)
        · rfl
      rw [hlength]
      rfl
  · rintro rfl
    rcases hlength : (if property = Bytes.ofString "length" then v.length? else none) with _ | n
    · refine .unknown fun hname n hn => ?_
      rw [if_pos hname, measured_iff.1 hn] at hlength
      cases hlength
    · split at hlength
      · rename_i hname
        exact .length hname (measured_iff.2 hlength)
      · cases hlength

theorem methodOf_iff {mark : Position} {v : Value} {name : Bytes} {ws : List Value}
    {r : Except ErrorReport Value} :
    MethodOf mark v name ws r ↔ r = reportAt mark (v.method name ws) := by
  have hbegins : ∀ {s p : ByteArray} {b : Bool},
      (b = true ↔ ∃ rest, Bytes.unpack s = Bytes.unpack p ++ rest) ↔
        b = Bytes.packedBeginsWith s p := by
    intro s p b
    rw [← Bytes.beginsWith_eq_true_iff, ← Bytes.packedBeginsWith_eq]
    exact Bool.eq_iff_iff.symm
  unfold Value.method Value.startsWithName
  constructor
  · intro h
    cases h with
    | startsWith hb =>
      rw [hbegins.1 hb]
      rfl
    | @argument s w hkind =>
      cases w with
      | text => exact absurd rfl hkind
      | array | bool | number | invalid => rfl
    | @arity s ws hlength =>
      match ws, hlength with
      | [], _ => rfl
      | [_], hlength => exact absurd rfl hlength
      | w :: _ :: _, _ => cases w <;> rfl
    | unknown hnot =>
      cases v with
      | text s =>
        have hname : name ≠ Bytes.ofString "starts_with" := fun h => hnot ⟨rfl, h⟩
        simp only [if_neg hname]
        rfl
      | array | bool | number | invalid => rfl
  · rintro rfl
    cases v with
    | text s =>
      by_cases hname : name = Bytes.ofString "starts_with"
      · subst hname
        match ws with
        | [] => exact .arity (by decide)
        | [.text p] => exact .startsWith (hbegins.2 rfl)
        | [.array _] | [.bool _] | [.number _] | [.invalid] => exact .argument fun h => by cases h
        | w :: w' :: ws =>
          have hlength : (w :: w' :: ws).length ≠ 1 := by simp
          cases w <;> exact .arity hlength
      · simp only [if_neg hname]
        exact .unknown fun h => hname h.2
    | array | bool | number | invalid => exact .unknown fun h => by cases h.1

end Scriptlet
