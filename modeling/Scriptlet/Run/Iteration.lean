/-!
# Going on until there is a result

A step leads from a state to the next one, or to a result. Taking one step after another comes to
a result or goes on for good, and there is no telling beforehand. **`iterate?`** takes the steps;
where they go on for good it has no result, and that is all there is to say about it
(`iterate?_eq_some_iff`).

The loop keeps, in the types of its states and of its results, the proof that steps from the
beginning have led to them. So whatever a loop without an end may be taken to be, it is not a
result that steps do not lead to.
-/

namespace Scriptlet

variable {σ β : Type} {next : σ → σ ⊕ β}

/-- **Steps lead from a state to a result.** -/
inductive Leads (next : σ → σ ⊕ β) : σ → β → Prop where
  /-- The last step. -/
  | last {x b} : next x = .inr b → Leads next x b
  /-- A step, and others after it. -/
  | again {x y b} : next x = .inl y → Leads next y b → Leads next x b

/-- One step, on the way from the state `start`. -/
def advance (next : σ → σ ⊕ β) (start : σ)
    (x : { x : σ // ∀ b, Leads next x b → Leads next start b }) :
    { x : σ // ∀ b, Leads next x b → Leads next start b } ⊕
      Option { b : β // Leads next start b } :=
  match h : next x.1 with
  | .inl y => .inl ⟨y, fun b hb => x.2 b (.again h hb)⟩
  | .inr b => .inr (some ⟨b, x.2 b (.last h)⟩)

/-- **Takes steps until there is a result.** -/
def iterate? (next : σ → σ ⊕ β) (start : σ) : Option β :=
  (repeatM (m := Id) (advance next start) ⟨start, fun _ h => h⟩).map Subtype.val

theorem advance_of_inl {start y : σ} {x : { x : σ // ∀ b, Leads next x b → Leads next start b }}
    (h : next x.1 = .inl y) :
    advance next start x = .inl ⟨y, fun b hb => x.2 b (.again h hb)⟩ := by
  unfold advance
  split
  · rename_i y' h'
    obtain rfl := Sum.inl.inj (h.symm.trans h')
    rfl
  · rename_i b h'
    cases h.symm.trans h'

theorem advance_of_inr {start : σ} {b : β}
    {x : { x : σ // ∀ b, Leads next x b → Leads next start b }} (h : next x.1 = .inr b) :
    advance next start x = .inr (some ⟨b, x.2 b (.last h)⟩) := by
  unfold advance
  split
  · rename_i y h'
    cases h.symm.trans h'
  · rename_i b' h'
    obtain rfl := Sum.inr.inj (h.symm.trans h')
    rfl

/-- On the way from `start`, taking steps from any state comes to the result that they lead to. -/
theorem repeatM_of_leads {start x : σ} {b : β} (h : Leads next x b)
    (hx : ∀ b, Leads next x b → Leads next start b) :
    repeatM (m := Id) (advance next start) ⟨x, hx⟩ = some ⟨b, hx b h⟩ := by
  induction h with
  | last hlast =>
    rw [repeatM_eq_of_monadTail, repeatM.body, advance_of_inr hlast]
    rfl
  | again hagain hlead ih =>
    rw [repeatM_eq_of_monadTail, repeatM.body, advance_of_inl hagain]
    exact ih fun b hb => hx b (.again hagain hb)

/-- **The result of taking steps is the one that they lead to.** -/
theorem iterate?_eq_some_iff {start : σ} {b : β} :
    iterate? next start = some b ↔ Leads next start b := by
  constructor
  · intro h
    obtain ⟨⟨b, hb⟩, -, rfl⟩ := Option.map_eq_some_iff.1 h
    exact hb
  · intro h
    exact Option.map_eq_some_iff.2 ⟨⟨b, h⟩, repeatM_of_leads h fun _ h => h, rfl⟩

theorem iterate?_of_inl {x y : σ} (h : next x = .inl y) : iterate? next x = iterate? next y := by
  ext b
  rw [iterate?_eq_some_iff, iterate?_eq_some_iff]
  constructor
  · intro hlead
    cases hlead with
    | last hlast => cases h.symm.trans hlast
    | again hagain hlead =>
      obtain rfl := Sum.inl.inj (h.symm.trans hagain)
      exact hlead
  · exact .again h

end Scriptlet
