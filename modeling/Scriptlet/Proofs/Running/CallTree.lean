import Mathlib.Data.List.Chain
import Scriptlet.Run.Eval

/-!
# Call trees

Calls nest, so those that were made so far and those that are open now belong together: a call is
made when it is opened, one deeper than the calls that were open, and it is over before any of
those is. This is all there is to the relation between the two (`Opened`), with a limit on how many
calls are open at once.

The depths that are recorded tell the tree of the calls. They begin at one and never go up by more
than one (`Opened.nested`), and the calls that are open are the last ones at their depths
(`Opened.last`), since whatever was opened after them was opened inside of them.
-/

namespace Scriptlet

/-- **The calls made so far, latest first, and those of them that are open**, innermost first. -/
inductive Opened (limit : Nat) : List Frame → List CallRecord → Prop where
  /-- In the beginning. -/
  | start : Opened limit [] []
  /-- A call is opened. -/
  | enter {frames : List Frame} {calls : List CallRecord} (name : Bytes) (site : Position) :
    Opened limit frames calls → frames.length < limit →
    Opened limit (⟨name, site⟩ :: frames) (⟨name, frames.length + 1⟩ :: calls)
  /-- The innermost call is over. -/
  | leave {frame : Frame} {frames : List Frame} {calls : List CallRecord} :
    Opened limit (frame :: frames) calls → Opened limit frames calls

/-- **Depths that calls can have** one after another, when they nest and no more than a limit are
open at once. -/
structure Nested (limit : Nat) (calls : List CallRecord) : Prop where
  first : ∀ record ∈ calls.head?, record.depth = 1
  next : calls.IsChain fun record next =>
    1 ≤ next.depth ∧ next.depth ≤ min (record.depth + 1) limit

/-- **The last call of a depth** in a list of calls, with what came before it and after it. -/
def LastAt (depth : Nat) (name : Bytes) (calls : List CallRecord) : Prop :=
  ∃ before after, calls = before ++ ⟨name, depth⟩ :: after ∧ ∀ c ∈ after, c.depth ≠ depth

namespace Opened

variable {limit : Nat} {frames : List Frame} {calls : List CallRecord}

/-- No more calls are open than the latest call was deep. -/
theorem length_le (h : Opened limit frames calls) :
    frames.length ≤ (calls.head?.map CallRecord.depth).getD 0 := by
  induction h with
  | start => exact Nat.le_refl 0
  | enter name site h hroom ih => exact Nat.le_refl _
  | leave h ih => exact Nat.le_of_succ_le ih

/-- **The calls made so far nest.** From one call to the next the depth goes up by one at most,
since no more calls are open than the latest one was deep. -/
theorem nested (h : Opened limit frames calls) : Nested limit calls.reverse := by
  induction h with
  | start => exact ⟨by simp, .nil⟩
  | @enter frames calls name site h hroom ih =>
    have hdeep := h.length_le
    rw [List.reverse_cons]
    cases calls with
    | nil =>
      have hempty : frames.length = 0 := Nat.le_zero.1 hdeep
      exact ⟨by simp [hempty], .singleton _⟩
    | cons record calls =>
      have hdeep : frames.length ≤ record.depth := hdeep
      refine ⟨fun c hc => ih.first c ?_, ?_⟩
      · rwa [List.head?_append_of_ne_nil _ (by simp)] at hc
      · refine ih.next.append (.singleton _) fun c hc next hnext => ?_
        rw [List.getLast?_reverse] at hc
        cases hc
        cases hnext
        exact ⟨Nat.succ_pos _, by dsimp only; omega⟩
  | leave h ih => exact ih

/-- **The calls that are open are the last ones at their depths.** -/
theorem last (h : Opened limit frames calls) {i : Nat} {frame : Frame}
    (hi : frames[i]? = some frame) :
    LastAt (frames.length - i) frame.function calls.reverse := by
  induction h generalizing i with
  | start => cases hi
  | @enter frames calls name site h hroom ih =>
    cases i with
    | zero =>
      cases hi
      exact ⟨calls.reverse, [], List.reverse_cons, by simp⟩
    | succ i =>
      -- the new call is deeper than all that were open
      have hi : frames[i]? = some frame := hi
      have hlt : i < frames.length := (List.getElem?_eq_some_iff.1 hi).1
      obtain ⟨before, after, hcalls, hafter⟩ := ih hi
      rw [List.length_cons, Nat.add_sub_add_right]
      refine ⟨before, after ++ [⟨name, frames.length + 1⟩], ?_, fun c hc => ?_⟩
      · rw [List.reverse_cons, hcalls, List.append_assoc, List.cons_append]
      · rcases List.mem_append.1 hc with hc | hc
        · exact hafter c hc
        · obtain rfl := List.mem_singleton.1 hc
          dsimp only
          omega
  | leave h ih =>
    have hlast := ih (i := i + 1) hi
    rwa [List.length_cons, Nat.add_sub_add_right] at hlast

end Opened

end Scriptlet
