import Scriptlet.Console.InputLine
import Scriptlet.Text.Cluster

/-!
# The input field

A line can be longer than the room that it has on the screen. The **field** shows one stretch of
it, and the stretch follows the cursor: it stays where it is as long as the cursor stands before
its end, and moves when the cursor leaves it, just so far that the cursor is in it again.

Whether there is room for a line is a matter of the cells that it takes when it is drawn. How far
a stretch reaches is found by adding up the cells of its characters one by one, which may come to
another number: a stretch may hold more characters than there are cells, or fewer.

Only an edit moves the stretch. When the room changes, the same stretch is shown until the next
edit, be it too long for the room or too short. An edit that passes other places on its way to
where it leaves the cursor moves the stretch at each of them.
-/

namespace Scriptlet

/-! ### Stretches -/

/-- A stretch of a line. -/
structure Stretch where
  /-- How many characters stand before the stretch. -/
  first : Nat
  /-- How many characters stand before its end. -/
  past : Nat
  deriving DecidableEq, Repr

namespace Stretch

/-- A stretch lies in a line and has the cursor in it or at its end. -/
structure Holds (s : Stretch) (line : InputLine) : Prop where
  /-- The stretch does not begin after the cursor. -/
  first_le : s.first ≤ line.cursor
  /-- The stretch does not end before the cursor. -/
  le_past : line.cursor ≤ s.past
  /-- The stretch ends in the line. -/
  past_le : s.past ≤ line.text.length

/-- How many of some characters are shown when they follow the beginning of a stretch, and take
at most one cell more than there is room for. -/
def ahead (room : Nat) : (used : Nat) → List Char → Nat
  | _, [] => 0
  | used, c :: cs =>
    if room < used ∨ room + 1 < used + cellWidth c then 0
    else ahead room (used + cellWidth c) cs + 1

/-- How many of some characters, nearest first, are shown when they stand before the end of a
stretch, and take no more cells than there is room for. -/
def behind (room : Nat) : (used : Nat) → List Char → Nat
  | _, [] => 0
  | used, c :: cs =>
    if room ≤ used ∨ room < used + cellWidth c then 0
    else behind room (used + cellWidth c) cs + 1

theorem ahead_le_length (room used : Nat) (cs : List Char) : ahead room used cs ≤ cs.length := by
  induction cs generalizing used with
  | nil => simp [ahead]
  | cons c cs ih =>
    rw [ahead]
    split
    · exact Nat.zero_le _
    · exact Nat.succ_le_succ (ih _)

/-- **The stretch that follows the cursor.** A line for which there is room is shown whole. Else a
cursor before the stretch becomes its beginning, and a cursor at the end of the stretch or beyond
it becomes its end; what there is room for is shown after it or before it, but before it never
the first character of the line. -/
def follow (s : Stretch) (room : Int) (line : InputLine) : Stretch :=
  let length := line.text.length
  if room ≤ 0 ∨ displayWidth line.text ≤ room then ⟨0, length⟩
  else if line.cursor < s.first ∧ line.cursor < length then
    ⟨line.cursor, line.cursor + ahead room.toNat 0 (line.text.drop line.cursor)⟩
  else if min s.past length ≤ line.cursor then
    ⟨line.cursor - behind room.toNat 0 ((line.text.take line.cursor).drop 1).reverse, line.cursor⟩
  else ⟨s.first, min s.past length⟩

theorem holds_follow (s : Stretch) (room : Int) (line : InputLine) :
    (s.follow room line).Holds line := by
  have h := line.cursor_le
  simp only [follow]
  split
  · exact ⟨Nat.zero_le _, h, Nat.le_refl _⟩
  · split
    · refine ⟨Nat.le_refl _, Nat.le_add_right .., ?_⟩
      have := ahead_le_length room.toNat 0 (line.text.drop line.cursor)
      rw [List.length_drop] at this
      simp only
      omega
    · split
      · exact ⟨Nat.sub_le .., Nat.le_refl _, h⟩
      · exact ⟨by simp only; omega, by simp only; omega, Nat.min_le_right ..⟩

end Stretch

/-! ### Fields -/

/-- **A line with the stretch of it that is shown.** -/
structure InputField where
  /-- The line. -/
  line : InputLine
  /-- The number of cells that a line should take. -/
  room : Int
  /-- The stretch that is shown. -/
  shown : Stretch
  /-- The cursor can be seen. -/
  holds : shown.Holds line

namespace InputField

/-- The room of a field before the size of the window is known. -/
def initialRoom : Int := 60

/-- The field with an empty line. -/
def empty : InputField where
  line := .empty
  room := initialRoom
  shown := ⟨0, 0⟩
  holds := ⟨Nat.le_refl 0, Nat.le_refl 0, Nat.le_refl 0⟩

/-- The field with another line, to which the stretch has moved. -/
def follow (f : InputField) (line : InputLine) : InputField :=
  { f with
    line
    shown := f.shown.follow f.room line
    holds := f.shown.holds_follow f.room line }

@[simp]
theorem line_follow (f : InputField) (line : InputLine) : (f.follow line).line = line := rfl

/-- The field with the cursor moved to places in turn. -/
def visit (f : InputField) (places : List Nat) : InputField :=
  places.foldl (fun f place => f.follow (f.line.moveTo place)) f

/-- The field with its stretch extended to the beginning of the line. -/
def unroll (f : InputField) : InputField :=
  { f with shown := ⟨0, f.shown.past⟩, holds := { f.holds with first_le := Nat.zero_le _ } }

/-- The field after characters were typed. -/
def insert (f : InputField) (s : List Char) : InputField :=
  f.follow (f.line.insert s)

/-- The field with another text and the cursor at its end. -/
def set (f : InputField) (s : List Char) : InputField :=
  f.follow (f.line.set s).moveToEnd

/-- The field in a new room. -/
def resize (f : InputField) (room : Int) : InputField :=
  { f with room }

/-- **The field after an edit.** The erasure of the word before the cursor passes the place before
that word, unless it begins the line; the erasure of the word after the cursor passes the end
of that word; the erasure of all before the cursor shows the line from its beginning. -/
def edit (f : InputField) (e : InputLine.Edit) : InputField :=
  let passed :=
    match e with
    | .eraseWordBack => f.visit [f.line.eraseStart - 1, f.line.eraseStart]
    | .eraseWordHere => f.visit [f.line.cursor + f.line.eraseLength]
    | .eraseToStart => f.unroll
    | _ => f
  passed.follow (f.line.edit e)

@[simp]
theorem line_edit (f : InputField) (e : InputLine.Edit) : (f.edit e).line = f.line.edit e := rfl

/-- The characters that are shown. -/
def visible (f : InputField) : List Char :=
  (f.line.text.take f.shown.past).drop f.shown.first

/-- Whether the cursor stands after the characters that are shown. -/
def cursorAtEnd (f : InputField) : Bool :=
  f.line.cursor == f.shown.past

end InputField

end Scriptlet
