import Scriptlet.Text.Glyph

/-!
# Places in a source

The parser works with byte offsets; a person reads **positions**: a line and a column,
both counted from one, the column in glyphs. `Position.ofOffset` turns the one into the other in a
single walk over the source that counts a glyph when it comes to its first byte.

The position `0:0` stands for no place at all: a failure of the run as a whole carries it.
-/

namespace Scriptlet

/-- A line and a column, both counted from one. -/
structure Position where
  /-- The line, counted from one. -/
  line : Nat
  /-- The column, counted in glyphs from one. -/
  column : Nat
  deriving DecidableEq, Repr, Inhabited

namespace Position

/-- The position that is no place in a source. -/
def none : Position := ⟨0, 0⟩

/-- Whether a position stands before another: in an earlier line, or earlier in the same
line. -/
def before (p p' : Position) : Bool :=
  if p.line = p'.line then p.column < p'.column else p.line < p'.line

/-- How many bytes after `b` belong to the same glyph, when `s` follows. -/
def belonging (b : UInt8) (s : Bytes) : Nat :=
  if b < 0x80 then 0 else (Glyph.lead b s).width - 1

/-- The position `ahead` bytes further on in a walk that has come to the position `p`; the
next `skip` bytes belong to a glyph already counted. -/
def walk : (ahead : Nat) → (skip : Nat) → Bytes → (p : Position) → Position
  | 0, _, _, p => p
  | _ + 1, _, [], p => p
  | ahead + 1, skip + 1, _ :: s, p => walk ahead skip s p
  | ahead + 1, 0, b :: s, p =>
    if b = Bytes.newline then walk ahead 0 s ⟨p.line + 1, 1⟩
    else walk ahead (belonging b s) s ⟨p.line, p.column + 1⟩

/-- **The position of a byte offset.** Offsets past the end of the source are at its
end. -/
def ofOffset (source : Bytes) (offset : Nat) : Position :=
  walk offset 0 source ⟨1, 1⟩

/-! ### All offsets of a source

The nodes of a script are marked with many offsets of one source. Their positions are taken from
a single walk that notes the position of every byte, rather than from a walk for each. -/

/-- The positions `seen` so far, followed by those of the bytes of a source and of its end. -/
def trail : (skip : Nat) → Bytes → (p : Position) → (seen : Array Position) → Array Position
  | _, [], p, seen => seen.push p
  | skip + 1, _ :: s, p, seen => trail skip s p (seen.push p)
  | 0, b :: s, p, seen =>
    if b = Bytes.newline then trail 0 s ⟨p.line + 1, 1⟩ (seen.push p)
    else trail (belonging b s) s ⟨p.line, p.column + 1⟩ (seen.push p)

/-- The positions of all offsets of a source, the last being that of its end. -/
def ofOffsets (source : Bytes) : Array Position :=
  trail 0 source ⟨1, 1⟩ #[]

/-- The position of an offset, among those of all offsets. -/
def lookUp (positions : Array Position) (offset : Nat) : Position :=
  positions.getD offset (positions.back?.getD none)

theorem trail_eq_append (skip : Nat) (s : Bytes) (p : Position) (seen : Array Position) :
    trail skip s p seen = seen ++ trail skip s p #[] := by
  induction s generalizing skip p seen with
  | nil => simp [trail]
  | cons b s ih =>
    cases skip with
    | zero =>
      simp only [trail]
      split
      · rw [ih, ih _ _ (#[].push p)]
        simp
      · rw [ih, ih _ _ (#[].push p)]
        simp
    | succ skip =>
      simp only [trail]
      rw [ih, ih _ _ (#[].push p)]
      simp

/-- The trail has the position of every offset, up to the end of the text. -/
theorem getElem?_trail (skip : Nat) (s : Bytes) (p : Position) (ahead : Nat) :
    (trail skip s p #[])[ahead]? =
      if ahead ≤ s.length then some (walk ahead skip s p) else Option.none := by
  induction s generalizing skip p ahead with
  | nil => cases ahead <;> simp [trail, walk]
  | cons b s ih =>
    cases skip with
    | zero =>
      simp only [trail]
      split
      · rename_i h
        rw [trail_eq_append]
        cases ahead <;> simp [walk, h, ih, Array.getElem?_append]
      · rename_i h
        rw [trail_eq_append]
        cases ahead <;> simp [walk, h, ih, Array.getElem?_append]
    | succ skip =>
      simp only [trail]
      rw [trail_eq_append]
      cases ahead <;> simp [walk, ih, Array.getElem?_append]

theorem size_trail (skip : Nat) (s : Bytes) (p : Position) :
    (trail skip s p #[]).size = s.length + 1 := by
  induction s generalizing skip p with
  | nil => simp [trail]
  | cons b s ih =>
    cases skip with
    | zero =>
      simp only [trail]
      split
      · rw [trail_eq_append, Array.size_append, ih]
        simp [Nat.add_comm]
      · rw [trail_eq_append, Array.size_append, ih]
        simp [Nat.add_comm]
    | succ skip =>
      simp only [trail]
      rw [trail_eq_append, Array.size_append, ih]
      simp [Nat.add_comm]

/-- Walking on at the end of a text leads nowhere. -/
theorem walk_of_length_le {s : Bytes} {ahead : Nat} (h : s.length ≤ ahead) (skip : Nat)
    (p : Position) : walk ahead skip s p = walk s.length skip s p := by
  induction s generalizing skip p ahead with
  | nil => cases ahead <;> simp [walk]
  | cons b s ih =>
    cases ahead with
    | zero => simp at h
    | succ ahead =>
      have h : s.length ≤ ahead := Nat.le_of_succ_le_succ h
      cases skip <;> simp [walk, ih h]

/-- **Looking an offset up gives its position.** -/
theorem lookUp_ofOffsets (source : Bytes) (offset : Nat) :
    lookUp (ofOffsets source) offset = ofOffset source offset := by
  have hback : (ofOffsets source).back? = some (walk source.length 0 source ⟨1, 1⟩) := by
    rw [Array.back?, ofOffsets, size_trail, Nat.add_sub_cancel, getElem?_trail,
      if_pos (Nat.le_refl _)]
  rw [lookUp, Array.getD_eq_getD_getElem?, hback, ofOffsets, getElem?_trail]
  split
  · rfl
  · rename_i h
    exact (walk_of_length_le (by omega) 0 _).symm

end Position

end Scriptlet
