import Mathlib.Order.Monotone.Basic
import Scriptlet.Proofs.Layout.Reflow
import Scriptlet.Proofs.Parsing.Lines
import Scriptlet.Proofs.Text.Plain
import Scriptlet.Text.Utf16

/-!
# Columns

A place in a text is told in three ways: by the bytes before it, by its line and the glyphs before
it in the line, and by its line and the UTF-16 units before it. They are computed differently.
Glyphs before an offset are counted in a walk that stops there, and units on the whole line; so the
three agree only where the glyphs of the line can be told from its two pieces.

That is so after a **plain** byte, one that is a character of its own (`Bytes.EndsPlain`). Whatever
stands before it, well-formed or not, is read the same with anything behind it
(`Bytes.glyphsFrom_append`), since the characters of more than one byte hold no plain one. A
**foothold** of a text is an offset after a plain byte, or at the beginning.
`Foothold.exists_line` says all there is to say about the position of one.
-/

namespace Scriptlet

/-! ### Glyphs of two pieces -/

/-- A text is empty or ends with a character of one byte. -/
def Bytes.EndsPlain (s : Bytes) : Prop :=
  ∀ b ∈ s.getLast?, b < 0x80

section EndsPlain

open Glyph

variable {a b : UInt8} {s u v : Bytes}

theorem Bytes.endsPlain_nil : EndsPlain [] := by
  simp [EndsPlain]

theorem Bytes.endsPlain_of_forall (h : ∀ b ∈ s, b < 0x80) : EndsPlain s :=
  fun b hb => h b (List.mem_of_getLast? hb)

theorem Bytes.endsPlain_concat (s : Bytes) (hb : b < 0x80) : EndsPlain (s ++ [b]) := by
  simpa [EndsPlain] using hb

/-- Of two texts that end plain, the one after the other ends plain. -/
theorem Bytes.EndsPlain.append (hu : EndsPlain u) (hv : EndsPlain v) : EndsPlain (u ++ v) := by
  intro b hb
  rw [List.getLast?_append, Option.mem_def, Option.or_eq_some_iff] at hb
  rcases hb with hb | ⟨-, hb⟩
  · exact hv b hb
  · exact hu b hb

theorem Bytes.EndsPlain.of_append (h : EndsPlain (u ++ v)) : EndsPlain v := by
  intro b hb
  refine h b ?_
  rw [List.getLast?_append, Option.mem_def.1 hb]
  rfl

/-- A byte that is not plain is not the last one. -/
theorem Bytes.EndsPlain.ne_nil (h : EndsPlain (b :: s)) (hb : ¬b < 0x80) : s ≠ [] := by
  rintro rfl
  exact hb (h b rfl)

theorem not_isTail_of_lt (hb : b < 0x80) : isTail b = false := by
  rw [isTail, Bool.and_eq_false_iff]
  exact .inl (decide_eq_false (UInt8.not_le.2 hb))

/-- **Which character begins at a byte** is told by what follows up to a plain byte. -/
theorem lead_append (h : Bytes.EndsPlain (a :: s)) (v : Bytes) : lead a (s ++ v) = lead a s := by
  by_cases ha : a < 0x80
  · rw [Bytes.lead_of_lt ha, Bytes.lead_of_lt ha]
  · -- A plain byte is no tail, so a form that is cut short before it is none with more behind it.
    have hlast : ∀ w b, s = w ++ [b] → isTail b = false := by
      rintro w b rfl
      exact not_isTail_of_lt (h b (by rw [← List.cons_append, List.getLast?_concat]; rfl))
    rw [lead, lead]
    rcases s with _ | ⟨b₁, _ | ⟨b₂, _ | ⟨b₃, s⟩⟩⟩
    · exact absurd rfl (h.ne_nil ha)
    · have h₁ := hlast [] b₁ rfl
      rcases v with _ | ⟨c₁, _ | ⟨c₂, v⟩⟩ <;> simp [lead?, h₁]
    · have h₂ := hlast [b₁] b₂ rfl
      rcases v with _ | ⟨c₁, v⟩ <;> simp [lead?, h₂]
    · rfl

/-- How many bytes after the first a glyph takes, as the walk that finds positions counts them. -/
theorem width_sub_one (b : UInt8) (s : Bytes) :
    (lead b s).width - 1 = Position.belonging b s := by
  rw [Position.belonging]
  split
  · rename_i hb
    rw [Bytes.lead_of_lt hb, width, Bytes.utf8Size_asciiChar hb]
  · rfl

theorem Glyph.width_pos (r : Glyph) : 0 < r.width := by
  cases r with
  | char c => exact c.utf8Size_pos
  | stray b => exact Nat.one_pos

theorem belonging_append (h : Bytes.EndsPlain (b :: s)) (v : Bytes) :
    Position.belonging b (s ++ v) = Position.belonging b s := by
  rw [← width_sub_one, ← width_sub_one, lead_append h]

/-- **Glyphs of two pieces**, when the first one ends with a plain byte. -/
theorem Bytes.glyphsFrom_append (hu : EndsPlain u) {skip : Nat} (hskip : skip ≤ u.length)
    (v : Bytes) : glyphsFrom skip (u ++ v) = glyphsFrom skip u ++ glyphs v := by
  induction u generalizing skip with
  | nil =>
    obtain rfl := Nat.le_zero.1 hskip
    rfl
  | cons b u ih =>
    have htail : EndsPlain u := EndsPlain.of_append (u := [b]) hu
    cases skip with
    | succ skip => exact ih htail (Nat.le_of_succ_le_succ hskip)
    | zero =>
      have hbelonging : (lead b u).width - 1 ≤ u.length :=
        width_sub_one b u ▸ (tails_belonging b u).1
      rw [List.cons_append, glyphsFrom, glyphsFrom, lead_append hu, ih htail hbelonging,
        List.cons_append]

/-- **The glyphs of two texts in a row** are those of each of them, when the first ends plain. -/
theorem Bytes.glyphs_append (hu : EndsPlain u) (v : Bytes) :
    glyphs (u ++ v) = glyphs u ++ glyphs v :=
  glyphsFrom_append hu (Nat.zero_le _) v

/-- How many bytes glyphs take. -/
def sizeOfGlyphs : List Glyph → Nat
  | [] => 0
  | r :: rs => r.width + sizeOfGlyphs rs

/-- Every byte belongs to one glyph. -/
theorem Bytes.sizeOfGlyphs_glyphsFrom {skip : Nat} (hskip : skip ≤ s.length) :
    skip + sizeOfGlyphs (glyphsFrom skip s) = s.length := by
  induction s generalizing skip with
  | nil =>
    obtain rfl := Nat.le_zero.1 hskip
    rfl
  | cons b s ih =>
    cases skip with
    | succ skip =>
      have hrest := ih (Nat.le_of_succ_le_succ hskip)
      rw [glyphsFrom, List.length_cons]
      omega
    | zero =>
      have hbelonging : (lead b s).width - 1 ≤ s.length :=
        width_sub_one b s ▸ (tails_belonging b s).1
      have hrest := ih hbelonging
      have hpos := (lead b s).width_pos
      rw [glyphsFrom, sizeOfGlyphs, List.length_cons]
      omega

theorem Bytes.sizeOfGlyphs_glyphs (s : Bytes) : sizeOfGlyphs (glyphs s) = s.length := by
  have hsize := sizeOfGlyphs_glyphsFrom (Nat.zero_le s.length)
  rwa [Nat.zero_add] at hsize

end EndsPlain

/-! ### The walk to a foothold -/

section Walk

variable {l u v : Bytes} {p : Position}

/-- A walk over the rest of a line and its end comes to the beginning of the next one. -/
theorem walk_line (hl : Bytes.newline ∉ l) {skip : Nat} (hskip : skip ≤ l.length) (n : Nat)
    (s : Bytes) (p : Position) :
    Position.walk (l.length + 1 + n) skip (l ++ Bytes.newline :: s) p =
      Position.walk n 0 s ⟨p.line + 1, 1⟩ := by
  induction l generalizing skip p with
  | nil =>
    obtain rfl := Nat.le_zero.1 hskip
    rw [List.length_nil, Nat.zero_add, Nat.add_comm, List.nil_append, Position.walk, if_pos rfl]
  | cons b l ih =>
    obtain ⟨hb, hl⟩ := not_or.1 (mt List.mem_cons.2 hl)
    have hlength : (b :: l).length + 1 + n = l.length + 1 + n + 1 := by
      rw [List.length_cons]
      omega
    rw [hlength, List.cons_append]
    cases skip with
    | succ skip => exact ih hl (Nat.le_of_succ_le_succ hskip) p
    | zero =>
      rw [Position.walk, if_neg (Ne.symm hb), ih hl]
      -- The glyph that begins here does not reach over the end of the line.
      by_contra hlong
      refine not_newline_of_belonging b (l ++ Bytes.newline :: s) Bytes.newline ?_ rfl
      refine List.mem_of_getElem? (i := l.length) ?_
      rw [List.getElem?_take_of_lt (by omega)]
      simp

/-- A walk over whole lines. -/
theorem walk_lines {ls : List Bytes} (hls : ∀ l ∈ ls, Bytes.newline ∉ l) (n : Nat) (s : Bytes)
    (m : Nat) :
    Position.walk ((ls.flatMap (· ++ [Bytes.newline])).length + n) 0
        (ls.flatMap (· ++ [Bytes.newline]) ++ s) ⟨m, 1⟩ =
      Position.walk n 0 s ⟨m + ls.length, 1⟩ := by
  induction ls generalizing m with
  | nil => simp
  | cons l ls ih =>
    obtain ⟨hl, hls⟩ := List.forall_mem_cons.1 hls
    have hwalk := walk_line hl (Nat.zero_le _)
      ((ls.flatMap (· ++ [Bytes.newline])).length + n) (ls.flatMap (· ++ [Bytes.newline]) ++ s)
      ⟨m, 1⟩
    rw [ih hls] at hwalk
    simpa [Nat.add_assoc, Nat.add_comm, Nat.add_left_comm] using hwalk

/-- **A walk to a foothold in a line** counts the glyphs up to there. -/
theorem walk_column (hl : Bytes.newline ∉ l) (hplain : Bytes.EndsPlain l) {skip : Nat}
    (hskip : skip ≤ l.length) (v : Bytes) (p : Position) :
    Position.walk l.length skip (l ++ v) p =
      ⟨p.line, p.column + (Bytes.glyphsFrom skip l).length⟩ := by
  induction l generalizing skip p with
  | nil =>
    obtain rfl := Nat.le_zero.1 hskip
    rfl
  | cons b l ih =>
    obtain ⟨hb, hl⟩ := not_or.1 (mt List.mem_cons.2 hl)
    have htail : Bytes.EndsPlain l := Bytes.EndsPlain.of_append (u := [b]) hplain
    cases skip with
    | succ skip => exact ih hl htail (Nat.le_of_succ_le_succ hskip) p
    | zero =>
      rw [List.length_cons, List.cons_append, Position.walk, if_neg (Ne.symm hb),
        belonging_append hplain, ih hl htail (tails_belonging b l).1, Bytes.glyphsFrom,
        width_sub_one, List.length_cons, Nat.add_assoc, Nat.add_comm 1]

end Walk

/-! ### Footholds -/

/-- **A foothold** of a text: an offset after a plain byte, or at the beginning. -/
def Foothold (source : Bytes) (k : Nat) : Prop :=
  ∃ u v, source = u ++ v ∧ u.length = k ∧ Bytes.EndsPlain u

/-- How many bytes lines take, with their ends. -/
def sizeOfLines (ls : List Bytes) : Nat :=
  (ls.flatMap (· ++ [Bytes.newline])).length

/-- Joined lines are lines that end in a line feed, and a last one. -/
theorem join_concat_line (ls : List Bytes) (l : Bytes) :
    Bytes.join [Bytes.newline] (ls ++ [l]) = ls.flatMap (· ++ [Bytes.newline]) ++ l := by
  induction ls with
  | nil => rfl
  | cons l' ls ih =>
    obtain ⟨x, xs, hx⟩ := List.exists_cons_of_ne_nil (List.concat_ne_nil l ls)
    rw [List.cons_append, List.flatMap_cons, List.append_assoc, ← ih, hx]
    rfl

theorem foothold_zero (source : Bytes) : Foothold source 0 :=
  ⟨[], source, rfl, rfl, Bytes.endsPlain_nil⟩

theorem exists_lines_eq (u : Bytes) : ∃ before pre, Bytes.lines u = before ++ [pre] :=
  ⟨_, _, (List.dropLast_concat_getLast (Bytes.parts_ne_nil _ u)).symm⟩

theorem eq_of_lines_eq {u pre : Bytes} {before : List Bytes}
    (h : Bytes.lines u = before ++ [pre]) : before.flatMap (· ++ [Bytes.newline]) ++ pre = u := by
  rw [← join_concat_line, ← h]
  exact Bytes.join_parts _ u

/-- **The position after a text** that ends with a plain byte is told by its lines, whatever comes
behind it. -/
theorem ofOffset_append {u pre : Bytes} {before : List Bytes} (hu : Bytes.EndsPlain u)
    (hlines : Bytes.lines u = before ++ [pre]) (v : Bytes) :
    Position.ofOffset (u ++ v) u.length = ⟨before.length + 1, Bytes.glyphCount pre + 1⟩ := by
  have hfree : ∀ l ∈ before ++ [pre], Bytes.newline ∉ l :=
    fun l hl => Bytes.not_mem_of_mem_parts (hlines ▸ hl)
  obtain rfl := eq_of_lines_eq hlines
  rw [Position.ofOffset, List.length_append, List.append_assoc,
    walk_lines fun l hl => hfree l (List.mem_append_left _ hl),
    walk_column (hfree pre (by simp)) hu.of_append (Nat.zero_le _), Nat.add_comm 1, Nat.add_comm 1]
  rfl

/-- **The position of a foothold.** It is in a line of the text, which the foothold divides in two,
and tells the lines before it and the glyphs of the first half. The glyphs of the line are those of
the two halves. -/
theorem Foothold.exists_line {source : Bytes} {k : Nat} (h : Foothold source k) :
    ∃ before pre post after, Bytes.lines source = before ++ (pre ++ post) :: after ∧
      k = sizeOfLines before + pre.length ∧
      Position.ofOffset source k = ⟨before.length + 1, Bytes.glyphCount pre + 1⟩ ∧
      Bytes.glyphs (pre ++ post) = Bytes.glyphs pre ++ Bytes.glyphs post := by
  obtain ⟨u, v, rfl, rfl, hu⟩ := h
  obtain ⟨before, pre, hpre⟩ := exists_lines_eq u
  obtain ⟨post, after, hpost⟩ := List.exists_cons_of_ne_nil (Bytes.parts_ne_nil Bytes.newline v)
  have hu' := eq_of_lines_eq hpre
  refine ⟨before, pre, post, after, ?_, ?_, ofOffset_append hu hpre v,
    Bytes.glyphs_append (hu'.symm ▸ hu).of_append post⟩
  · rw [Bytes.lines, Layout.parts_append, hpost, ← Bytes.lines, hpre,
      Layout.glue_append (List.cons_ne_nil _ _)]
    rfl
  · rw [← hu', List.length_append, sizeOfLines]

theorem getElem?_lines {source line : Bytes} {before after : List Bytes}
    (h : Bytes.lines source = before ++ line :: after) :
    (Bytes.lines source)[before.length]? = some line := by
  rw [h, List.getElem?_append_right (Nat.le_refl _), Nat.sub_self]
  rfl

/-! ### UTF-16 units -/

section Units

theorem Glyph.units_pos (r : Glyph) : 0 < r.units := by
  cases r with
  | char c =>
    rw [units]
    split <;> omega
  | stray b => exact Nat.one_pos

/-- Every glyph takes units, and so does every place past the end of the line. -/
theorem unitsOfGlyphs_lt_succ (rs : List Glyph) (n : Nat) :
    unitsOfGlyphs rs n < unitsOfGlyphs rs (n + 1) := by
  induction rs generalizing n with
  | nil => cases n <;> exact Nat.lt_succ_self _
  | cons r rs ih =>
    cases n with
    | zero => exact Nat.lt_of_lt_of_le r.units_pos (Nat.le_add_right _ _)
    | succ n => exact Nat.add_lt_add_left (ih n) _

/-- Each glyph has a unit of its own at least. -/
theorem unitsOfGlyphs_strictMono (rs : List Glyph) : StrictMono (unitsOfGlyphs rs) :=
  strictMono_nat_of_lt_succ (unitsOfGlyphs_lt_succ rs)

/-- **The way from units to glyphs** is told by the way from glyphs to units. -/
theorem glyphsOfUnits_le_iff {rs : List Glyph} {u k : Nat} :
    glyphsOfUnits rs u ≤ k ↔ u ≤ unitsOfGlyphs rs k ∨ rs.length ≤ k := by
  induction rs generalizing u k with
  | nil => simp [glyphsOfUnits]
  | cons r rs ih =>
    cases u with
    | zero => simp [glyphsOfUnits]
    | succ u =>
      cases k with
      | zero => simp [glyphsOfUnits, unitsOfGlyphs]
      | succ k =>
        rw [glyphsOfUnits, Nat.add_le_add_iff_right, ih, unitsOfGlyphs, List.length_cons]
        omega

/-- **From glyphs to units and back**, within a line. -/
theorem glyphsOfUnits_unitsOfGlyphs {rs : List Glyph} {n : Nat} (hn : n ≤ rs.length) :
    glyphsOfUnits rs (unitsOfGlyphs rs n) = n := by
  refine Nat.le_antisymm (glyphsOfUnits_le_iff.2 (.inl (Nat.le_refl _))) ?_
  rcases glyphsOfUnits_le_iff.1 (Nat.le_refl (glyphsOfUnits rs (unitsOfGlyphs rs n))) with h | h
  · exact (unitsOfGlyphs_strictMono rs).le_iff_le.1 h
  · exact Nat.le_trans hn h

end Units

end Scriptlet
