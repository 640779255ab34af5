import Mathlib.Data.List.DropRight
import Scriptlet.Proofs.CodeFrames
import Scriptlet.Proofs.Text.Lines
import Scriptlet.Proofs.Text.Positions

/-!
# Where the caret stands

A foothold divides its line in two: what stands before it, from the beginning of the line
(`startOfLine`), and the rest (`restOfLine`). Its position counts the lines before it and the glyphs
of the first half; positions are in the order of the footholds, so they tell them apart.

A code frame is laid out for people, who look for the glyph above the caret. Its second and its
third line begin with equally many glyphs, a number on the one and as many blanks on the other.
After that come the glyphs of the source line, and as many blanks as glyphs stand before the
foothold. So the caret is below the glyph that begins at the foothold, or just past the line when
the line ends there. Since the position of a foothold is that of a glyph of the source or of the end
of a line, there is nothing to be moved into the line.
-/

namespace Scriptlet

open Bytes

/-! ### The line of an offset -/

/-- What stands before an offset in its line. -/
def startOfLine (source : Bytes) (k : Nat) : Bytes :=
  (source.take k).rtakeWhile (· != newline)

/-- What is left of the line of an offset, from the offset on. -/
def restOfLine (source : Bytes) (k : Nat) : Bytes :=
  (source.drop k).takeWhile (· != newline)

section Lines

variable {source u v : Bytes} {k : Nat} {b : UInt8}

/-- Up to the first line feed. -/
theorem takeWhile_append_newline (hu : newline ∉ u) (hv : ∀ b ∈ v.head?, b = newline) :
    (u ++ v).takeWhile (· != newline) = u := by
  have hall : ∀ b ∈ u, (b != newline) = true := fun b hb =>
    bne_iff_ne.2 fun h => hu (h ▸ hb)
  have hstop : v.takeWhile (· != newline) = [] := by
    rcases v with _ | ⟨b, v⟩
    · rfl
    · obtain rfl : b = newline := hv b rfl
      exact List.takeWhile_cons_of_neg (by simp)
  rw [List.takeWhile_append_of_pos hall, hstop, List.append_nil]

/-- Back to the last line feed. -/
theorem rtakeWhile_append_newline (hu : newline ∉ u) (hv : ∀ b ∈ v.getLast?, b = newline) :
    (v ++ u).rtakeWhile (· != newline) = u := by
  rw [List.rtakeWhile, List.reverse_append,
    takeWhile_append_newline (fun h => hu (List.mem_reverse.1 h))
      (fun b hb => hv b (List.head?_reverse ▸ hb)), List.reverse_reverse]

theorem newline_not_mem_startOfLine : newline ∉ startOfLine source k := fun h => by
  simpa using List.mem_rtakeWhile_imp h

theorem newline_not_mem_restOfLine : newline ∉ restOfLine source k := fun h => by
  simpa using List.mem_takeWhile_imp h

/-- What follows the rest of a line is its end. -/
theorem exists_drop_eq_restOfLine_append (source : Bytes) (k : Nat) :
    ∃ r, source.drop k = restOfLine source k ++ r ∧ ∀ b ∈ r.head?, b = newline := by
  refine ⟨(source.drop k).dropWhile (· != newline), List.takeWhile_append_dropWhile.symm,
    fun b hb => ?_⟩
  have hstop := List.head?_dropWhile_not (· != newline) (source.drop k)
  rw [Option.mem_def.1 hb] at hstop
  simpa using hstop

/-- **Footholds** are the beginning and the offsets after plain bytes. -/
theorem foothold_iff : Foothold source k ↔
    k ≤ source.length ∧ (k = 0 ∨ ∃ b, source[k - 1]? = some b ∧ b < 0x80) := by
  constructor
  · rintro ⟨u, v, rfl, rfl, hu⟩
    refine ⟨by simp, ?_⟩
    rcases List.eq_nil_or_concat u with rfl | ⟨w, b, rfl⟩
    · exact .inl rfl
    · exact .inr ⟨b, by simp, hu b (by simp)⟩
  · rintro ⟨hk, hbefore⟩
    refine ⟨source.take k, source.drop k, (List.take_append_drop k source).symm,
      List.length_take_of_le hk, fun b hb => ?_⟩
    rcases hbefore with rfl | ⟨c, hc, hplain⟩
    · simp at hb
    · have hpos : k ≠ 0 := by
        rintro rfl
        simp at hb
      rw [List.getLast?_take, if_neg hpos, hc] at hb
      obtain rfl : c = b := by simpa using hb
      exact hplain

/-- A line among others is joined with line feeds on either side. -/
theorem join_append_line (ls : List Bytes) (l : Bytes) (ls' : List Bytes) :
    join [newline] (ls ++ l :: ls') =
      ls.flatMap (· ++ [newline]) ++ (l ++ ls'.flatMap ([newline] ++ ·)) := by
  induction ls with
  | nil => exact join_cons [newline] l ls'
  | cons l₀ ls ih =>
    obtain ⟨x, xs, hx⟩ := List.exists_cons_of_ne_nil (List.append_ne_nil_of_right_ne_nil ls
      (List.cons_ne_nil l ls'))
    rw [List.cons_append, List.flatMap_cons, List.append_assoc, ← ih, hx]
    rfl

/-- **A foothold divides its line**, and its position counts the glyphs of the first part. -/
theorem Foothold.divides (h : Foothold source k) :
    ∃ before after,
      lines source = before ++ (startOfLine source k ++ restOfLine source k) :: after ∧
      Position.ofOffset source k = ⟨before.length + 1, glyphCount (startOfLine source k) + 1⟩ ∧
      glyphs (startOfLine source k ++ restOfLine source k) =
        glyphs (startOfLine source k) ++ glyphs (restOfLine source k) := by
  obtain ⟨before, pre, post, after, hlines, hk, hposition, hglyphs⟩ := h.exists_line
  have hline : newline ∉ pre ++ post :=
    not_mem_of_mem_parts (hlines ▸ List.mem_append_right before List.mem_cons_self)
  have hsource : source =
      (before.flatMap (· ++ [newline]) ++ pre) ++ (post ++ after.flatMap ([newline] ++ ·)) := by
    rw [← join_parts newline source, ← lines, hlines, join_append_line, List.append_assoc,
      List.append_assoc]
  have hlength : k = (before.flatMap (· ++ [newline]) ++ pre).length := by
    rw [hk, List.length_append, sizeOfLines]
  -- the line begins behind the last line feed before the offset, if there is one
  have hstart : startOfLine source k = pre := by
    rw [startOfLine, hsource, hlength, List.take_left]
    refine rtakeWhile_append_newline (fun h => hline (List.mem_append_left _ h)) fun b hb => ?_
    rcases List.eq_nil_or_concat before with rfl | ⟨before, l, rfl⟩
    · simp at hb
    · simpa [eq_comm] using hb
  -- and it goes on up to the next line feed, or to the end
  have hrest : restOfLine source k = post := by
    rw [restOfLine, hsource, hlength, List.drop_left]
    refine takeWhile_append_newline (fun h => hline (List.mem_append_right _ h)) fun b hb => ?_
    cases after with
    | nil => simp at hb
    | cons l after => simpa [eq_comm] using hb
  rw [hstart, hrest]
  exact ⟨before, after, hlines, hposition, hglyphs⟩

end Lines

/-! ### The lines of a code frame -/

section Frames

variable {line column : Nat} {text : Bytes}

theorem newline_not_mem_ofNat (n : Nat) : newline ∉ ofNat n := fun h =>
  absurd (isDigit_of_mem_ofNat h) (by decide)

theorem newline_not_mem_spaces (n : Nat) : newline ∉ spaces n := fun h =>
  absurd (List.eq_of_mem_replicate h) (by decide)

/-- What stands before the source line in a code frame. -/
def frameMargin (line : Nat) : Bytes :=
  ofString " " ++ ofNat line ++ ofString " | "

/-- What stands below that, before the blanks up to the caret. -/
def caretMargin (line : Nat) : Bytes :=
  ofString " " ++ spaces (ofNat line).length ++ ofString " | "

theorem length_caretMargin (line : Nat) :
    (caretMargin line).length = (frameMargin line).length := by
  simp [caretMargin, frameMargin, spaces]

/-- **A code frame has three lines.** -/
theorem lines_frameOfLine (htext : newline ∉ text) :
    lines (frameOfLine line column text) =
      [ofString "  --> line " ++ ofNat line ++ ofString ", column " ++ ofNat column,
        frameMargin line ++ text,
        caretMargin line ++ spaces (column - 1) ++ ofString "^"] := by
  have hbreak : ofString "\n " = newline :: ofString " " := rfl
  have hjoin : frameOfLine line column text = join [newline]
      [ofString "  --> line " ++ ofNat line ++ ofString ", column " ++ ofNat column,
        frameMargin line ++ text, caretMargin line ++ spaces (column - 1) ++ ofString "^"] := by
    simp only [frameOfLine, join, frameMargin, caretMargin, hbreak, List.append_assoc,
      List.cons_append, List.nil_append]
  rw [hjoin, lines, parts_join (List.cons_ne_nil _ _)]
  -- nothing else in a frame holds a line feed
  have hbar : newline ∉ ofString " | " := by decide
  have hblank : newline ∉ ofString " " := by decide
  have hheading : newline ∉ ofString "  --> line " ∧ newline ∉ ofString ", column " := by decide
  have hcaret : newline ∉ ofString "^" := by decide
  simp only [List.forall_mem_cons, frameMargin, caretMargin, List.mem_append, not_or]
  exact ⟨⟨⟨⟨hheading.1, newline_not_mem_ofNat _⟩, hheading.2⟩, newline_not_mem_ofNat _⟩,
    ⟨⟨⟨hblank, newline_not_mem_ofNat _⟩, hbar⟩, htext⟩,
    ⟨⟨⟨⟨hblank, newline_not_mem_spaces _⟩, hbar⟩, newline_not_mem_spaces _⟩, hcaret⟩, by simp⟩

/-! ### Glyphs of the lines -/

/-- Plain text has a glyph for each byte. -/
theorem glyphCount_of_plain {s : Bytes} (hs : ∀ b ∈ s, b < 0x80) : glyphCount s = s.length := by
  rw [glyphCount, glyphs_of_ascii hs, List.length_map]

theorem plain_of_all {s : Bytes} (h : s.all (· < 0x80) = true) : ∀ b ∈ s, b < 0x80 :=
  fun b hb => of_decide_eq_true (List.all_eq_true.1 h b hb)

theorem plain_spaces (n : Nat) : ∀ b ∈ spaces n, b < 0x80 := fun b hb => by
  rw [List.eq_of_mem_replicate hb]
  decide

theorem plain_ofNat (n : Nat) : ∀ b ∈ ofNat n, b < 0x80 := fun b hb => by
  have hdigit := isDigit_of_mem_ofNat hb
  simp only [isDigit, Bool.and_eq_true, decide_eq_true_eq] at hdigit
  exact UInt8.lt_of_le_of_lt hdigit.2 (by decide)

theorem plain_frameMargin (line : Nat) : ∀ b ∈ frameMargin line, b < 0x80 := by
  simp only [frameMargin, List.forall_mem_append]
  exact ⟨⟨plain_of_all rfl, plain_ofNat line⟩, plain_of_all rfl⟩

theorem plain_caretMargin (line : Nat) : ∀ b ∈ caretMargin line, b < 0x80 := by
  simp only [caretMargin, List.forall_mem_append]
  exact ⟨⟨plain_of_all rfl, plain_spaces _⟩, plain_of_all rfl⟩

/-- A plain byte behind a text does not change which glyph begins it. -/
theorem lead_append_of_lt {a b : UInt8} (hb : b < 0x80) (s v : Bytes) :
    Glyph.lead a (s ++ b :: v) = Glyph.lead a s := by
  have hplain : EndsPlain (a :: (s ++ [b])) := endsPlain_concat (a :: s) hb
  have htail : Glyph.isTail b = false := not_isTail_of_lt hb
  rw [← List.singleton_append, ← List.append_assoc, lead_append hplain, Glyph.lead, Glyph.lead]
  rcases s with _ | ⟨b₁, _ | ⟨b₂, _ | ⟨b₃, s⟩⟩⟩ <;> simp [Glyph.lead?, htail]

/-- **The caret is behind as many glyphs** as the margin and the blanks have bytes. -/
theorem glyphs_caretLine (line n : Nat) :
    (glyphs (caretMargin line ++ spaces n ++ ofString "^"))[(frameMargin line).length + n]? =
        some (.char '^') ∧
      glyphCount (caretMargin line ++ spaces n ++ ofString "^") =
        (frameMargin line).length + n + 1 := by
  have hplain : ∀ b ∈ caretMargin line ++ spaces n, b < 0x80 :=
    List.forall_mem_append.2 ⟨plain_caretMargin line, plain_spaces n⟩
  have hlength :
      (glyphs (caretMargin line ++ spaces n)).length = (frameMargin line).length + n := by
    rw [← glyphCount, glyphCount_of_plain hplain, List.length_append, length_caretMargin, spaces,
      List.length_replicate]
  have hcaret : glyphs (ofString "^") = [.char '^'] := rfl
  rw [glyphCount, glyphs_append (endsPlain_of_forall hplain), hcaret, List.length_append, hlength]
  refine ⟨?_, rfl⟩
  rw [List.getElem?_append_right hlength.le, hlength, Nat.sub_self]
  rfl

end Frames

/-! ### Offsets, positions and carets -/

section Agreement

variable {source : Bytes} {k : Nat}

/-- **The position of a foothold** counts line feeds, and glyphs since the last one. -/
theorem Foothold.ofOffset_eq (h : Foothold source k) : Position.ofOffset source k =
    ⟨1 + (source.take k).count newline, 1 + glyphCount (startOfLine source k)⟩ := by
  obtain ⟨before, after, -, hposition, -⟩ := h.divides
  have hline := line_ofOffset source k
  rw [hposition] at hline ⊢
  exact congrArg₂ Position.mk hline (Nat.add_comm _ _)

theorem Position.not_before_of_before {p p' : Position} (h : p.before p' = true) :
    ¬p'.before p = true := by
  unfold Position.before at *
  split at h
  · rename_i hline
    rw [if_pos hline.symm]
    simp only [decide_eq_true_eq] at *
    omega
  · rename_i hline
    rw [if_neg (Ne.symm hline)]
    simp only [decide_eq_true_eq] at *
    omega

/-- **Positions are in the order of the footholds.** -/
theorem Foothold.before_iff {k' : Nat} (h : Foothold source k) (h' : Foothold source k') :
    (Position.ofOffset source k).before (Position.ofOffset source k') = true ↔ k < k' := by
  refine ⟨fun hbefore => ?_, h.before_of_lt h'⟩
  rcases Nat.lt_trichotomy k k' with hlt | rfl | hgt
  · exact hlt
  · exact absurd rfl (Position.ne_of_before hbefore)
  · exact absurd (h'.before_of_lt h hgt) (Position.not_before_of_before hbefore)

/-- The glyph that begins at an offset is the first one of the rest of the line, if there is any
left. -/
theorem head?_glyphs_drop (hrest : restOfLine source k ≠ []) :
    (glyphs (source.drop k)).head? = (glyphs (restOfLine source k)).head? := by
  obtain ⟨r, hr, hend⟩ := exists_drop_eq_restOfLine_append source k
  obtain ⟨a, s, hs⟩ := List.exists_cons_of_ne_nil hrest
  rw [hr, hs]
  cases r with
  | nil => rw [List.append_nil]
  | cons b r =>
    obtain rfl : b = newline := hend b rfl
    rw [List.cons_append, glyphs, glyphs, glyphsFrom, glyphsFrom,
      lead_append_of_lt (by decide)]
    rfl

/-- **The code frame of a foothold** shows its line, and its column as it is. -/
theorem Foothold.codeFrame_eq (h : Foothold source k) (hsource : source ≠ []) :
    let p := Position.ofOffset source k
    let line := startOfLine source k ++ restOfLine source k
    (lines source)[p.line - 1]? = some line ∧
      codeFrame source p = frameOfLine p.line p.column line := by
  intro p line
  obtain ⟨before, after, hlines, hposition, -⟩ := h.divides
  obtain ⟨text, htext, hframe⟩ := codeFrame_of_foothold hsource h
  have hline : (lines source)[p.line - 1]? = some line := by
    rw [show p.line = before.length + 1 from congrArg Position.line hposition,
      Nat.add_sub_cancel]
    exact getElem?_lines hlines
  obtain rfl : line = text := Option.some.inj (hline.symm.trans htext)
  exact ⟨hline, hframe⟩

/-- **Offsets, positions and carets agree.** Take the offsets of a source that are its beginning or
come after a plain byte.

* The position of such an offset is the number of line feeds before it, and the number of glyphs
  between the beginning of its line and it, both counted from one.
* Positions come in the order of the offsets, and no two offsets have the same.
* When the source is not empty, the code frame at the position has three lines: where it is, the
  whole line of the source, and the caret. The column is one of that line or just past its end, so
  it is not changed. Above the caret is the glyph that begins at the offset; where the line ends
  there, the caret is just past it. -/
theorem carets_agree (source : Bytes) :
    (∀ o, Foothold source o ↔
      o ≤ source.length ∧ (o = 0 ∨ ∃ b, source[o - 1]? = some b ∧ b < 0x80)) ∧
    (∀ o, Foothold source o → Position.ofOffset source o =
      ⟨1 + (source.take o).count newline, 1 + glyphCount (startOfLine source o)⟩) ∧
    (∀ o o', Foothold source o → Foothold source o' →
      ((Position.ofOffset source o).before (Position.ofOffset source o') = true ↔ o < o') ∧
        (Position.ofOffset source o = Position.ofOffset source o' → o = o')) ∧
    (source ≠ [] → ∀ o, Foothold source o →
      let p := Position.ofOffset source o
      let line := startOfLine source o ++ restOfLine source o
      let shown := frameMargin p.line ++ line
      let caret := caretMargin p.line ++ spaces (p.column - 1) ++ ofString "^"
      let i := (frameMargin p.line).length + (p.column - 1)
      lines (codeFrame source p) =
        [ofString "  --> line " ++ ofNat p.line ++ ofString ", column " ++ ofNat p.column,
          shown, caret] ∧
      (lines source)[p.line - 1]? = some line ∧
      min (max p.column 1) (glyphCount line + 1) = p.column ∧
      (glyphs caret)[i]? = some (.char '^') ∧ glyphCount caret = i + 1 ∧
      (restOfLine source o ≠ [] →
        ∃ r, (glyphs (source.drop o)).head? = some r ∧ (glyphs shown)[i]? = some r) ∧
      (restOfLine source o = [] → glyphCount shown = i)) := by
  refine ⟨fun o => foothold_iff, fun o h => h.ofOffset_eq, fun o o' h h' =>
    ⟨h.before_iff h', h.eq_of_ofOffset_eq h'⟩, fun hsource o h => ?_⟩
  intro p line shown caret i
  obtain ⟨hline, hframe⟩ := h.codeFrame_eq hsource
  obtain ⟨_, _, -, hposition, hglyphs⟩ := h.divides
  have hcolumn : p.column = glyphCount (startOfLine source o) + 1 :=
    congrArg Position.column hposition
  have hcount : glyphCount line =
      glyphCount (startOfLine source o) + glyphCount (restOfLine source o) := by
    rw [glyphCount, hglyphs, List.length_append]
    rfl
  have hfree : newline ∉ line := by
    rw [List.mem_append, not_or]
    exact ⟨newline_not_mem_startOfLine, newline_not_mem_restOfLine⟩
  obtain ⟨hcaret, hend⟩ := glyphs_caretLine p.line (p.column - 1)
  -- the margin and the beginning of the line have `i` glyphs, and the rest of the line follows
  have hshown : glyphs shown = glyphs (frameMargin p.line) ++
      glyphs (startOfLine source o) ++ glyphs (restOfLine source o) := by
    rw [glyphs_append (endsPlain_of_forall (plain_frameMargin p.line)), hglyphs,
      List.append_assoc]
  have hi : (glyphs (frameMargin p.line) ++ glyphs (startOfLine source o)).length = i := by
    rw [List.length_append, ← glyphCount, ← glyphCount,
      glyphCount_of_plain (plain_frameMargin p.line)]
    omega
  refine ⟨?_, hline, by omega, hcaret, hend, fun hrest => ?_, fun hrest => ?_⟩
  · rw [hframe, lines_frameOfLine hfree]
  · obtain ⟨r, rs, hr⟩ := List.exists_cons_of_length_pos (glyphCount_pos hrest)
    rw [head?_glyphs_drop hrest, hshown, List.getElem?_append_right hi.le, hi, Nat.sub_self, hr]
    exact ⟨r, rfl, rfl⟩
  · rw [glyphCount, hshown, hrest, List.length_append, hi]
    rfl

end Agreement

end Scriptlet
