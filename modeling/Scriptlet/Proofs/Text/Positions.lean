import Scriptlet.Proofs.Text.Columns

/-!
# Positions in order

The position of a foothold depends on nothing but the text before it (`ofOffset_append`). Two
things follow. When a text is put below another one, with a line feed between them, the footholds of
the first keep their positions and those of the second come down by as many lines as the
first has, in the columns they had (`ofOffset_below`). And further on in a text is further on in the
order of positions, since a later line comes later and a longer beginning of one line has
more glyphs; so no two footholds share a position (`Foothold.before_of_lt`).
-/

namespace Scriptlet

/-! ### Texts one below the other -/

/-- The position `n` lines further down, in the same column. -/
def Position.below (n : Nat) (p : Position) : Position :=
  ⟨p.line + n, p.column⟩

/-- A foothold of a text is one of the text with anything behind it, at the same position. -/
theorem Foothold.append {u : Bytes} {k : Nat} (h : Foothold u k) (v : Bytes) :
    Foothold (u ++ v) k ∧ Position.ofOffset (u ++ v) k = Position.ofOffset u k := by
  obtain ⟨w, x, rfl, rfl, hw⟩ := h
  obtain ⟨before, pre, hlines⟩ := exists_lines_eq w
  refine ⟨⟨w, x ++ v, List.append_assoc w x v, rfl, hw⟩, ?_⟩
  rw [List.append_assoc, ofOffset_append hw hlines, ofOffset_append hw hlines]

theorem walk_below (ahead skip : Nat) (s : Bytes) (n : Nat) (p : Position) :
    Position.walk ahead skip s (p.below n) = (Position.walk ahead skip s p).below n := by
  induction s generalizing ahead skip p with
  | nil => cases ahead <;> rfl
  | cons b s ih =>
    cases ahead with
    | zero => rfl
    | succ ahead =>
      cases skip with
      | succ skip => exact ih ahead skip p
      | zero =>
        rw [Position.walk, Position.walk]
        split
        · rw [← ih, Position.below, Position.below, Nat.add_right_comm]
        · exact ih ahead (Position.belonging b s) ⟨p.line, p.column + 1⟩

/-- **A text below another one**: its positions come down by the lines of the other. -/
theorem ofOffset_below (upper lower : Bytes) (k : Nat) :
    Position.ofOffset (upper ++ Bytes.newline :: lower) (upper.length + 1 + k) =
      (Position.ofOffset lower k).below (Bytes.lines upper).length := by
  have hwhole : (Bytes.lines upper).flatMap (· ++ [Bytes.newline]) = upper ++ [Bytes.newline] := by
    obtain ⟨before, pre, hlines⟩ := exists_lines_eq upper
    rw [hlines, List.flatMap_append, List.flatMap_singleton, ← List.append_assoc,
      eq_of_lines_eq hlines]
  have hlines : ∀ l ∈ Bytes.lines upper, Bytes.newline ∉ l :=
    fun l hl => Bytes.not_mem_of_mem_parts hl
  have hwalk := walk_lines hlines k lower 1
  rw [hwhole, List.length_append, List.append_assoc] at hwalk
  refine hwalk.trans ?_
  rw [Position.ofOffset, ← walk_below, Position.below]

/-! ### Further on -/

theorem glyphCount_pos {s : Bytes} (hs : s ≠ []) : 0 < Bytes.glyphCount s := by
  obtain ⟨b, t, rfl⟩ := List.exists_cons_of_ne_nil hs
  exact Nat.succ_pos _

/-- **Further on in a text is further on in the order of positions.** -/
theorem Foothold.before_of_lt {source : Bytes} {k k' : Nat} (h : Foothold source k)
    (h' : Foothold source k') (hlt : k < k') :
    (Position.ofOffset source k).before (Position.ofOffset source k') = true := by
  obtain ⟨u, v, rfl, rfl, hu⟩ := h
  obtain ⟨u', v', hsource, rfl, hu'⟩ := h'
  -- The longer beginning is the shorter one and a stretch `w`.
  obtain ⟨w, rfl⟩ : u <+: u' :=
    List.prefix_of_prefix_length_le ⟨v, rfl⟩ ⟨v', hsource.symm⟩ (Nat.le_of_lt hlt)
  have hw : w ≠ [] := by
    rintro rfl
    simp at hlt
  obtain ⟨before, pre, hpre⟩ := exists_lines_eq u
  obtain ⟨post, after, hpost⟩ := List.exists_cons_of_ne_nil (Bytes.parts_ne_nil Bytes.newline w)
  have hlines : Bytes.lines (u ++ w) = before ++ (pre ++ post) :: after := by
    rw [Bytes.lines, Layout.parts_append, hpost, ← Bytes.lines, hpre,
      Layout.glue_append (List.cons_ne_nil _ _)]
    rfl
  rw [ofOffset_append hu hpre, hsource]
  rcases List.eq_nil_or_concat after with rfl | ⟨between, last, rfl⟩
  · -- The stretch is in one line, and holds glyphs.
    obtain rfl : w = post := by
      rw [← Bytes.join_parts Bytes.newline w, hpost]
      rfl
    have hplain : Bytes.EndsPlain pre := ((eq_of_lines_eq hpre).symm ▸ hu).of_append
    have hcount : Bytes.glyphCount (pre ++ w) = Bytes.glyphCount pre + Bytes.glyphCount w := by
      rw [Bytes.glyphCount, Bytes.glyphs_append hplain, List.length_append]
      rfl
    rw [ofOffset_append hu' hlines, Position.before, if_pos rfl, decide_eq_true_iff]
    exact Nat.succ_lt_succ (hcount ▸ Nat.lt_add_of_pos_right (glyphCount_pos hw))
  · have hlines' : Bytes.lines (u ++ w) = (before ++ (pre ++ post) :: between) ++ [last] := by
      rw [hlines]
      simp
    have hlength : before.length + 1 < (before ++ (pre ++ post) :: between).length + 1 := by
      simp
    rw [ofOffset_append hu' hlines', Position.before, if_neg (Nat.ne_of_lt hlength),
      decide_eq_true_iff]
    exact hlength

theorem Position.ne_of_before {p p' : Position} (h : p.before p' = true) : p ≠ p' := by
  rintro rfl
  rw [before, if_pos rfl, decide_eq_true_iff] at h
  exact Nat.lt_irrefl _ h

/-- **No two footholds share a position.** -/
theorem Foothold.eq_of_ofOffset_eq {source : Bytes} {k k' : Nat} (h : Foothold source k)
    (h' : Foothold source k') (heq : Position.ofOffset source k = Position.ofOffset source k') :
    k = k' := by
  rcases Nat.lt_trichotomy k k' with hlt | rfl | hlt
  · exact absurd heq (Position.ne_of_before (h.before_of_lt h' hlt))
  · rfl
  · exact absurd heq.symm (Position.ne_of_before (h'.before_of_lt h hlt))

end Scriptlet
