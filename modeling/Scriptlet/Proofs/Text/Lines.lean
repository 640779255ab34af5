import Scriptlet.Bytes

/-!
# Texts made of lines

Cutting a text undoes joining it, as long as no separator stands in the parts (`Bytes.parts_join`).

Replacing pairs of bytes goes from piece to piece, as long as no pair stands across a joint
(`Bytes.replacePair_append`).

The lines of a text are the parts between line feeds, so a text in which every line ends in a line
feed has one part more, which is empty. Such a text is made of its lines and says what they are
(`Bytes.lines_flatMap`). The tools drop its last line feed before they read it, and that undoes
putting it there.
-/

namespace Scriptlet

namespace Bytes

variable {sep : UInt8} {p : Bytes}

/-! ### Parts -/

theorem parts_of_not_mem (h : sep ∉ p) : parts sep p = [p] := by
  induction p with
  | nil => rfl
  | cons b p ih =>
    obtain ⟨hb, hp⟩ := not_or.1 (mt List.mem_cons.2 h)
    rw [parts, if_neg (Ne.symm hb), ih hp]

/-- A part ends at the first separator. -/
theorem parts_append_sep (h : sep ∉ p) (s : Bytes) :
    parts sep (p ++ sep :: s) = p :: parts sep s := by
  induction p with
  | nil => exact if_pos rfl
  | cons b p ih =>
    obtain ⟨hb, hp⟩ := not_or.1 (mt List.mem_cons.2 h)
    rw [List.cons_append, parts, if_neg (Ne.symm hb), ih hp]

/-- A text that is joined of parts is cut into these, when there is no separator in them. -/
theorem parts_join {ps : List Bytes} (hne : ps ≠ []) (h : ∀ p ∈ ps, sep ∉ p) :
    parts sep (join [sep] ps) = ps := by
  induction ps with
  | nil => exact absurd rfl hne
  | cons p ps ih =>
    obtain ⟨hp, hps⟩ := List.forall_mem_cons.1 h
    cases ps with
    | nil => exact parts_of_not_mem hp
    | cons q qs =>
      change parts sep (p ++ [sep] ++ join [sep] (q :: qs)) = _
      rw [List.append_assoc, List.singleton_append, parts_append_sep hp,
        ih (List.cons_ne_nil q qs) hps]

/-- Joined parts are the first one and the others, each behind a separator. -/
theorem join_cons (sep u : Bytes) (us : List Bytes) :
    join sep (u :: us) = u ++ us.flatMap (sep ++ ·) := by
  induction us generalizing u with
  | nil => simp [join]
  | cons v us ih =>
    rw [join, ih, List.flatMap_cons]
    · simp
    · simp

theorem mem_join_iff {sep : Bytes} {ps : List Bytes} {b : UInt8} (hb : b ∉ sep) :
    b ∈ join sep ps ↔ ∃ p ∈ ps, b ∈ p := by
  cases ps with
  | nil => simp [join]
  | cons p ps => simp [join_cons, hb]

/-- An end without separators stands in the last part. -/
theorem exists_getLast?_parts_append {e : Bytes} (h : sep ∉ e) (s : Bytes) :
    ∃ q, (parts sep (s ++ e)).getLast? = some (q ++ e) := by
  induction s with
  | nil => exact ⟨[], by rw [List.nil_append, parts_of_not_mem h]; rfl⟩
  | cons b s ih =>
    obtain ⟨q, hq⟩ := ih
    obtain ⟨r, rs, hr⟩ := List.exists_cons_of_ne_nil (parts_ne_nil sep (s ++ e))
    rw [hr] at hq
    rw [List.cons_append, parts, hr]
    split
    · exact ⟨q, hq⟩
    · cases rs with
      | nil =>
        obtain rfl : r = q ++ e := Option.some.inj hq
        exact ⟨b :: q, rfl⟩
      | cons r' rs => exact ⟨q, hq⟩

theorem endsWith_eq_true_iff {s e : Bytes} : endsWith s e = true ↔ ∃ r, s = r ++ e := by
  rw [endsWith, beginsWith_eq_true_iff]
  constructor
  · rintro ⟨r, hr⟩
    refine ⟨r.reverse, ?_⟩
    rw [← List.reverse_reverse s, hr, List.reverse_append, List.reverse_reverse]
  · rintro ⟨r, rfl⟩
    exact ⟨r.reverse, List.reverse_append⟩

/-! ### Pairs of bytes -/

/-- Pairs are replaced in each of two pieces by itself, when no pair stands where they meet. -/
theorem replacePair_append {a b c : UInt8} {u v : Bytes}
    (h : (∀ x ∈ u.getLast?, x ≠ a) ∨ ∀ y ∈ v.head?, y ≠ b) :
    replacePair a b c (u ++ v) = replacePair a b c u ++ replacePair a b c v := by
  fun_induction replacePair a b c u with
  | case1 => rfl
  | case2 x =>
    cases v with
    | nil => rfl
    | cons y v =>
      -- the last byte of the first piece and the first byte of the second are no pair
      have hpair : ¬(x = a ∧ y = b) := by
        rintro ⟨rfl, rfl⟩
        exact h.elim (fun hx => hx x rfl rfl) fun hy => hy y rfl rfl
      rw [List.singleton_append, replacePair, if_neg hpair, List.singleton_append]
  | case3 x y u hpair ih =>
    rw [List.cons_append, List.cons_append, replacePair, if_pos hpair, List.cons_append]
    refine congrArg _ (ih (h.imp_left fun hx z hz => hx z ?_))
    cases u with
    | nil => cases hz
    | cons z' u => simpa using hz
  | case4 x y u hpair ih =>
    rw [List.cons_append, List.cons_append, replacePair, if_neg hpair, List.cons_append]
    refine congrArg _ (ih (h.imp_left fun hx z hz => hx z ?_))
    simpa using hz

/-- Nothing is replaced where the first byte of a pair does not occur. -/
theorem replacePair_of_forall {a b c : UInt8} {s : Bytes} (h : ∀ x ∈ s, x ≠ a) :
    replacePair a b c s = s := by
  fun_induction replacePair a b c s with
  | case1 => rfl
  | case2 => rfl
  | case3 x y s hpair => exact absurd hpair.1 (h x List.mem_cons_self)
  | case4 x y s hpair ih => rw [ih fun z hz => h z (List.mem_cons_of_mem x hz)]

/-! ### Lines -/

/-- A line feed at the end begins one more line, which is empty. -/
theorem lines_append_newline (s : Bytes) : lines (s ++ [newline]) = lines s ++ [[]] := by
  rw [lines, lines]
  induction s with
  | nil => rfl
  | cons b s ih =>
    obtain ⟨q, qs, hs⟩ := List.exists_cons_of_ne_nil (parts_ne_nil newline s)
    rw [hs] at ih
    rw [List.cons_append, parts, parts, ih, hs]
    split
    · rfl
    · rfl

/-- **A text made of lines** has these lines, and an empty rest. -/
theorem lines_flatMap {ls : List Bytes} (h : ∀ l ∈ ls, newline ∉ l) :
    lines (ls.flatMap (· ++ [newline])) = ls ++ [[]] := by
  induction ls with
  | nil => rfl
  | cons l ls ih =>
    obtain ⟨hl, hls⟩ := List.forall_mem_cons.1 h
    rw [List.flatMap_cons, List.append_assoc, List.singleton_append, lines, parts_append_sep hl,
      ← lines, ih hls, List.cons_append]

/-! ### The last line feed -/

theorem dropFinalNewline_append (s : Bytes) : dropFinalNewline (s ++ [newline]) = s := by
  induction s with
  | nil => rfl
  | cons a s ih =>
    cases s with
    | nil => rfl
    | cons b s => rw [List.cons_append, List.cons_append, dropFinalNewline, ← List.cons_append, ih]

/-- At most one line feed is dropped. -/
theorem eq_or_eq_dropFinalNewline (s : Bytes) :
    s = dropFinalNewline s ∨ s = dropFinalNewline s ++ [newline] := by
  fun_induction dropFinalNewline s with
  | case1 => exact Or.inl rfl
  | case2 => exact Or.inr rfl
  | case3 => exact Or.inl rfl
  | case4 a b s ih =>
    rcases ih with ih | ih
    · exact Or.inl (congrArg (a :: ·) ih)
    · exact Or.inr (congrArg (a :: ·) ih)

end Bytes

end Scriptlet
