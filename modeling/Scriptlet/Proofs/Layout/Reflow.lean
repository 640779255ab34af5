import Mathlib.Data.List.TakeWhile
import Scriptlet.Layout
import Scriptlet.Proofs.Parsing.Spelling
import Scriptlet.Proofs.Text.Lines

/-!
# Reflowing

Formatting works on lines and knows nothing of the grammar. To say what it does to a part of a
source that need not begin or end with a line, there is **reflowing** (`reflow`): lines lose the
blanks at their ends, blank ones disappear, and tabs at their beginnings turn into four blanks; but
a piece of text does not know what stands before its first line or after its last one, so it leaves
the beginning of the one and the end of the other alone.

What makes this the right notion is that it goes through a text from piece to piece:
`reflow (u ++ v) = reflow u ++ reflow v`, as long as one of the two bytes that meet is *solid*,
neither blank nor the end of a line (`reflow_append`). And a text that is solid at both ends is
formatted by reflowing it (`format_of_sturdy`).

The proof of the first is about lists of lines. Those of `u ++ v` are those of `u` and `v` with the
last of the one glued to the first of the other, and of that one line three things have to be known:
what is trimmed from its end, what its tabs turn into, and that it is not blank.
-/

namespace Scriptlet

namespace Layout

/-! ### Solid bytes -/

/-- A byte that is neither blank nor the end of a line. -/
def isSolid (b : UInt8) : Bool :=
  b != Bytes.space && b != Bytes.tab && b != Bytes.newline && b != Bytes.carriageReturn

/-- A piece of text whose first byte is solid. -/
def BeginsSolid (s : Bytes) : Prop := ∃ b t, s = b :: t ∧ isSolid b = true

/-- A piece of text whose last byte is solid. -/
def EndsSolid (s : Bytes) : Prop := ∃ t b, s = t ++ [b] ∧ isSolid b = true

/-- A piece of text that is solid at both ends. -/
structure Sturdy (s : Bytes) : Prop where
  begins : BeginsSolid s
  ends : EndsSolid s

section Solid

variable {s t : Bytes} {b : UInt8}

/-- Solid bytes are those that formatting never touches. -/
theorem isSolid_iff : isSolid b = true ↔
    b ≠ Bytes.space ∧ b ≠ Bytes.tab ∧ b ≠ Bytes.newline ∧ b ≠ Bytes.carriageReturn := by
  simp only [isSolid, Bool.and_eq_true, bne_iff_ne, and_assoc]

theorem not_isBlankOrTab_of_isSolid (h : isSolid b = true) : Bytes.isBlankOrTab b = false := by
  obtain ⟨hspace, htab, -⟩ := isSolid_iff.1 h
  simp [Bytes.isBlankOrTab, hspace, htab]

theorem BeginsSolid.append (h : BeginsSolid s) (t : Bytes) : BeginsSolid (s ++ t) := by
  obtain ⟨b, u, rfl, hb⟩ := h
  exact ⟨b, u ++ t, rfl, hb⟩

theorem EndsSolid.append (h : EndsSolid t) (s : Bytes) : EndsSolid (s ++ t) := by
  obtain ⟨u, b, rfl, hb⟩ := h
  exact ⟨s ++ u, b, (List.append_assoc _ _ _).symm, hb⟩

/-- Two pieces make a sturdy one when the outer ends of both are solid. -/
theorem Sturdy.append (hs : BeginsSolid s) (ht : EndsSolid t) : Sturdy (s ++ t) :=
  ⟨hs.append t, ht.append s⟩

/-- A text of solid bytes is sturdy. -/
theorem sturdy_of_forall (hne : s ≠ []) (h : ∀ b ∈ s, isSolid b = true) : Sturdy s := by
  refine ⟨?_, ?_⟩
  · obtain ⟨b, t, rfl⟩ := List.exists_cons_of_ne_nil hne
    exact ⟨b, t, rfl, h b List.mem_cons_self⟩
  · refine ⟨s.dropLast, s.getLast hne, (List.dropLast_append_getLast hne).symm, ?_⟩
    exact h _ (List.getLast_mem hne)

end Solid

/-! ### A line in two pieces -/

section Line

variable {x y : Bytes} (h : EndsSolid x ∨ BeginsSolid y)

/-- There is nothing to trim from a line that ends in a solid byte. -/
theorem trimEnd_of_endsSolid (h : EndsSolid x) : Bytes.trimEnd Bytes.isBlankOrTab x = x := by
  obtain ⟨t, b, rfl, hb⟩ := h
  rw [Bytes.trimEnd, List.reverse_append, List.reverse_singleton, List.singleton_append,
    List.dropWhile_cons_of_neg (by rw [not_isBlankOrTab_of_isSolid hb]; exact Bool.false_ne_true),
    List.reverse_cons, List.reverse_reverse]

theorem trimEnd_cons_of_isSolid {b : UInt8} (hb : isSolid b = true) (t : Bytes) :
    ∃ t', Bytes.trimEnd Bytes.isBlankOrTab (b :: t) = b :: t' := by
  rw [Bytes.trimEnd, List.reverse_cons, List.dropWhile_append]
  split
  · rw [List.dropWhile_cons_of_neg (by simp [not_isBlankOrTab_of_isSolid hb])]
    exact ⟨[], rfl⟩
  · exact ⟨(t.reverse.dropWhile Bytes.isBlankOrTab).reverse, by simp⟩

include h

/-- Trimming a line that is glued of two pieces touches only the second one, as a solid byte stands
where they meet. -/
theorem trimEnd_append : Bytes.trimEnd Bytes.isBlankOrTab (x ++ y) =
    x ++ Bytes.trimEnd Bytes.isBlankOrTab y := by
  by_cases hy : y.reverse.dropWhile Bytes.isBlankOrTab = []
  · have hx : EndsSolid x := by
      refine h.resolve_right ?_
      rintro ⟨b, t, rfl, hb⟩
      obtain ⟨t', ht'⟩ := trimEnd_cons_of_isSolid hb t
      rw [Bytes.trimEnd, hy] at ht'
      cases ht'
    have htrim := trimEnd_of_endsSolid hx
    unfold Bytes.trimEnd at htrim ⊢
    rw [List.reverse_append, List.dropWhile_append, hy, List.isEmpty_nil, if_pos rfl, htrim,
      List.reverse_nil, List.append_nil]
  · have hempty : ¬(y.reverse.dropWhile Bytes.isBlankOrTab).isEmpty = true := by
      rwa [List.isEmpty_iff]
    unfold Bytes.trimEnd
    rw [List.reverse_append, List.dropWhile_append, if_neg hempty, List.reverse_append,
      List.reverse_reverse]

/-- Tabs at the beginning of such a line are tabs of its first piece. -/
theorem indent_append : indent (x ++ y) = indent x ++ y := by
  cases x with
  | nil =>
    rcases h with ⟨t, b, ht, -⟩ | ⟨b, t, rfl, hb⟩
    · simp at ht
    · obtain ⟨-, htab, -⟩ := isSolid_iff.1 hb
      exact if_neg htab
  | cons a x =>
    by_cases ha : a = Bytes.tab
    · -- the tabs end within the first piece or right after it
      have hdrop : (a :: x ++ y).dropWhile (· == Bytes.tab) =
          (a :: x).dropWhile (· == Bytes.tab) ++ y := by
        rw [List.dropWhile_append]
        split
        · rename_i hempty
          rw [List.isEmpty_iff] at hempty
          rw [hempty, List.nil_append]
          rcases h with ⟨t, b, ht, hb⟩ | ⟨b, t, rfl, hb⟩
          · have hall := List.dropWhile_eq_nil_iff.1 hempty b (by rw [ht]; simp)
            exact absurd (by simpa using hall) (isSolid_iff.1 hb).2.1
          · exact List.dropWhile_cons_of_neg (by simpa using (isSolid_iff.1 hb).2.1)
        · rfl
      rw [List.cons_append] at hdrop ⊢
      simp only [indent, if_pos ha, hdrop, List.append_assoc]
    · simp only [indent, List.cons_append, if_neg ha]

/-- Such a line is not blank, so it is kept, with its indentation and without the blanks at its end.
-/
theorem keep?_append :
    keep? (x ++ y) = some (indent x ++ Bytes.trimEnd Bytes.isBlankOrTab y) := by
  have htrim : EndsSolid x ∨ BeginsSolid (Bytes.trimEnd Bytes.isBlankOrTab y) := by
    refine h.imp_right ?_
    rintro ⟨b, t, rfl, hb⟩
    obtain ⟨t', ht'⟩ := trimEnd_cons_of_isSolid hb t
    exact ⟨b, t', ht', hb⟩
  rw [keep?, trimEnd_append h, ← indent_append htrim]
  have hne : x ++ Bytes.trimEnd Bytes.isBlankOrTab y ≠ [] := by
    rcases htrim with ⟨t, b, rfl, -⟩ | ⟨b, t, ht, -⟩
    · simp
    · simp [ht]
  split
  · rename_i hnil
    exact absurd hnil hne
  · rfl

end Line

/-- A line that ends in a solid byte is kept whole but for its tabs. -/
theorem keep?_of_endsSolid {x : Bytes} (h : EndsSolid x) : keep? x = some (indent x) := by
  have hkeep := keep?_append (y := []) (Or.inl h)
  rwa [List.append_nil, show Bytes.trimEnd Bytes.isBlankOrTab [] = [] from rfl,
    List.append_nil] at hkeep

/-- A line that begins with a solid byte has no indentation. -/
theorem keep?_of_beginsSolid {y : Bytes} (h : BeginsSolid y) :
    keep? y = some (Bytes.trimEnd Bytes.isBlankOrTab y) :=
  keep?_append (x := []) (Or.inr h)

/-! ### Lines of two pieces -/

/-- The lines of two pieces of text that stand side by side: the last one of the first and the first
one of the second are one line. -/
def glue : List Bytes → List Bytes → List Bytes
  | [], ys => ys
  | [x], [] => [x]
  | [x], y :: ys => (x ++ y) :: ys
  | x :: x' :: xs, ys => x :: glue (x' :: xs) ys

/-- Gluing changes only the last line in front. -/
theorem glue_cons {xs : List Bytes} (hxs : xs ≠ []) (x : Bytes) (ys : List Bytes) :
    glue (x :: xs) ys = x :: glue xs ys := by
  cases xs with
  | nil => exact absurd rfl hxs
  | cons x' xs => rw [glue]

/-- Gluing changes only the last line in front, however many come before it. -/
theorem glue_append {xs : List Bytes} (hxs : xs ≠ []) (ls ys : List Bytes) :
    glue (ls ++ xs) ys = ls ++ glue xs ys := by
  induction ls with
  | nil => rfl
  | cons l ls ih => rw [List.cons_append, glue_cons (by simp [hxs]), ih, List.cons_append]

theorem glue_ne_nil {xs : List Bytes} (hxs : xs ≠ []) (ys : List Bytes) : glue xs ys ≠ [] := by
  match xs, ys with
  | [], _ => exact absurd rfl hxs
  | [x], [] => exact List.cons_ne_nil _ _
  | [x], y :: ys => exact List.cons_ne_nil _ _
  | x :: x' :: xs, ys =>
    rw [glue]
    exact List.cons_ne_nil _ _

/-- **The lines of two texts in a row** are those of each of them, with the two that meet glued to
one. -/
theorem parts_append (sep : UInt8) (u v : Bytes) :
    Bytes.parts sep (u ++ v) = glue (Bytes.parts sep u) (Bytes.parts sep v) := by
  obtain ⟨y, ys, hv⟩ := List.exists_cons_of_ne_nil (Bytes.parts_ne_nil sep v)
  rw [hv]
  induction u with
  | nil => simpa [Bytes.parts, glue] using hv
  | cons b u ih =>
    have hu := Bytes.parts_ne_nil sep u
    rw [List.cons_append, Bytes.parts, Bytes.parts, ih]
    split
    · rw [glue_cons hu]
    · rcases hx : Bytes.parts sep u with _ | ⟨x, _ | ⟨x', xs⟩⟩
      · exact absurd hx hu
      · rfl
      · simp only [glue]

/-- Glued lines are joined to the two joined texts in a row. -/
theorem join_glue (sep : Bytes) {xs ys : List Bytes} (hxs : xs ≠ []) (hys : ys ≠ []) :
    Bytes.join sep (glue xs ys) = Bytes.join sep xs ++ Bytes.join sep ys := by
  obtain ⟨y, ys, rfl⟩ := List.exists_cons_of_ne_nil hys
  induction xs with
  | nil => exact absurd rfl hxs
  | cons x xs ih =>
    cases xs with
    | nil =>
      change _ = x ++ Bytes.join sep (y :: ys)
      rw [glue, Bytes.join_cons, Bytes.join_cons, List.append_assoc]
    | cons x' xs =>
      have hrest := ih (List.cons_ne_nil x' xs)
      obtain ⟨z, zs, hz⟩ :=
        List.exists_cons_of_ne_nil (glue_ne_nil (List.cons_ne_nil x' xs) (y :: ys))
      rw [glue_cons (List.cons_ne_nil x' xs)]
      rw [hz] at hrest ⊢
      change x ++ sep ++ Bytes.join sep (z :: zs) =
        x ++ sep ++ Bytes.join sep (x' :: xs) ++ Bytes.join sep (y :: ys)
      rw [hrest, List.append_assoc (x ++ sep)]

/-! ### Reflowing -/

/-- The lines of a piece of text from the second one on, reflowed. The last one may go on after the
piece. -/
def reflowRest : List Bytes → List Bytes
  | [] => []
  | [last] => [indent last]
  | line :: next :: rest => (keep? line).toList ++ reflowRest (next :: rest)

/-- The lines of a piece of text, reflowed. The first one may have begun before the piece, and the
last one may go on after it. -/
def reflowLines : List Bytes → List Bytes
  | [] => []
  | [only] => [only]
  | first :: next :: rest =>
    Bytes.trimEnd Bytes.isBlankOrTab first :: reflowRest (next :: rest)

/-- **A piece of text, reflowed.** -/
def reflow (s : Bytes) : Bytes :=
  Bytes.join [Bytes.newline] (reflowLines (Bytes.lines (unifyLineEnds s)))

/-- The last line of a text is always left, even when it is blank. -/
theorem reflowRest_ne_nil {xs : List Bytes} (h : xs ≠ []) : reflowRest xs ≠ [] := by
  induction xs with
  | nil => exact absurd rfl h
  | cons x xs ih =>
    cases xs with
    | nil => exact List.cons_ne_nil _ _
    | cons x' xs =>
      rw [reflowRest]
      exact List.append_ne_nil_of_right_ne_nil _ (ih (List.cons_ne_nil x' xs))

theorem reflowLines_ne_nil {xs : List Bytes} (h : xs ≠ []) : reflowLines xs ≠ [] := by
  match xs with
  | [] => exact absurd rfl h
  | [x] => exact List.cons_ne_nil _ _
  | x :: x' :: xs => exact List.cons_ne_nil _ _

/-- A line in the middle is kept, with its indentation, or disappears. -/
theorem reflowRest_cons {xs : List Bytes} (h : xs ≠ []) (x : Bytes) :
    reflowRest (x :: xs) = (keep? x).toList ++ reflowRest xs := by
  cases xs with
  | nil => exact absurd rfl h
  | cons x' xs => rw [reflowRest]

/-- The first line only loses the blanks at its end. -/
theorem reflowLines_cons {xs : List Bytes} (h : xs ≠ []) (x : Bytes) :
    reflowLines (x :: xs) = Bytes.trimEnd Bytes.isBlankOrTab x :: reflowRest xs := by
  cases xs with
  | nil => exact absurd rfl h
  | cons x' xs => rw [reflowLines]

section Glue

variable {xs ys : List Bytes} {x y : Bytes} (h : EndsSolid x ∨ BeginsSolid y)

include h

/-- The lines after the first one are reflowed from piece to piece. The induction is on the lines in
front, up to the two that are glued. -/
theorem reflowRest_glue :
    reflowRest (glue (xs ++ [x]) (y :: ys)) =
      glue (reflowRest (xs ++ [x])) (reflowLines (y :: ys)) := by
  induction xs with
  | nil =>
    cases ys with
    | nil => simp only [List.nil_append, glue, reflowRest, reflowLines, indent_append h]
    | cons y' ys =>
      simp only [List.nil_append, glue, reflowRest, reflowLines, keep?_append h, Option.toList,
        List.cons_append]
  | cons l xs ih =>
    have hne : xs ++ [x] ≠ [] := List.append_ne_nil_of_right_ne_nil _ (List.cons_ne_nil _ _)
    rw [List.cons_append, glue_cons hne, reflowRest_cons (glue_ne_nil hne _), ih,
      reflowRest_cons hne, glue_append (reflowRest_ne_nil hne)]

/-- **Reflowing goes from piece to piece**, when they meet in a solid byte. -/
theorem reflowLines_glue :
    reflowLines (glue (xs ++ [x]) (y :: ys)) =
      glue (reflowLines (xs ++ [x])) (reflowLines (y :: ys)) := by
  cases xs with
  | nil =>
    cases ys with
    | nil => rfl
    | cons y' ys => simp only [List.nil_append, glue, reflowLines, trimEnd_append h]
  | cons l xs =>
    have hne : xs ++ [x] ≠ [] := List.append_ne_nil_of_right_ne_nil _ (List.cons_ne_nil _ _)
    rw [List.cons_append, glue_cons hne, reflowLines_cons (glue_ne_nil hne _), reflowRest_glue h,
      reflowLines_cons hne, glue_cons (reflowRest_ne_nil hne)]

end Glue

/-! ### Line ends -/

/-- Line ends are unified from piece to piece: a carriage return before a line feed is never at a
joint. -/
theorem unifyLineEnds_append {u v : Bytes} (h : EndsSolid u ∨ BeginsSolid v) :
    unifyLineEnds (u ++ v) = unifyLineEnds u ++ unifyLineEnds v := by
  rw [unifyLineEnds, Bytes.replacePair_append, List.map_append]
  · rfl
  · rcases h with ⟨t, b, rfl, hb⟩ | ⟨b, t, rfl, hb⟩
    · refine Or.inl fun x hx => ?_
      obtain rfl : b = x := by simpa using hx
      exact (isSolid_iff.1 hb).2.2.2
    · refine Or.inr fun x hx => ?_
      obtain rfl : b = x := by simpa using hx
      exact (isSolid_iff.1 hb).2.2.1

/-- Without carriage returns there is nothing to unify. -/
theorem unifyLineEnds_of_forall {s : Bytes} (h : ∀ b ∈ s, b ≠ Bytes.carriageReturn) :
    unifyLineEnds s = s := by
  rw [unifyLineEnds, Bytes.replacePair_of_forall h]
  exact (List.map_congr_left fun b hb => if_neg (h b hb)).trans (List.map_id s)

/-! ### Reflowing from piece to piece -/

/-- The last line of a text that ends in a solid byte ends in it. -/
theorem exists_lines_of_endsSolid {u : Bytes} (h : EndsSolid u) :
    ∃ xs x, Bytes.lines (unifyLineEnds u) = xs ++ [x] ∧ EndsSolid x := by
  obtain ⟨t, b, rfl, hb⟩ := h
  obtain ⟨-, -, hline, hreturn⟩ := isSolid_iff.1 hb
  have hsolid : EndsSolid [b] := ⟨[], b, rfl, hb⟩
  have hlast : Bytes.lines (unifyLineEnds [b]) = [[b]] := by
    rw [unifyLineEnds_of_forall fun x hx => List.mem_singleton.1 hx ▸ hreturn]
    simp [Bytes.lines, Bytes.parts, hline]
  obtain ⟨xs, x, hxs⟩ :=
    List.eq_nil_or_concat' (Bytes.lines (unifyLineEnds t)) |>.resolve_left
      (Bytes.parts_ne_nil _ _)
  refine ⟨xs, x ++ [b], ?_, hsolid.append x⟩
  rw [unifyLineEnds_append (Or.inr ⟨b, [], rfl, hb⟩), Bytes.lines, parts_append]
  change glue (Bytes.lines (unifyLineEnds t)) (Bytes.lines (unifyLineEnds [b])) = _
  rw [hlast, hxs, glue_append (List.cons_ne_nil _ _)]
  rfl

/-- The first line of a text that begins with a solid byte begins with it. -/
theorem exists_lines_of_beginsSolid {v : Bytes} (h : BeginsSolid v) :
    ∃ y ys, Bytes.lines (unifyLineEnds v) = y :: ys ∧ BeginsSolid y := by
  obtain ⟨b, t, rfl, hb⟩ := h
  obtain ⟨-, -, hline, hreturn⟩ := isSolid_iff.1 hb
  have hfirst : Bytes.lines (unifyLineEnds [b]) = [[b]] := by
    rw [unifyLineEnds_of_forall fun x hx => List.mem_singleton.1 hx ▸ hreturn]
    simp [Bytes.lines, Bytes.parts, hline]
  obtain ⟨y, ys, hys⟩ :=
    List.exists_cons_of_ne_nil (Bytes.parts_ne_nil Bytes.newline (unifyLineEnds t))
  have hsolid : EndsSolid [b] := ⟨[], b, rfl, hb⟩
  refine ⟨b :: y, ys, ?_, b, y, rfl, hb⟩
  rw [← List.singleton_append, unifyLineEnds_append (Or.inl hsolid), Bytes.lines, parts_append, hys]
  change glue (Bytes.lines (unifyLineEnds [b])) (y :: ys) = _
  rw [hfirst]
  rfl

/-- **Reflowing goes from piece to piece** of a text, when they meet in a solid byte. -/
theorem reflow_append {u v : Bytes} (h : EndsSolid u ∨ BeginsSolid v) :
    reflow (u ++ v) = reflow u ++ reflow v := by
  obtain ⟨xs, x, hxs⟩ :=
    List.eq_nil_or_concat' (Bytes.lines (unifyLineEnds u)) |>.resolve_left
      (Bytes.parts_ne_nil _ _)
  obtain ⟨y, ys, hys⟩ := List.exists_cons_of_ne_nil (Bytes.parts_ne_nil Bytes.newline
    (unifyLineEnds v))
  -- only the last line of the one piece and the first of the other meet
  have hmeet : EndsSolid x ∨ BeginsSolid y := by
    rcases h with h | h
    · obtain ⟨xs', x', hxs', hx'⟩ := exists_lines_of_endsSolid h
      rw [hxs] at hxs'
      obtain rfl : x = x' := List.singleton_inj.1 (List.append_inj' hxs' rfl).2
      exact Or.inl hx'
    · obtain ⟨y', ys', hys', hy'⟩ := exists_lines_of_beginsSolid h
      obtain ⟨rfl, -⟩ := List.cons.inj (hys.symm.trans hys')
      exact Or.inr hy'
  have hlines : Bytes.lines (unifyLineEnds (u ++ v)) = glue (xs ++ [x]) (y :: ys) := by
    rw [unifyLineEnds_append h, Bytes.lines, parts_append, ← hxs, ← hys]
    rfl
  rw [reflow, hlines, reflowLines_glue hmeet, join_glue, ← hxs, ← hys]
  · rfl
  · exact reflowLines_ne_nil (List.append_ne_nil_of_right_ne_nil _ (List.cons_ne_nil _ _))
  · exact reflowLines_ne_nil (List.cons_ne_nil _ _)

/-- A piece of one line stays as it is. -/
theorem reflow_of_forall {s : Bytes}
    (h : ∀ b ∈ s, b ≠ Bytes.newline ∧ b ≠ Bytes.carriageReturn) : reflow s = s := by
  have hlines : Bytes.lines s = [s] := by
    induction s with
    | nil => rfl
    | cons b s ih =>
      have hs := ih fun x hx => h x (List.mem_cons_of_mem b hx)
      rw [Bytes.lines] at hs
      rw [Bytes.lines, Bytes.parts, if_neg (h b List.mem_cons_self).1, hs]
  rw [reflow, unifyLineEnds_of_forall fun b hb => (h b hb).2, hlines]
  rfl

theorem reflow_of_solid {s : Bytes} (h : ∀ b ∈ s, isSolid b = true) : reflow s = s :=
  reflow_of_forall fun b hb => (isSolid_iff.1 (h b hb)).2.2

/-! ### What reflowing brings in -/

section Members

variable {b : UInt8}

theorem mem_of_mem_trimEnd {p : UInt8 → Bool} {s : Bytes} (h : b ∈ Bytes.trimEnd p s) : b ∈ s :=
  List.mem_reverse.1 ((List.dropWhile_suffix p).subset (List.mem_reverse.1 h))

/-- Indentation brings in nothing but blanks. -/
theorem mem_of_mem_indent {line : Bytes} (hb : b ≠ Bytes.space) (h : b ∈ indent line) :
    b ∈ line := by
  unfold indent at h
  split at h
  · exact h
  · split at h
    · rcases List.mem_append.1 h with h | h
      · exact absurd (List.eq_of_mem_replicate h) hb
      · exact (List.dropWhile_suffix _).subset h
    · exact h

theorem mem_of_mem_keep? {line kept : Bytes} (hb : b ≠ Bytes.space) (hkeep : keep? line = some kept)
    (h : b ∈ kept) : b ∈ line := by
  unfold keep? at hkeep
  split at hkeep
  · cases hkeep
  · cases hkeep
    exact mem_of_mem_trimEnd (mem_of_mem_indent hb h)

/-- Reflowing later lines brings in nothing but blanks. -/
theorem mem_of_mem_reflowRest {lines : List Bytes} {line : Bytes} (hb : b ≠ Bytes.space)
    (hline : line ∈ reflowRest lines) (h : b ∈ line) : ∃ line' ∈ lines, b ∈ line' := by
  induction lines with
  | nil => cases hline
  | cons l lines ih =>
    cases lines with
    | nil =>
      obtain rfl := List.mem_singleton.1 hline
      exact ⟨l, List.mem_cons_self, mem_of_mem_indent hb h⟩
    | cons l' lines =>
      rw [reflowRest] at hline
      rcases List.mem_append.1 hline with hkeep | hrest
      · exact ⟨l, List.mem_cons_self, mem_of_mem_keep? hb (Option.mem_toList.1 hkeep) h⟩
      · obtain ⟨line', hmem, hin⟩ := ih hrest
        exact ⟨line', List.mem_cons_of_mem _ hmem, hin⟩

theorem mem_of_mem_reflowLines {lines : List Bytes} {line : Bytes} (hb : b ≠ Bytes.space)
    (hline : line ∈ reflowLines lines) (h : b ∈ line) : ∃ line' ∈ lines, b ∈ line' := by
  match lines with
  | [] => cases hline
  | [only] => exact ⟨line, hline, h⟩
  | first :: next :: rest =>
    rcases List.mem_cons.1 hline with rfl | hrest
    · exact ⟨first, List.mem_cons_self, mem_of_mem_trimEnd h⟩
    · obtain ⟨line', hmem, hin⟩ := mem_of_mem_reflowRest hb hrest h
      exact ⟨line', List.mem_cons_of_mem _ hmem, hin⟩

theorem mem_of_mem_replacePair {x y z : UInt8} {s : Bytes} (hb : b ≠ z)
    (h : b ∈ Bytes.replacePair x y z s) : b ∈ s := by
  fun_induction Bytes.replacePair x y z s with
  | case1 => exact h
  | case2 => exact h
  | case3 c d s hpair ih =>
    have hrest := ih ((List.mem_cons.1 h).resolve_left hb)
    exact List.mem_cons_of_mem _ (List.mem_cons_of_mem _ hrest)
  | case4 c d s hpair ih =>
    rcases List.mem_cons.1 h with rfl | h
    · exact List.mem_cons_self
    · exact List.mem_cons_of_mem _ (ih h)

theorem mem_of_mem_unifyLineEnds {s : Bytes} (hb : b ≠ Bytes.newline) (h : b ∈ unifyLineEnds s) :
    b ∈ s := by
  obtain ⟨c, hc, hmap⟩ := List.mem_map.1 h
  split at hmap
  · exact absurd hmap.symm hb
  · subst hmap
    exact mem_of_mem_replacePair hb hc

/-- Reflowing brings in nothing but blanks and line feeds. -/
theorem mem_of_mem_reflow {s : Bytes} (hspace : b ≠ Bytes.space) (hline : b ≠ Bytes.newline)
    (h : b ∈ reflow s) : b ∈ s := by
  have hline' : b ∉ [Bytes.newline] := mt List.mem_singleton.1 hline
  obtain ⟨line, hmem, hb⟩ := (Bytes.mem_join_iff hline').1 h
  obtain ⟨line', hmem', hb'⟩ := mem_of_mem_reflowLines hspace hmem hb
  have hall := (Bytes.mem_join_iff hline').2 ⟨line', hmem', hb'⟩
  rw [Bytes.lines, Bytes.join_parts] at hall
  exact mem_of_mem_unifyLineEnds hline hall

end Members

/-! ### Formatting is reflowing -/

/-- Of lines whose last one ends in a solid byte, formatting keeps what reflowing keeps. -/
theorem filterMap_keep?_of_endsSolid {xs : List Bytes} {x : Bytes} (h : EndsSolid x) :
    (xs ++ [x]).filterMap keep? = reflowRest (xs ++ [x]) := by
  induction xs with
  | nil =>
    rw [List.nil_append, List.filterMap_cons_some (keep?_of_endsSolid h)]
    rfl
  | cons l xs ih =>
    have hne : xs ++ [x] ≠ [] := List.append_ne_nil_of_right_ne_nil _ (List.cons_ne_nil _ _)
    rw [List.cons_append, reflowRest_cons hne, ← ih]
    cases hl : keep? l with
    | none => rw [List.filterMap_cons_none hl, Option.toList_none, List.nil_append]
    | some l' => rw [List.filterMap_cons_some hl, Option.toList_some, List.singleton_append]

/-- The lines that formatting keeps of a text that is solid at both ends. -/
theorem filterMap_keep?_of_sturdy {t : Bytes} (h : Sturdy t) :
    (Bytes.lines (unifyLineEnds t)).filterMap keep? =
      reflowLines (Bytes.lines (unifyLineEnds t)) := by
  obtain ⟨xs, x, hxs, hx⟩ := exists_lines_of_endsSolid h.ends
  obtain ⟨y, ys, hys, hy⟩ := exists_lines_of_beginsSolid h.begins
  rw [hxs] at hys ⊢
  cases xs with
  | nil =>
    obtain ⟨rfl, rfl⟩ := List.cons.inj hys
    rw [List.nil_append, List.filterMap_cons_some (keep?_of_beginsSolid hy),
      trimEnd_of_endsSolid hx]
    rfl
  | cons l xs =>
    obtain ⟨rfl, -⟩ := List.cons.inj hys
    rw [List.cons_append, List.filterMap_cons_some (keep?_of_beginsSolid hy),
      filterMap_keep?_of_endsSolid hx, reflowLines_cons]
    exact List.append_ne_nil_of_right_ne_nil _ (List.cons_ne_nil _ _)

/-- Items that are each followed by a separator are joined by it and followed by one more. -/
theorem flatMap_append_eq_join (sep : Bytes) {xs : List Bytes} (h : xs ≠ []) :
    xs.flatMap (· ++ sep) = Bytes.join sep xs ++ sep := by
  induction xs with
  | nil => exact absurd rfl h
  | cons x xs ih =>
    cases xs with
    | nil => simp [Bytes.join]
    | cons x' xs =>
      rw [List.flatMap_cons, ih (List.cons_ne_nil x' xs)]
      change _ = x ++ sep ++ Bytes.join sep (x' :: xs) ++ sep
      rw [List.append_assoc (x ++ sep)]

/-- **A sturdy text is formatted by reflowing it**, up to the line feed at its end. -/
theorem format_of_sturdy {t : Bytes} (h : Sturdy t) : format t = reflow t ++ [Bytes.newline] := by
  rw [format, filterMap_keep?_of_sturdy h, flatMap_append_eq_join [Bytes.newline]]
  · rfl
  · exact reflowLines_ne_nil (Bytes.parts_ne_nil _ _)

/-- A line feed at the end of a text makes no difference. -/
theorem format_append_newline {t : Bytes} (h : EndsSolid t) :
    format (t ++ [Bytes.newline]) = format t := by
  obtain ⟨xs, x, hxs, -⟩ := exists_lines_of_endsSolid h
  have hlines : Bytes.lines (unifyLineEnds (t ++ [Bytes.newline])) =
      Bytes.lines (unifyLineEnds t) ++ [[]] := by
    rw [unifyLineEnds_append (Or.inl h), Bytes.lines, parts_append]
    change glue (Bytes.lines (unifyLineEnds t)) [[], []] = _
    rw [hxs, glue_append (List.cons_ne_nil _ _), List.append_assoc]
    simp only [glue, List.append_nil, List.singleton_append]
  rw [format, hlines, List.filterMap_append, show [[]].filterMap keep? = [] from rfl,
    List.append_nil]
  rfl

end Layout

end Scriptlet
