import Mathlib.Data.List.DropRight
import Scriptlet.Proofs.Layout.Reflow
import Scriptlet.Proofs.Text.Lines

/-!
# The form of a formatted source

Formatting rewrites a source in four respects, one after the other: how lines end, blanks at their
ends, blank lines, and tabs at their beginnings. Each rewrite could make work for another one. To
see that none does, look at the texts in which there is nothing to do.

Such a text is **tidy**: it is empty, or it ends in a line feed and all its lines are tidy, which
says for each of the rewrites that it finds nothing in them (`TidyLine`). What comes out of
formatting is tidy (`tidy_format`), and a tidy text comes out as it went in (`format_of_tidy`). So
the tidy texts are exactly those that formatting leaves as they are, and formatting twice is
formatting once.

No rewrite touches a solid byte. These are the same before and after, and in the same order
(`filter_isSolid_format`).
-/

namespace Scriptlet

namespace Layout

/-- **A tidy line.** -/
structure TidyLine (line : Bytes) : Prop where
  /-- There is something in it. -/
  ne_nil : line ≠ []
  /-- There is no carriage return in it. -/
  carriageReturn_not_mem : Bytes.carriageReturn ∉ line
  /-- It does not begin with a tab. -/
  head?_ne_tab : line.head? ≠ some Bytes.tab
  /-- It does not end in a blank. -/
  getLast?_ne_space : line.getLast? ≠ some Bytes.space
  /-- It does not end in a tab. -/
  getLast?_ne_tab : line.getLast? ≠ some Bytes.tab

/-- **A tidy text** is empty, or ends in a line feed and has tidy lines. -/
def Tidy (s : Bytes) : Prop :=
  s = [] ∨ s.getLast? = some Bytes.newline ∧
    ∀ line ∈ Bytes.lines (Bytes.dropFinalNewline s), TidyLine line

/-! ### One line -/

section Line

variable {line kept : Bytes}

/-- No tab is left at the beginning of a line. -/
theorem head?_indent_ne (line : Bytes) : (indent line).head? ≠ some Bytes.tab := by
  cases line with
  | nil => simp [indent]
  | cons b line =>
    by_cases hb : b = Bytes.tab
    · rw [indent, if_pos hb]
      change some Bytes.space ≠ some Bytes.tab
      decide
    · rw [indent, if_neg hb]
      simpa using hb

theorem indent_of_head?_ne (h : line.head? ≠ some Bytes.tab) : indent line = line := by
  cases line with
  | nil => rfl
  | cons b line => exact if_neg (by simpa using h)

theorem EndsSolid.indent (h : EndsSolid line) : EndsSolid (indent line) := by
  obtain ⟨t, b, rfl, hb⟩ := h
  rw [indent_append (Or.inr ⟨b, [], rfl, hb⟩)]
  exact ⟨Layout.indent t, b, rfl, hb⟩

/-- A tidy line is not blank and has no blanks at its end. -/
theorem TidyLine.endsSolid (h : TidyLine line) (hline : Bytes.newline ∉ line) :
    EndsSolid line := by
  obtain ⟨t, b, rfl⟩ := List.eq_nil_or_concat' line |>.resolve_left h.ne_nil
  refine ⟨t, b, rfl, isSolid_iff.2 ⟨?_, ?_, ?_, ?_⟩⟩
  · rintro rfl
    exact h.getLast?_ne_space List.getLast?_concat
  · rintro rfl
    exact h.getLast?_ne_tab List.getLast?_concat
  · rintro rfl
    exact hline List.mem_concat_self
  · rintro rfl
    exact h.carriageReturn_not_mem List.mem_concat_self

/-- A line is tidy when it ends in a solid byte and has neither a carriage return nor a tab in
front. -/
theorem tidyLine_of_endsSolid (h : EndsSolid line) (hreturn : Bytes.carriageReturn ∉ line)
    (hhead : line.head? ≠ some Bytes.tab) : TidyLine line := by
  obtain ⟨t, b, rfl, hb⟩ := h
  obtain ⟨hspace, htab, -⟩ := isSolid_iff.1 hb
  refine ⟨List.concat_ne_nil b t, hreturn, hhead, ?_, ?_⟩
  · rw [List.getLast?_concat]
    exact fun h => hspace (Option.some.inj h)
  · rw [List.getLast?_concat]
    exact fun h => htab (Option.some.inj h)

/-- What is left of a line without its blanks at the end is empty, or ends in a solid byte. -/
theorem endsSolid_trimEnd (hline : Bytes.newline ∉ line) (hreturn : Bytes.carriageReturn ∉ line)
    (hne : Bytes.trimEnd Bytes.isBlankOrTab line ≠ []) :
    EndsSolid (Bytes.trimEnd Bytes.isBlankOrTab line) := by
  obtain ⟨t, b, ht⟩ := List.eq_nil_or_concat' _ |>.resolve_left hne
  have hlast : ¬Bytes.isBlankOrTab b = true := by
    have h : ¬Bytes.isBlankOrTab ((Bytes.trimEnd Bytes.isBlankOrTab line).getLast hne) = true :=
      List.rdropWhile_last_not Bytes.isBlankOrTab line hne
    rwa [List.getLast_congr hne (List.concat_ne_nil b t) ht, List.getLast_concat] at h
  have hmem : b ∈ line := mem_of_mem_trimEnd (ht ▸ List.mem_concat_self)
  refine ⟨t, b, ht, isSolid_iff.2 ⟨?_, ?_, ?_, ?_⟩⟩
  · rintro rfl
    exact hlast rfl
  · rintro rfl
    exact hlast rfl
  · rintro rfl
    exact hline hmem
  · rintro rfl
    exact hreturn hmem

/-- **What is kept of a line is tidy.** -/
theorem tidyLine_of_keep? (hline : Bytes.newline ∉ line) (hreturn : Bytes.carriageReturn ∉ line)
    (h : keep? line = some kept) : TidyLine kept ∧ Bytes.newline ∉ kept := by
  have hmem : ∀ b ≠ Bytes.space, b ∈ kept → b ∈ line := fun b hb => mem_of_mem_keep? hb h
  refine ⟨?_, fun hkept => hline (hmem _ (by decide) hkept)⟩
  rw [keep?] at h
  split at h
  · cases h
  · rename_i hne
    obtain rfl := Option.some.inj h
    refine tidyLine_of_endsSolid (endsSolid_trimEnd hline hreturn hne).indent ?_
      (head?_indent_ne _)
    exact fun hkept => hreturn (hmem _ (by decide) hkept)

/-- A tidy line is kept as it is. -/
theorem keep?_of_tidyLine (h : TidyLine line) (hline : Bytes.newline ∉ line) :
    keep? line = some line := by
  rw [keep?_of_endsSolid (h.endsSolid hline), indent_of_head?_ne h.head?_ne_tab]

end Line

/-! ### The text -/

section Text

variable {s : Bytes} {lines : List Bytes}

theorem carriageReturn_not_mem_unifyLineEnds (s : Bytes) :
    Bytes.carriageReturn ∉ unifyLineEnds s := by
  intro h
  obtain ⟨b, -, hb⟩ := List.mem_map.1 h
  split at hb
  · cases hb
  · rename_i hne
    exact hne hb

theorem mem_of_mem_lines {line : Bytes} {b : UInt8} (h : line ∈ Bytes.lines s) (hb : b ∈ line) :
    b ∈ s := by
  have hline : b ≠ Bytes.newline := by
    rintro rfl
    exact Bytes.not_mem_of_mem_parts h hb
  rw [← Bytes.join_parts Bytes.newline s]
  exact (Bytes.mem_join_iff (mt List.mem_singleton.1 hline)).2 ⟨line, h, hb⟩

theorem tidyLine_of_mem_kept {line : Bytes}
    (h : line ∈ (Bytes.lines (unifyLineEnds s)).filterMap keep?) :
    TidyLine line ∧ Bytes.newline ∉ line := by
  obtain ⟨l, hl, hkeep⟩ := List.mem_filterMap.1 h
  refine tidyLine_of_keep? (Bytes.not_mem_of_mem_parts hl) (fun hreturn => ?_) hkeep
  exact carriageReturn_not_mem_unifyLineEnds s (mem_of_mem_lines hl hreturn)

/-- A text made of tidy lines is tidy. -/
theorem tidy_flatMap (h : ∀ line ∈ lines, TidyLine line ∧ Bytes.newline ∉ line) :
    Tidy (lines.flatMap (· ++ [Bytes.newline])) := by
  rcases eq_or_ne lines [] with rfl | hne
  · exact Or.inl rfl
  · rw [flatMap_append_eq_join [Bytes.newline] hne]
    refine Or.inr ⟨List.getLast?_concat, fun line hline => ?_⟩
    have hlines : Bytes.lines (Bytes.join [Bytes.newline] lines) = lines := by
      have hall := Bytes.lines_flatMap fun line hline => (h line hline).2
      rw [flatMap_append_eq_join [Bytes.newline] hne, Bytes.lines_append_newline] at hall
      exact List.append_cancel_right hall
    rw [Bytes.dropFinalNewline_append, hlines] at hline
    exact (h line hline).1

/-- **What formatting gives is tidy.** -/
theorem tidy_format (s : Bytes) : Tidy (format s) :=
  tidy_flatMap fun _ => tidyLine_of_mem_kept

/-- **Formatting leaves a tidy text as it is.** -/
theorem format_of_tidy (h : Tidy s) : format s = s := by
  rcases h with rfl | ⟨hlast, hlines⟩
  · rfl
  · obtain ⟨t, rfl⟩ := List.getLast?_eq_some_iff.1 hlast
    rw [Bytes.dropFinalNewline_append] at hlines
    have hreturn : ∀ b ∈ t ++ [Bytes.newline], b ≠ Bytes.carriageReturn := by
      rintro b hb rfl
      rw [List.mem_append, List.mem_singleton, or_iff_left (by decide),
        ← Bytes.join_parts Bytes.newline t, Bytes.mem_join_iff (by decide)] at hb
      obtain ⟨line, hline, hmem⟩ := hb
      exact (hlines line hline).carriageReturn_not_mem hmem
    have hkeep : (Bytes.lines t).filterMap keep? = Bytes.lines t := by
      refine (List.filterMap_congr fun line hline => ?_).trans List.filterMap_some
      exact keep?_of_tidyLine (hlines line hline) (Bytes.not_mem_of_mem_parts hline)
    have hne : Bytes.lines t ≠ [] := Bytes.parts_ne_nil _ _
    rw [format, unifyLineEnds_of_forall hreturn, Bytes.lines_append_newline, List.filterMap_append,
      hkeep, show [[]].filterMap keep? = [] from rfl, List.append_nil,
      flatMap_append_eq_join [Bytes.newline] hne]
    exact congrArg (· ++ [Bytes.newline]) (Bytes.join_parts Bytes.newline t)

/-- Formatting twice is formatting once. -/
theorem format_format (s : Bytes) : format (format s) = format s :=
  format_of_tidy (tidy_format s)

/-- **The texts that formatting keeps are the tidy ones.** -/
theorem format_eq_self_iff : format s = s ↔ Tidy s :=
  ⟨fun h => h ▸ tidy_format s, format_of_tidy⟩

end Text

/-! ### Solid bytes -/

section Filter

/-- Dropping what a filter leaves out anyway changes nothing. -/
theorem filter_dropWhile {p q : UInt8 → Bool} (h : ∀ b, p b = true → q b = false) (s : Bytes) :
    (s.dropWhile p).filter q = s.filter q := by
  induction s with
  | nil => rfl
  | cons b s ih =>
    by_cases hb : p b = true
    · rw [List.dropWhile_cons_of_pos hb, ih, List.filter_cons_of_neg (by simp [h b hb])]
    · rw [List.dropWhile_cons_of_neg hb]

/-- Trimming keeps all solid bytes. -/
theorem filter_isSolid_trimEnd (s : Bytes) :
    (Bytes.trimEnd Bytes.isBlankOrTab s).filter isSolid = s.filter isSolid := by
  have hblank : ∀ b, Bytes.isBlankOrTab b = true → isSolid b = false := by
    intro b hb
    rw [← Bool.not_eq_true]
    intro hsolid
    rw [not_isBlankOrTab_of_isSolid hsolid] at hb
    cases hb
  rw [Bytes.trimEnd, List.filter_reverse, filter_dropWhile hblank, List.filter_reverse,
    List.reverse_reverse]

theorem filter_isSolid_indent (s : Bytes) : (indent s).filter isSolid = s.filter isSolid := by
  have htab : ∀ b, (b == Bytes.tab) = true → isSolid b = false := by
    intro b hb
    rw [beq_iff_eq.1 hb]
    rfl
  cases s with
  | nil => rfl
  | cons b s =>
    by_cases hb : b = Bytes.tab
    · rw [indent, if_pos hb, List.filter_append, filter_dropWhile htab]
      rfl
    · rw [indent, if_neg hb]

/-- A line that disappears has no solid bytes. -/
theorem filter_isSolid_keep? (line : Bytes) :
    (keep? line).toList.flatMap (List.filter isSolid) = line.filter isSolid := by
  rw [keep?]
  split
  · rename_i hnil
    rw [← filter_isSolid_trimEnd, hnil]
    rfl
  · rw [Option.toList_some, List.flatMap_singleton, filter_isSolid_indent, filter_isSolid_trimEnd]

theorem filter_isSolid_replacePair (s : Bytes) :
    (Bytes.replacePair Bytes.carriageReturn Bytes.newline Bytes.newline s).filter isSolid =
      s.filter isSolid := by
  fun_induction Bytes.replacePair Bytes.carriageReturn Bytes.newline Bytes.newline s with
  | case1 => rfl
  | case2 => rfl
  | case3 x y s hpair ih =>
    obtain ⟨rfl, rfl⟩ := hpair
    exact ih
  | case4 x y s hpair ih =>
    rw [List.filter_cons, ih]
    exact List.filter_cons.symm

theorem filter_isSolid_unifyLineEnds (s : Bytes) :
    (unifyLineEnds s).filter isSolid = s.filter isSolid := by
  rw [← filter_isSolid_replacePair s, unifyLineEnds]
  induction Bytes.replacePair Bytes.carriageReturn Bytes.newline Bytes.newline s with
  | nil => rfl
  | cons b s ih =>
    by_cases hb : b = Bytes.carriageReturn
    · subst hb
      exact ih
    · rw [List.map_cons, if_neg hb, List.filter_cons, ih, List.filter_cons]

theorem filter_isSolid_lines (s : Bytes) :
    (Bytes.lines s).flatMap (List.filter isSolid) = s.filter isSolid := by
  obtain ⟨l, ls, hls⟩ := List.exists_cons_of_ne_nil (Bytes.parts_ne_nil Bytes.newline s)
  conv_rhs => rw [← Bytes.join_parts Bytes.newline s, hls, Bytes.join_cons, List.filter_append,
    List.filter_flatMap]
  rw [Bytes.lines, hls, List.flatMap_cons]
  rfl

/-- **Formatting keeps the solid bytes**, and their order. -/
theorem filter_isSolid_format (s : Bytes) : (format s).filter isSolid = s.filter isSolid := by
  -- a line that is not kept has no solid byte, and one that is kept has the same
  have hkept : ∀ lines : List Bytes,
      (lines.filterMap keep?).flatMap (List.filter isSolid) =
        lines.flatMap (List.filter isSolid) := by
    intro lines
    induction lines with
    | nil => rfl
    | cons l lines ih =>
      rw [List.flatMap_cons, ← filter_isSolid_keep? l, ← ih, ← List.flatMap_append]
      cases hl : keep? l with
      | none => rw [List.filterMap_cons_none hl, Option.toList_none, List.nil_append]
      | some kept => rw [List.filterMap_cons_some hl, Option.toList_some, List.singleton_append]
  have hline : ∀ line : Bytes, (line ++ [Bytes.newline]).filter isSolid = line.filter isSolid :=
    fun line => (List.filter_append _ _).trans (List.append_nil _)
  calc (format s).filter isSolid
      = ((Bytes.lines (unifyLineEnds s)).filterMap keep?).flatMap (List.filter isSolid) := by
        rw [format, List.filter_flatMap]
        exact List.flatMap_congr fun line _ => hline line
    _ = (Bytes.lines (unifyLineEnds s)).flatMap (List.filter isSolid) := hkept _
    _ = (unifyLineEnds s).filter isSolid := filter_isSolid_lines _
    _ = s.filter isSolid := filter_isSolid_unifyLineEnds s

end Filter

/-- **Formatting gives the one form of a text** that has the same solid bytes in its lines, in one
pass:

* formatting again changes nothing;
* the texts that it leaves as they are are the tidy ones: the empty one, and those that end in a
  line feed and have lines that are not empty, hold no carriage return, do not begin with a tab, and
  end in neither a blank nor a tab;
* the bytes other than blanks, tabs and line ends are the same as before, in the same order. -/
theorem format_canonical (s : Bytes) :
    format (format s) = format s ∧
      (format s = s ↔ Tidy s) ∧
      (format s).filter isSolid = s.filter isSolid :=
  ⟨format_format s, format_eq_self_iff, filter_isSolid_format s⟩

end Layout

end Scriptlet
