import Scriptlet.Proofs.Parsing.Completeness
import Scriptlet.Proofs.Text.Utf8

/-!
# Statements stand on lines of their own

The layout of scripts begins a line with every statement and with every clause of a body, and a line
holds nothing else. So the positions of statements and clauses tell them apart, by their lines
alone.

Offsets are compared by the line feeds between them, and the line of an offset is told by how many
there are before it (`line_ofOffset`). A line feed is never part of a longer character, so the walk
that finds positions sees every one of them.
-/

namespace Scriptlet

variable {α : Type}

/-! ### The line of an offset -/

section Line

open Glyph

/-- The bytes after the first that a character takes are there, and are none that begin one. -/
theorem tails_of_lead? {b : UInt8} {s : Bytes} {c : Char} (h : lead? b s = some c) :
    c.utf8Size - 1 ≤ s.length ∧ ∀ x ∈ s.take (c.utf8Size - 1), isTail x = true := by
  obtain ⟨r, hr⟩ := exists_append_of_lead? h
  cases hc : String.utf8EncodeChar c with
  | nil => exact absurd hc String.utf8EncodeChar_ne_nil
  | cons a t =>
    have hlength : t.length = c.utf8Size - 1 := by
      rw [← String.length_utf8EncodeChar, hc, List.length_cons, Nat.add_sub_cancel]
    rw [hc, List.cons_append] at hr
    obtain ⟨rfl, rfl⟩ := List.cons.inj hr
    rw [← hlength, List.take_left, List.length_append]
    exact ⟨Nat.le_add_right _ _, isTail_of_utf8EncodeChar hc⟩

/-- **The bytes that belong to a character** begun before are there, and are none that begin one. -/
theorem tails_belonging (b : UInt8) (s : Bytes) :
    Position.belonging b s ≤ s.length ∧
      ∀ x ∈ s.take (Position.belonging b s), isTail x = true := by
  rw [Position.belonging]
  split
  · simp
  · rename_i hb
    rcases hlead : lead? b s with _ | c
    · simp [lead, hlead, width]
    · simp only [lead, hlead, width]
      exact tails_of_lead? hlead

/-- No line end belongs to a character begun before. -/
theorem not_newline_of_belonging (b : UInt8) (s : Bytes) :
    ∀ x ∈ s.take (Position.belonging b s), x ≠ Bytes.newline := by
  rintro x hx rfl
  exact absurd ((tails_belonging b s).2 _ hx) (by decide)

/-- The line of a position counts the line feeds before it. Bytes that belong to a glyph are
skipped, and none of them is a line feed. -/
theorem line_walk (ahead skip : Nat) (s : Bytes) (p : Position)
    (hskip : ∀ b ∈ s.take skip, b ≠ Bytes.newline) :
    (Position.walk ahead skip s p).line = p.line + (s.take ahead).count Bytes.newline := by
  induction s generalizing ahead skip p with
  | nil => cases ahead <;> simp [Position.walk]
  | cons b s ih =>
    rcases ahead with _ | ahead
    · simp [Position.walk]
    · rcases skip with _ | skip
      · by_cases hb : b = Bytes.newline
        · subst hb
          rw [Position.walk, if_pos rfl, ih _ _ _ (by simp), List.take_succ_cons,
            List.count_cons_self]
          dsimp only
          omega
        · rw [Position.walk, if_neg hb, ih _ _ _ (not_newline_of_belonging b s),
            List.take_succ_cons, List.count_cons_of_ne hb]
      · obtain ⟨hb, hs⟩ := List.forall_mem_cons.1 hskip
        rw [Position.walk, ih _ _ _ hs, List.take_succ_cons, List.count_cons_of_ne hb]

/-- **The line of an offset** is told by the line feeds before it. -/
theorem line_ofOffset (source : Bytes) (k : Nat) :
    (Position.ofOffset source k).line = 1 + (source.take k).count Bytes.newline :=
  line_walk k 0 source ⟨1, 1⟩ (by simp)

end Line

/-! ### Offsets apart -/

section Apart

variable {source : Bytes} {o k k' k'' n : Nat} {ks ks' : List Nat}

/-- A line ends at the offset `k` or after it, and before `k'`. -/
def LineEndBetween (source : Bytes) (k k' : Nat) : Prop :=
  ∃ j, k ≤ j ∧ j < k' ∧ source[j]? = some Bytes.newline

theorem LineEndBetween.mono (h : LineEndBetween source k k') {l l' : Nat} (hl : l ≤ k)
    (hl' : k' ≤ l') : LineEndBetween source l l' := by
  obtain ⟨j, hk, hk', hj⟩ := h
  exact ⟨j, Nat.le_trans hl hk, Nat.lt_of_lt_of_le hk' hl', hj⟩

/-- Offsets with the end of a line between them are on different lines. -/
theorem LineEndBetween.line_lt (h : LineEndBetween source k k') :
    (Position.ofOffset source k).line < (Position.ofOffset source k').line := by
  obtain ⟨j, hk, hk', hj⟩ := h
  have hbefore : (source.take k).count Bytes.newline ≤ (source.take j).count Bytes.newline :=
    (List.take_sublist_take_left hk).count_le _
  have hafter : (source.take (j + 1)).count Bytes.newline ≤
      (source.take k').count Bytes.newline :=
    (List.take_sublist_take_left hk').count_le _
  have hend : (source.take (j + 1)).count Bytes.newline =
      (source.take j).count Bytes.newline + 1 := by
    rw [List.take_add_one, hj]
    simp
  rw [line_ofOffset, line_ofOffset]
  omega

/-- The offsets `ks` lie from `o` on for `n` bytes, and a line ends between any two of them. -/
structure Apart (source : Bytes) (o n : Nat) (ks : List Nat) : Prop where
  /-- Every offset is in the stretch, or is its end. -/
  within : ∀ k ∈ ks, o ≤ k ∧ k ≤ o + n
  /-- No two share a line. -/
  pairwise : ks.Pairwise (LineEndBetween source)

theorem Apart.nil : Apart source o n [] :=
  ⟨by simp, .nil⟩

theorem Apart.singleton : Apart source o n [o] :=
  ⟨by simp, List.pairwise_singleton _ _⟩

/-- Offsets apart, and others further on that begin after the end of a line, are apart. -/
theorem Apart.append {o' n' : Nat} (h : Apart source o n ks) (h' : Apart source o' n' ks')
    (hstart : o + n ≤ o') (hline : ∀ k ∈ ks', LineEndBetween source (o + n) k) :
    Apart source o (o' - o + n') (ks ++ ks') := by
  constructor
  · intro k hk
    rcases List.mem_append.1 hk with hk | hk
    · have := h.within k hk
      omega
    · have := h'.within k hk
      omega
  · exact List.pairwise_append.2 ⟨h.pairwise, h'.pairwise,
      fun k hk k' hk' => (hline k' hk').mono (h.within k hk).2 (Nat.le_refl _)⟩

end Apart

/-! ### Items on lines of their own -/

section Items

open Scriptlet.Parser

variable {source sep : Bytes} {R : Nat → α → Bytes → Prop} {marks : α → List Nat}
  (hmarks : ∀ a o t, R o a t → t <+: source.drop o → Apart source o t.length (marks a))

include hmarks

/-- Items that begin a new line each, spelled in the source: their marks are apart, and apart from
what stands before them. -/
theorem apart_of_eachAt {as : List α} {o : Nat} {t : Bytes}
    (hE : EachAt (After (Bytes.newline :: sep) R) o as t) (ht : t <+: source.drop o) :
    Apart source o t.length (as.flatMap marks) ∧
      ∀ k ∈ as.flatMap marks, LineEndBetween source o k := by
  induction as generalizing o t with
  | nil => exact ⟨.nil, by simp⟩
  | cons a as ih =>
    obtain ⟨t₁, t₂, rfl, ⟨u, rfl, hR⟩, hE⟩ := hE
    obtain ⟨rest, hrest⟩ := ht
    -- every item comes after a line feed, which lies before all of its marks
    have hnewline : source[o]? = some Bytes.newline := by
      rw [← Nat.add_zero o, ← List.getElem?_drop, ← hrest]
      rfl
    have hdrop : ∀ v w, v ++ w = source.drop o → w = source.drop (o + v.length) := by
      intro v w hvw
      rw [← List.drop_drop, ← hvw, List.drop_left]
    have hhead := hmarks a _ u hR ⟨t₂ ++ rest, hdrop (Bytes.newline :: sep) _ (by simp [← hrest])⟩
    obtain ⟨htail, hline⟩ :=
      ih hE ⟨rest, hdrop (Bytes.newline :: sep ++ u) _ (by simp [← hrest])⟩
    have hlength : o + (Bytes.newline :: sep).length + u.length =
        o + (Bytes.newline :: sep ++ u).length := by
      rw [List.length_append, Nat.add_assoc]
    have hall := hhead.append htail (Nat.le_of_eq hlength) (by rwa [hlength])
    have hfirst : ∀ k ∈ (a :: as).flatMap marks, LineEndBetween source o k := by
      intro k hk
      have hk := (hall.within k (by simpa using hk)).1
      exact ⟨o, Nat.le_refl o, by simp at hk; omega, hnewline⟩
    refine ⟨⟨fun k hk => ?_, by simpa using hall.pairwise⟩, hfirst⟩
    have hk := hall.within k (by simpa using hk)
    simp only [List.length_append, List.length_cons] at hk ⊢
    omega

end Items

/-! ### Statements and the clauses of their bodies -/

/-- The clauses of a statement that stand on indented lines. -/
def Stmt.indented : Stmt α → List (Clause α)
  | .clause _ => []
  | .func _ f => f.body
  | .cond _ _ body | .loop _ _ body => body

/-- The marks of what a statement begins a line with: those of itself and of the clauses of its
body. -/
def Stmt.lineMarks (s : Stmt α) : List α :=
  s.mark :: s.indented.map Clause.mark

theorem Clause.mark_map {β : Type} (f : α → β) (c : Clause α) : (c.map f).mark = f c.mark := by
  cases c <;> rfl

/-- Marks are changed in the order of the lines. -/
theorem Stmt.lineMarks_map {β : Type} (f : α → β) (s : Stmt α) :
    (s.map f).lineMarks = s.lineMarks.map f := by
  have hbody : ∀ body : List (Clause α),
      (body.map (Clause.map f)).map Clause.mark = (body.map Clause.mark).map f := by
    intro body
    rw [List.map_map, List.map_map]
    exact List.map_congr_left fun c _ => c.mark_map f
  cases s with
  | clause c => simp only [lineMarks, map, mark, indented, Clause.mark_map, List.map_cons,
      List.map_nil]
  | func name fn => exact congrArg (f fn.mark :: ·) (hbody fn.body)
  | cond m condition body | loop m condition body => exact congrArg (f m :: ·) (hbody body)

section Statements

variable {source : Bytes}

theorem Clause.mark_of_spellsAt {c : Clause Nat} {o : Nat} {t : Bytes} (h : c.SpellsAt o t) :
    c.mark = o := by
  cases c with
  | assign | ret => exact h.1

theorem Clause.apart_of_spellsAt (c : Clause Nat) (o : Nat) (t : Bytes) (h : c.SpellsAt o t)
    (_ : t <+: source.drop o) : Apart source o t.length [c.mark] := by
  rw [mark_of_spellsAt h]
  exact .singleton

/-- What begins a line at the offset `o`, and the body that follows it after the text `u`. -/
theorem apart_of_bodySpellsAt {o : Nat} {u v : Bytes} {body : List (Clause Nat)}
    (h : Clause.BodySpellsAt (o + u.length) body v) (ht : u ++ v <+: source.drop o) :
    Apart source o (u ++ v).length (o :: body.map Clause.mark) := by
  obtain ⟨rest, hrest⟩ := ht
  have hv : v <+: source.drop (o + u.length) :=
    ⟨rest, by rw [← List.drop_drop, ← hrest, List.append_assoc, List.drop_left]⟩
  obtain ⟨hbody, hline⟩ := apart_of_eachAt Clause.apart_of_spellsAt h hv
  rw [← List.map_eq_flatMap] at hbody hline
  have hhead : Apart source o u.length [o] := .singleton
  simpa using hhead.append hbody (Nat.le_refl _) hline

/-- The clauses of a statement and its head are on lines of their own. -/
theorem Stmt.apart_of_spellsAt (s : Stmt Nat) (o : Nat) (t : Bytes) (h : s.SpellsAt o t)
    (ht : t <+: source.drop o) : Apart source o t.length s.lineMarks := by
  cases s with
  | clause c => exact c.apart_of_spellsAt o t h ht
  | func name f =>
    obtain ⟨rfl, u, v, -, hbody, rfl⟩ := h
    exact apart_of_bodySpellsAt hbody ht
  | cond mark condition body =>
    obtain ⟨rfl, u, v, -, hbody, rfl⟩ := h
    rw [← List.append_assoc] at ht ⊢
    refine apart_of_bodySpellsAt ?_ ht
    rwa [List.length_append, ← Nat.add_assoc]
  | loop mark condition body =>
    obtain ⟨rfl, u, v, -, hbody, rfl⟩ := h
    rw [← List.append_assoc] at ht ⊢
    refine apart_of_bodySpellsAt ?_ ht
    rwa [List.length_append, ← Nat.add_assoc]

/-- **Between any two statements or clauses of a script a line ends.** -/
theorem pairwise_lineEndBetween_of_spellsAt {ss : List (Stmt Nat)}
    (h : Script.SpellsAt 0 ss source) :
    (ss.flatMap Stmt.lineMarks).Pairwise (LineEndBetween source) := by
  cases ss with
  | nil => exact .nil
  | cons s ss =>
    obtain ⟨t, t', rfl, hs, hE⟩ := h
    have hhead := s.apart_of_spellsAt 0 t hs ⟨t', rfl⟩
    have ht : t' <+: (t ++ t').drop (0 + t.length) := ⟨[], by simp⟩
    obtain ⟨htail, hline⟩ := apart_of_eachAt Stmt.apart_of_spellsAt hE ht
    simpa using (hhead.append htail (Nat.le_refl _) hline).pairwise

/-- **In a script that was parsed, every statement and every clause of a body is on a line of its
own**, and further down than those before it. -/
theorem pairwise_line_lt_of_parse {script : Script} (h : parse source = .ok script) :
    (script.statements.flatMap Stmt.lineMarks).Pairwise (·.line < ·.line) := by
  unfold parse at h
  rcases hp : parseMarked source with missed | ss
  · simp [hp] at h
  · simp only [hp, Except.ok.injEq] at h
    subst h
    have hss := pairwise_lineEndBetween_of_spellsAt (parseMarked_sound hp).1
    simp only [List.flatMap_map, Stmt.lineMarks_map, ← List.map_flatMap, List.pairwise_map,
      Position.lookUp_ofOffsets]
    exact hss.imp LineEndBetween.line_lt

/-- The marks of statements, and of the clauses of bodies, tell them apart. -/
theorem nodup_lineMarks_of_parse {script : Script} (h : parse source = .ok script) :
    (script.statements.flatMap Stmt.lineMarks).Nodup :=
  (pairwise_line_lt_of_parse h).imp fun hlt heq =>
    Nat.ne_of_lt hlt (congrArg Position.line heq)

end Statements

end Scriptlet
