import Mathlib.Data.List.DropRight
import Scriptlet.Server.Word

/-!
# The word under the cursor

A cursor stands between two glyphs of a line, and an editor asks for the word there. A **word** is
a stretch of name characters that none continues on either side (`Scriptlet.IsWord`), so two words
never touch, and at most one of them has the cursor in it or right behind it. That is the one to be
shown.

`Scriptlet.wordAt_shows_word` says that it is shown, and that there is one more case. At the end of
a line the search sets out from the last glyph, and it goes back one glyph when there is no name
character; so of a line that ends with a word and one more glyph the word is shown although the
cursor does not touch it. Anywhere else in a line it would not be.
-/

namespace Scriptlet

/-! ### Words of a line -/

section Words

variable {line word : List Glyph} {a k : Nat}

/-- A name character stands at a place of a line. -/
def IsNameAt (line : List Glyph) (k : Nat) : Prop :=
  ∃ r ∈ (line)[k]?, r.isNameChar = true

/-- **A word** of a line, which begins at the place `a`. -/
def IsWord (line : List Glyph) (a : Nat) (word : List Glyph) : Prop :=
  ∃ before after, line = before ++ (word ++ after) ∧ before.length = a ∧ word ≠ [] ∧
    (∀ r ∈ word, r.isNameChar = true) ∧ (∀ r ∈ before.getLast?, r.isNameChar = false) ∧
    ∀ r ∈ after.head?, r.isNameChar = false

theorem isWordAt_iff : isWordAt line k = true ↔ IsNameAt line k := by
  rw [isWordAt, List.head?_drop, IsNameAt]
  cases (line)[k]? <;> simp

theorem IsNameAt.lt (h : IsNameAt line k) : k < line.length := by
  obtain ⟨r, hr, -⟩ := h
  exact (List.getElem?_eq_some_iff.1 hr).1

theorem IsWord.ne_nil (h : IsWord line a word) : word ≠ [] := by
  obtain ⟨-, -, -, -, hne, -⟩ := h
  exact hne

theorem IsWord.length_pos (h : IsWord line a word) : 0 < word.length :=
  List.length_pos_iff.2 h.ne_nil

/-- Every glyph of a word is one of a name. -/
theorem IsWord.isNameAt (h : IsWord line a word) (hk : a ≤ k) (hk' : k < a + word.length) :
    IsNameAt line k := by
  obtain ⟨before, after, rfl, rfl, -, hword, -, -⟩ := h
  obtain ⟨j, rfl⟩ := Nat.exists_eq_add_of_le hk
  have hj : j < word.length := Nat.add_lt_add_iff_left.1 hk'
  refine ⟨word[j], ?_, hword _ (List.getElem_mem hj)⟩
  rw [List.getElem?_append_right (Nat.le_add_right _ _), Nat.add_sub_cancel_left,
    List.getElem?_append_left hj, List.getElem?_eq_getElem hj]
  exact rfl

theorem IsWord.not_isNameAt_end (h : IsWord line a word) : ¬IsNameAt line (a + word.length) := by
  obtain ⟨before, after, rfl, rfl, -, -, -, hafter⟩ := h
  rintro ⟨r, hr, hname⟩
  rw [← List.append_assoc, ← List.length_append, List.getElem?_append_right (Nat.le_refl _),
    Nat.sub_self, ← List.head?_eq_getElem?] at hr
  rw [hafter r hr] at hname
  cases hname

/-- Name characters up to something else. -/
theorem takeWhile_isNameChar {u v : List Glyph} (hu : ∀ r ∈ u, r.isNameChar = true)
    (hv : ∀ r ∈ v.head?, r.isNameChar = false) : (u ++ v).takeWhile Glyph.isNameChar = u := by
  have hstop : v.takeWhile Glyph.isNameChar = [] := by
    rcases v with _ | ⟨r, v⟩
    · rfl
    · exact List.takeWhile_cons_of_neg (Bool.eq_false_iff.1 (hv r rfl))
  rw [List.takeWhile_append_of_pos hu, hstop, List.append_nil]

/-- The search to both sides of a place finds the word that the place is in. -/
theorem IsWord.wordAround_eq (h : IsWord line a word) (hk : a ≤ k) (hk' : k < a + word.length) :
    wordAround line k = word := by
  obtain ⟨before, after, rfl, rfl, -, hword, hbefore, hafter⟩ := h
  obtain ⟨j, rfl⟩ := Nat.exists_eq_add_of_le hk
  have hj : j ≤ word.length := by omega
  have hleft : (before ++ word.take j).reverse.takeWhile Glyph.isNameChar =
      (word.take j).reverse := by
    rw [List.reverse_append]
    refine takeWhile_isNameChar (fun r hr => ?_) fun r hr => ?_
    · exact hword r (List.mem_of_mem_take (List.mem_reverse.1 hr))
    · exact hbefore r (List.head?_reverse ▸ hr)
  have hright : (word.drop j ++ after).takeWhile Glyph.isNameChar = word.drop j :=
    takeWhile_isNameChar (fun r hr => hword r (List.mem_of_mem_drop hr)) hafter
  rw [wordAround, List.take_length_add_append, List.drop_length_add_append,
    List.take_append_of_le_length hj, List.drop_append_of_le_length hj, hleft, hright,
    List.reverse_reverse, List.take_append_drop]

/-- **Every name character is in a word.** -/
theorem IsNameAt.exists_isWord (h : IsNameAt line k) :
    ∃ a word, IsWord line a word ∧ a ≤ k ∧ k < a + word.length := by
  obtain ⟨r, hr, hname⟩ := h
  obtain ⟨hk, hr⟩ := List.getElem?_eq_some_iff.1 hr
  have hdrop : line.drop k = r :: line.drop (k + 1) := by
    rw [List.drop_eq_getElem_cons hk, hr]
  -- the word goes to the left and to the right as far as there are name characters
  let left := (line.take k).rtakeWhile Glyph.isNameChar
  let right := (line.drop k).takeWhile Glyph.isNameChar
  have hsplit : (line.take k).rdropWhile Glyph.isNameChar ++ left = line.take k := by
    simp only [left, List.rdropWhile, List.rtakeWhile]
    rw [← List.reverse_append, List.takeWhile_append_dropWhile, List.reverse_reverse]
  have hlength := congrArg List.length hsplit
  rw [List.length_append, List.length_take_of_le (Nat.le_of_lt hk)] at hlength
  have hright : right = r :: (line.drop (k + 1)).takeWhile Glyph.isNameChar := by
    simp only [right, hdrop, List.takeWhile_cons_of_pos hname]
  refine ⟨_, left ++ right, ⟨(line.take k).rdropWhile Glyph.isNameChar,
    (line.drop k).dropWhile Glyph.isNameChar, ?_, rfl, ?_, ?_, ?_, ?_⟩, ?_, ?_⟩
  · rw [List.append_assoc, ← List.append_assoc, hsplit, List.takeWhile_append_dropWhile,
      List.take_append_drop]
  · simp [hright]
  · intro r' hr'
    rcases List.mem_append.1 hr' with hr' | hr'
    · exact List.mem_rtakeWhile_imp hr'
    · exact List.mem_takeWhile_imp hr'
  · intro r' hr'
    obtain ⟨hne, rfl⟩ := List.mem_getLast?_eq_getLast hr'
    simpa using List.rdropWhile_last_not _ _ hne
  · intro r' hr'
    have hstop := List.head?_dropWhile_not Glyph.isNameChar (line.drop k)
    rw [Option.mem_def.1 hr'] at hstop
    exact hstop
  · omega
  · rw [List.length_append, hright, List.length_cons]
    omega

end Words

/-! ### Cursors -/

section Cursor

variable {line word : List Glyph} {a i k : Nat}

/-- **A cursor at the place `i` is at a word**: in it, or right behind it. At the end of the line,
one more glyph may be between the two. -/
inductive IsAt (line : List Glyph) (i a : Nat) (word : List Glyph) : Prop
  /-- The word goes on behind the cursor. -/
  | within (h : a ≤ i) (h' : i < a + word.length)
  /-- The cursor is at the end of the word. -/
  | behind (h : a + word.length = i)
  /-- The cursor is at the end of the line, one glyph behind the word. -/
  | beyond (h : a + word.length + 1 = i) (h' : i = line.length)

/-- The word that a cursor is at is the one that is found. -/
theorem IsWord.wordInLine_eq (h : IsWord line a word) (hat : IsAt line i a word) :
    wordInLine line i = Bytes.ofGlyphs word := by
  have hstop : isWordAt line (a + word.length) = false := by
    rw [← Bool.not_eq_true, isWordAt_iff]
    exact h.not_isNameAt_end
  have hword := h.length_pos
  -- the last glyph of the word, which is where the search arrives from behind
  obtain ⟨j, hj⟩ : ∃ j, a + word.length = j + 1 := ⟨a + word.length - 1, by omega⟩
  have hlast : isWordAt line j = true :=
    isWordAt_iff.2 (h.isNameAt (by omega) (by omega))
  have haround : wordAround line j = word := h.wordAround_eq (by omega) (by omega)
  rw [wordInLine]
  cases hat with
  | within hle hlt =>
    have hi := h.isNameAt hle hlt
    rw [if_neg (Nat.ne_of_lt hi.lt), if_pos (isWordAt_iff.2 hi), h.wordAround_eq hle hlt]
  | behind hi =>
    subst hi
    rw [hj] at hstop ⊢
    split
    · rw [Nat.add_sub_cancel, if_pos hlast, haround]
    · rw [if_neg (by simp [hstop]), if_pos (by simp [hlast]), Nat.add_sub_cancel, haround]
  | beyond hi hlength =>
    rw [if_pos hlength, ← hi, Nat.add_sub_cancel, hj, if_neg (by simp [← hj, hstop]),
      if_pos (by simp [hlast]), Nat.add_sub_cancel, haround]

/-- Whether a cursor is at a word is seen from the glyphs next to it. -/
theorem exists_isAt_iff : (∃ a word, IsWord line a word ∧ IsAt line i a word) ↔
    IsNameAt line i ∨ (∃ k, k + 1 = i ∧ IsNameAt line k) ∨
      i = line.length ∧ ∃ k, k + 2 = i ∧ IsNameAt line k := by
  constructor
  · rintro ⟨a, word, hword, hat⟩
    have hpos := hword.length_pos
    cases hat with
    | within hle hlt => exact .inl (hword.isNameAt hle hlt)
    | behind hi =>
      exact .inr (.inl ⟨i - 1, by omega, hword.isNameAt (by omega) (by omega)⟩)
    | beyond hi hlength =>
      exact .inr (.inr ⟨hlength, i - 2, by omega, hword.isNameAt (by omega) (by omega)⟩)
  · rintro (h | ⟨k, rfl, h⟩ | ⟨hlength, k, rfl, h⟩)
    · obtain ⟨a, word, hword, hle, hlt⟩ := h.exists_isWord
      exact ⟨a, word, hword, .within hle hlt⟩
    · obtain ⟨a, word, hword, hle, hlt⟩ := h.exists_isWord
      refine ⟨a, word, hword, ?_⟩
      -- the word may go on under the cursor, or end just before it
      rcases Nat.lt_or_eq_of_le (Nat.succ_le_of_lt hlt) with hlt' | hend
      · exact .within (Nat.le_succ_of_le hle) hlt'
      · exact .behind hend.symm
    · obtain ⟨a, word, hword, hle, hlt⟩ := h.exists_isWord
      refine ⟨a, word, hword, ?_⟩
      rcases Nat.lt_trichotomy (k + 2) (a + word.length) with hlt' | hend | hgt
      · exact .within (by omega) hlt'
      · exact .behind hend.symm
      · exact .beyond (by omega) hlength

theorem wordInLine_eq_nil (h : ¬∃ a word, IsWord line a word ∧ IsAt line i a word) :
    wordInLine line i = [] := by
  rw [exists_isAt_iff] at h
  have hhere : isWordAt line i ≠ true := fun hi => h (.inl (isWordAt_iff.1 hi))
  have hback : 0 < i → isWordAt line (i - 1) ≠ true := fun hpos hi =>
    h (.inr (.inl ⟨i - 1, by omega, isWordAt_iff.1 hi⟩))
  have hfurther : i = line.length → 1 < i → isWordAt line (i - 2) ≠ true := fun hlength hlt hi =>
    h (.inr (.inr ⟨hlength, i - 2, by omega, isWordAt_iff.1 hi⟩))
  rw [wordInLine]
  by_cases hlength : i = line.length
  · rw [if_pos hlength]
    rcases Nat.eq_zero_or_pos i with rfl | hpos
    · rw [if_neg hhere, if_neg (by simp)]
    · rw [if_neg (hback hpos), if_neg fun hi => ?_]
      obtain ⟨hlt, hi⟩ := Bool.and_eq_true_iff.1 hi
      have hlt : 0 < i - 1 := of_decide_eq_true hlt
      exact hfurther hlength (by omega) hi
  · rw [if_neg hlength, if_neg hhere, if_neg fun hi => ?_]
    obtain ⟨hlt, hi⟩ := Bool.and_eq_true_iff.1 hi
    exact hback (of_decide_eq_true hlt) hi

end Cursor

/-! ### Documents -/

/-- The glyphs of a line of a document, the lines counted from zero. -/
def lineAt? (document : Bytes) (line : Int) : Option (List Glyph) :=
  if line < 0 then none else (Bytes.lines document)[line.toNat]?.map Bytes.glyphs

/-- On a line that is there, the word is looked for at the glyph of the unit. -/
theorem wordAt_of_lineAt? {document : Bytes} {line : Int} {glyphs : List Glyph}
    (h : lineAt? document line = some glyphs) (character : Int) :
    wordAt document line character =
      wordInLine glyphs (glyphsOfUnits glyphs character.toNat) := by
  unfold lineAt? at h
  split at h
  · cases h
  · rename_i hline
    obtain ⟨text, htext, rfl⟩ := Option.map_eq_some_iff.1 h
    rw [wordAt, if_neg hline]
    simp only [htext]

theorem wordAt_of_lineAt?_eq_none {document : Bytes} {line : Int}
    (h : lineAt? document line = none) (character : Int) :
    wordAt document line character = [] := by
  rw [wordAt]
  unfold lineAt? at h
  split at h
  · rename_i hline
    rw [if_pos hline]
  · rename_i hline
    rw [if_neg hline]
    simp only [Option.map_eq_none_iff.1 h]

theorem Bytes.ofGlyphs_ne_nil {rs : List Glyph} (h : rs ≠ []) : Bytes.ofGlyphs rs ≠ [] := by
  obtain ⟨r, rs, rfl⟩ := List.exists_cons_of_ne_nil h
  have hr : r.bytes ≠ [] := by
    cases r with
    | char c => exact List.length_pos_iff.1 (String.length_utf8EncodeChar c ▸ c.utf8Size_pos)
    | stray b => exact List.cons_ne_nil b []
  rw [Bytes.ofGlyphs, List.flatMap_cons]
  exact List.append_ne_nil_of_left_ne_nil hr _

/-- **The word under the cursor.** There is one exactly when the line exists and a name character
stands at the cursor or right before it, or else, at the end of the line, one glyph before that; and
then it is the word that the cursor is at. -/
theorem wordAt_shows_word (document : Bytes) (line character : Int) :
    (wordAt document line character ≠ [] ↔ ∃ glyphs, lineAt? document line = some glyphs ∧
      let i := glyphsOfUnits glyphs character.toNat
      (IsNameAt glyphs i ∨ (∃ k, k + 1 = i ∧ IsNameAt glyphs k) ∨
        i = glyphs.length ∧ ∃ k, k + 2 = i ∧ IsNameAt glyphs k)) ∧
    ∀ glyphs a word, lineAt? document line = some glyphs → IsWord glyphs a word →
      IsAt glyphs (glyphsOfUnits glyphs character.toNat) a word →
      wordAt document line character = Bytes.ofGlyphs word := by
  constructor
  · cases hline : lineAt? document line with
    | none => simp [wordAt_of_lineAt?_eq_none hline]
    | some glyphs =>
      simp only [wordAt_of_lineAt? hline, Option.some.injEq, exists_eq_left', ← exists_isAt_iff]
      constructor
      · intro h
        by_contra hnone
        exact h (wordInLine_eq_nil hnone)
      · rintro ⟨a, word, hword, hat⟩
        rw [hword.wordInLine_eq hat]
        exact Bytes.ofGlyphs_ne_nil hword.ne_nil
  · intro glyphs a word hline hword hat
    rw [wordAt_of_lineAt? hline, hword.wordInLine_eq hat]

/-- The word is shown behind the blank at the end of a line, and not behind one in its middle. -/
example : wordAt (Bytes.ofString "a ") 0 2 = Bytes.ofString "a" ∧
    wordAt (Bytes.ofString "a  b") 0 2 = [] := by
  decide

end Scriptlet
