import Scriptlet.Text.Blank

/-!
# The input line

The line at the prompt is a short text with a **cursor** in it. Every edit goes through three
operations: putting the cursor somewhere, cutting out the characters between two places, and
inserting characters at the cursor; and the whole text can be replaced.

Whatever is typed or set, the line never grows beyond its limit and holds no control characters:
what ends a line or moves to a tab stop becomes a blank, and the others are dropped. Both facts
are part of the line.
-/

namespace Scriptlet

namespace InputLine

/-- The greatest number of characters of a line. -/
def limit : Nat := 500

/-- A control character. -/
def isControl (c : Char) : Bool :=
  c.toNat < 0x20 || (0x7f ≤ c.toNat && c.toNat < 0xa0)

/-- Whether a line may hold a character. -/
def isTypable (c : Char) : Bool :=
  !isControl c && c != Glyph.replacement

/-- What a line holds for a character, if anything: a blank for a tab or a line end. -/
def typed? (c : Char) : Option Char :=
  if c = '\t' ∨ c = '\n' ∨ c = '\r' then some ' '
  else if isTypable c then some c
  else none

/-- What a line holds for a text. -/
def typed (s : List Char) : List Char :=
  s.filterMap typed?

theorem isTypable_of_mem_typed {s : List Char} {c : Char} (h : c ∈ typed s) :
    isTypable c = true := by
  obtain ⟨a, -, ha⟩ := List.mem_filterMap.1 h
  simp only [typed?] at ha
  split at ha
  · cases ha
    decide
  · split at ha
    · cases ha
      assumption
    · cases ha

theorem typed?_of_isTypable {c : Char} (h : isTypable c = true) : typed? c = some c := by
  have hc : ¬(c = '\t' ∨ c = '\n' ∨ c = '\r') := by
    rintro (rfl | rfl | rfl) <;> exact absurd h (by decide)
  simp [typed?, hc, h]

/-- A text that a line may hold can be typed without loss. -/
theorem typed_of_typable {s : List Char} (h : ∀ c ∈ s, isTypable c = true) : typed s = s := by
  induction s with
  | nil => rfl
  | cons c s ih =>
    have hs : typed s = s := ih fun d hd => h d (List.mem_cons_of_mem c hd)
    rw [typed, List.filterMap_cons_some (typed?_of_isTypable (h c List.mem_cons_self))]
    exact congrArg (c :: ·) hs

end InputLine

/-- **A line being edited.** -/
structure InputLine where
  /-- The characters of the line. -/
  text : List Char
  /-- How many of them stand before the cursor. -/
  cursor : Nat
  /-- The cursor stands in the line. -/
  cursor_le : cursor ≤ text.length
  /-- The line is not too long. -/
  fits : text.length ≤ InputLine.limit
  /-- The line holds nothing that does not belong there. -/
  typable : ∀ c ∈ text, InputLine.isTypable c = true

namespace InputLine

/-- The empty line. -/
def empty : InputLine where
  text := []
  cursor := 0
  cursor_le := Nat.le_refl 0
  fits := Nat.zero_le limit
  typable := by simp

/-! ### Moving the cursor -/

/-- The line with the cursor at a place, or at the end when there is no such place. -/
def moveTo (l : InputLine) (place : Nat) : InputLine :=
  { l with cursor := min place l.text.length, cursor_le := Nat.min_le_right .. }

@[simp]
theorem text_moveTo (l : InputLine) (place : Nat) : (l.moveTo place).text = l.text := rfl

/-- The line with the cursor at its end. -/
def moveToEnd (l : InputLine) : InputLine :=
  l.moveTo l.text.length

/-! ### Words

A word is a run of characters that are not white space. Both ways, the cursor first passes
white space and then a word. -/

/-- How many characters of a text come before the end of its first word. -/
def wordLength (s : List Char) : Nat :=
  let blanks := s.takeWhile isBlank
  blanks.length + ((s.drop blanks.length).takeWhile fun c => !isBlank c).length

/-- Where the word before the cursor begins. -/
def wordStart (l : InputLine) : Nat :=
  l.cursor - wordLength (l.text.take l.cursor).reverse

/-- Where the word after the cursor ends. -/
def wordEnd (l : InputLine) : Nat :=
  l.cursor + wordLength (l.text.drop l.cursor)

/-! ### Changing the text -/

theorem cutOut_sublist (s : List Char) (i n : Nat) : (s.take i ++ s.drop (i + n)).Sublist s :=
  calc (s.take i ++ s.drop (i + n)).Sublist (s.take i ++ s.drop i) :=
        List.Sublist.append (List.Sublist.refl _) (by
          rw [← List.drop_drop]
          exact List.drop_sublist _ _)
    _ = s := List.take_append_drop i s

/-- The line without `n` characters from a place on, and with the cursor at that place. -/
def cutOut (l : InputLine) (place n : Nat) : InputLine :=
  have h := cutOut_sublist l.text place n
  { text := l.text.take place ++ l.text.drop (place + n)
    cursor := min place (l.text.take place ++ l.text.drop (place + n)).length
    cursor_le := Nat.min_le_right ..
    fits := Nat.le_trans h.length_le l.fits
    typable := fun c hc => l.typable c (h.subset hc) }

theorem insert_fits {s t u : List Char} (h : (s ++ t).length ≤ limit) :
    (s ++ u.take (limit - (s ++ t).length) ++ t).length ≤ limit := by
  simp only [List.length_append, List.length_take] at *
  omega

/-- The line with characters inserted at the cursor, as many as there is room for. -/
def insert (l : InputLine) (s : List Char) : InputLine :=
  have hl : (l.text.take l.cursor ++ l.text.drop l.cursor).length ≤ limit := by
    rw [List.take_append_drop]
    exact l.fits
  let room := limit - (l.text.take l.cursor ++ l.text.drop l.cursor).length
  let new := (typed s).take room
  { text := l.text.take l.cursor ++ new ++ l.text.drop l.cursor
    cursor := l.cursor + new.length
    cursor_le := by
      have h := l.cursor_le
      simp only [List.length_append, List.length_take, List.length_drop]
      omega
    fits := insert_fits hl
    typable := by
      intro c hc
      rcases List.mem_append.1 hc with hc | hc
      · rcases List.mem_append.1 hc with hc | hc
        · exact l.typable c (List.mem_of_mem_take hc)
        · exact isTypable_of_mem_typed (List.mem_of_mem_take hc)
      · exact l.typable c (List.mem_of_mem_drop hc) }

/-- The line with another text, cut to the limit. The cursor stays where it is, unless that is
beyond the end or the line was empty: then it goes to the end. -/
def set (l : InputLine) (s : List Char) : InputLine :=
  let new := (typed s).take limit
  { text := new
    cursor := if l.text = [] ∨ new.length < l.cursor then new.length else l.cursor
    cursor_le := by split <;> omega
    fits := List.length_take_le ..
    typable := fun _ hc => isTypable_of_mem_typed (List.mem_of_mem_take hc) }

/-! ### Edits -/

/-- The edits a key can stand for. -/
inductive Edit where
  | left
  | right
  | home
  | toEnd
  | wordLeft
  | wordRight
  | eraseBack
  | eraseHere
  | eraseToStart
  | eraseWordBack
  | eraseWordHere
  deriving DecidableEq, Repr

/-- Where the erasure of the word before the cursor begins: at that word, or at the start of the
line when only one blank stands before the word. -/
def eraseStart (l : InputLine) : Nat :=
  if l.wordStart ≤ 1 then 0 else l.wordStart

/-- How many characters the erasure of the word after the cursor takes: the one at the cursor,
whatever it is, and all up to the end of the first word after it. -/
def eraseLength (l : InputLine) : Nat :=
  1 + wordLength (l.text.drop (l.cursor + 1))

/-- **The line after an edit.** -/
def edit (l : InputLine) : Edit → InputLine
  | .left => l.moveTo (l.cursor - 1)
  | .right => l.moveTo (l.cursor + 1)
  | .home => l.moveTo 0
  | .toEnd => l.moveToEnd
  | .wordLeft => l.moveTo l.wordStart
  | .wordRight => l.moveTo l.wordEnd
  | .eraseBack => l.cutOut (l.cursor - 1) (l.cursor - (l.cursor - 1))
  | .eraseHere => l.cutOut l.cursor 1
  | .eraseToStart => l.cutOut 0 l.cursor
  | .eraseWordBack => l.cutOut l.eraseStart (l.cursor - l.eraseStart)
  | .eraseWordHere => l.cutOut l.cursor l.eraseLength

end InputLine

end Scriptlet
