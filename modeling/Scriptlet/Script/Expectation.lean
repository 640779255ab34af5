import Scriptlet.Source.CodeFrame
import Scriptlet.Text.Quoted

/-!
# What a parser expected

A parser that tries alternatives fails in many places before it gives up, and only the
**furthest** of them helps the reader. `Missed` collects failures: it keeps the greatest
offset at which something was missing, and what was missing there, each item once, in the
order of the attempts. Collecting two records is associative with an empty record as unit,
so a parser may simply return what it missed and let its caller collect.

`SyntaxError` is what the reader gets in the end: the position of the furthest failure, a
sentence, and a code frame.
-/

namespace Scriptlet

/-- Something that a parser looked for in vain. -/
inductive Expectation where
  /-- A fixed piece of text. -/
  | literal (text : Bytes)
  /-- A name. -/
  | identifier
  /-- A run of digits. -/
  | number
  /-- The quote at the end of a text. -/
  | closingQuote
  /-- Nothing more. -/
  | endOfInput
  /-- Fewer open brackets. -/
  | shallowerNesting
  deriving DecidableEq, Repr

/-- How an expectation is called in a message. The two pieces of text that end a line have
names; others are quoted. -/
def Expectation.label : Expectation → Bytes
  | literal text =>
    if text = Bytes.ofString "\n" then Bytes.ofString "newline"
    else if text = Bytes.ofString "\n    " then Bytes.ofString "indented line"
    else Bytes.quoted text
  | identifier => Bytes.ofString "identifier"
  | number => Bytes.ofString "number"
  | closingQuote => Bytes.ofString "closing quote"
  | endOfInput => Bytes.ofString "end of input"
  | shallowerNesting => Bytes.ofString "shallower nesting"

/-- The furthest failures of an attempt: an offset, and what was missing there. -/
structure Missed where
  /-- The greatest offset at which something was missing. -/
  offset : Nat
  /-- What was missing there, each item once, in the order of the attempts. -/
  expected : List Expectation
  deriving DecidableEq, Repr

namespace Missed

/-- Nothing was missing. -/
def nothing : Missed := ⟨0, []⟩

/-- One thing was missing. -/
def one (offset : Nat) (e : Expectation) : Missed := ⟨offset, [e]⟩

/-- The failures of an attempt and of a later one: those of the greater offset, or of both
when they missed at the same place. -/
def merge (a b : Missed) : Missed :=
  if a.offset < b.offset then b
  else if b.offset < a.offset then a
  else ⟨a.offset, a.expected ++ b.expected.filter (· ∉ a.expected)⟩

end Missed

/-! ### Messages -/

/-- Items in a sentence: commas between them, and "or" before the last. -/
def orList : List Bytes → Bytes
  | [] => []
  | [item] => item
  | [item, last] => item ++ Bytes.ofString " or " ++ last
  | item :: items => item ++ Bytes.ofString ", " ++ orList items

/-- How many glyphs of the input a message quotes at most. -/
def snippetGlyphs : Nat := 12

/-- What a message says stands at a place, given the source from there on: the rest of
the line, cut short when it is long. -/
def describeInput (rest : Bytes) : Bytes :=
  match rest with
  | [] => Bytes.ofString "end of input"
  | b :: _ =>
    if b = Bytes.newline then Bytes.ofString "newline"
    else
      let line := rest.takeWhile (· ≠ Bytes.newline)
      let glyphs := Bytes.glyphs line
      if snippetGlyphs < glyphs.length then
        Bytes.quoted (Bytes.ofChars ((glyphs.take snippetGlyphs).map Glyph.toChar) ++
          Bytes.ofString "...")
      else Bytes.quoted line

/-- A source that is not a script: where, why, and the line in question. -/
structure SyntaxError where
  /-- The position of the furthest failure. -/
  position : Position
  /-- What was expected there and what stands there. -/
  message : Bytes
  /-- The line with a caret, or nothing. -/
  frame : Bytes
  deriving DecidableEq, Repr

/-- The error for a source in which the given things were missing. -/
def Missed.toError (source : Bytes) (m : Missed) : SyntaxError :=
  let position := Position.ofOffset source m.offset
  { position
    message := Bytes.ofString "expected " ++ orList (m.expected.map Expectation.label) ++
      Bytes.ofString ", got " ++ describeInput (source.drop m.offset)
    frame := codeFrame source position }

end Scriptlet
