import Scriptlet.Script.Expectation

/-!
# Parsers with ordered choice

A **parser** looks at the source from a cursor on and either succeeds, with a value and the
cursor after what it consumed, or fails. A choice tries its alternatives in order, each
from the same cursor, and commits to the first that succeeds. Either way the parser also
reports the furthest things it missed on the way, abandoned alternatives included.

A parser is a plain function of the cursor. What it missed is part of its answer rather
than of a hidden state, so the same cursor always gives the same reply.
-/

namespace Scriptlet

/-- A place in the source: how many bytes lie before it, and what lies after it. -/
structure Cursor where
  /-- The number of bytes before the cursor. -/
  offset : Nat
  /-- The source from the cursor on. -/
  rest : Bytes
  deriving DecidableEq, Repr

namespace Cursor

/-- The beginning of a source. -/
def start (source : Bytes) : Cursor := ⟨0, source⟩

/-- The cursor after the next `n` bytes. -/
def advance (c : Cursor) (n : Nat) : Cursor :=
  ⟨c.offset + n, c.rest.drop n⟩

end Cursor

/-- The answer of a parser. -/
structure Reply (α : Type) where
  /-- The value and the cursor after it, when the parser succeeds. -/
  result : Option (α × Cursor)
  /-- The furthest things missed. -/
  missed : Missed

/-- A parser for values of type `α`. -/
def Parser (α : Type) : Type :=
  Cursor → Reply α

namespace Parser

variable {α β : Type}

/-- Succeeds without consuming anything. -/
@[inline] protected def pure (a : α) : Parser α := fun c =>
  ⟨some (a, c), .nothing⟩

/-- Fails, missing `e` at the cursor. -/
@[inline] def fail (e : Expectation) : Parser α := fun c =>
  ⟨none, .one c.offset e⟩

/-- Runs `p`, then what `f` makes of its value. -/
@[inline] protected def bind (p : Parser α) (f : α → Parser β) : Parser β := fun c =>
  match p c with
  | ⟨none, m⟩ => ⟨none, m⟩
  | ⟨some (a, c'), m⟩ =>
    match f a c' with
    | ⟨r, m'⟩ => ⟨r, m.merge m'⟩

/-- Runs `p`, and `q` from the same cursor when `p` fails. -/
@[inline] protected def orElse (p q : Parser α) : Parser α := fun c =>
  match p c with
  | ⟨some r, m⟩ => ⟨some r, m⟩
  | ⟨none, m⟩ =>
    match q c with
    | ⟨r, m'⟩ => ⟨r, m.merge m'⟩

instance : Monad Parser where
  pure := Parser.pure
  bind := Parser.bind

instance : OrElse (Parser α) where
  orElse p q := Parser.orElse p (q ())

/-- The offset of the cursor. -/
@[inline] def offset : Parser Nat := fun c =>
  ⟨some (c.offset, c), .nothing⟩

/-- Runs `p` from the cursor `c`, wherever the parser stands. -/
@[inline] def backAt (c : Cursor) (p : Parser α) : Parser α := fun _ =>
  p c

/-- Consumes a fixed piece of text. -/
def literal (text : Bytes) : Parser Unit := fun c =>
  match Bytes.after? text c.rest with
  | some rest => ⟨some ((), ⟨c.offset + text.length, rest⟩), .nothing⟩
  | none => ⟨none, .one c.offset (.literal text)⟩

/-- Consumes the longest run of bytes that satisfy `p`, which must not be empty. -/
def run (p : UInt8 → Bool) (e : Expectation) : Parser Bytes := fun c =>
  match c.rest.takeWhile p with
  | [] => ⟨none, .one c.offset e⟩
  | bs => ⟨some (bs, c.advance bs.length), .nothing⟩

/-- At most `fuel` repetitions of `p`, until it fails. -/
def repeatUpTo (p : Parser α) : (fuel : Nat) → Parser (List α)
  | 0, c => ⟨some ([], c), .nothing⟩
  | fuel + 1, c =>
    match p c with
    | ⟨none, m⟩ => ⟨some ([], c), m⟩
    | ⟨some (a, c'), m⟩ =>
      match repeatUpTo p fuel c' with
      | ⟨none, m'⟩ => ⟨none, m.merge m'⟩
      | ⟨some (as, c''), m'⟩ => ⟨some (a :: as, c''), m.merge m'⟩

/-- Repeats `p` until it fails; the failing attempt consumes nothing. A parser that always
consumes something cannot be repeated more often than there are bytes left, and the attempt
after the last success is made too, so that what it misses is reported. -/
@[inline] def many (p : Parser α) : Parser (List α) := fun c =>
  repeatUpTo p (c.rest.length + 1) c

/-- Items with a comma and a blank between them, possibly none. A separator without an item
after it is not consumed. -/
def list (item : Parser α) : Parser (List α) :=
  (do
    let first ← item
    let others ← many (do literal (Bytes.ofString ", "); item)
    pure (first :: others))
  <|> pure []

/-- Succeeds at the end of the source only. -/
def endOfInput : Parser Unit := fun c =>
  match c.rest with
  | [] => ⟨some ((), c), .nothing⟩
  | _ :: _ => ⟨none, .one c.offset .endOfInput⟩

end Parser

end Scriptlet
