import Scriptlet.Bytes

/-!
# The layout of a source

The grammar accepts one layout only, and **formatting** brings a source into it as far as
lines go: line feeds between lines whatever ended them before, no blank lines, nothing blank
at the end of a line, four blanks in place of tabs at its beginning, and one line feed at
the very end. It looks at lines alone and knows nothing of the grammar.
-/

namespace Scriptlet

namespace Layout

/-- The source with a line feed for each line end: a carriage return with a line feed after
it, or either of them alone. -/
def unifyLineEnds (s : Bytes) : Bytes :=
  (Bytes.replacePair Bytes.carriageReturn Bytes.newline Bytes.newline s).map fun b =>
    if b = Bytes.carriageReturn then Bytes.newline else b

/-- A line with four blanks for all the tabs it begins with. -/
def indent (line : Bytes) : Bytes :=
  match line with
  | [] => []
  | b :: _ =>
    if b = Bytes.tab then Bytes.spaces 4 ++ line.dropWhile (· == Bytes.tab) else line

/-- A line as it is kept; blank lines are not. -/
def keep? (line : Bytes) : Option Bytes :=
  match Bytes.trimEnd Bytes.isBlankOrTab line with
  | [] => none
  | kept => some (indent kept)

end Layout

/-- **A source, formatted.** -/
def format (source : Bytes) : Bytes :=
  ((Bytes.lines (Layout.unifyLineEnds source)).filterMap Layout.keep?).flatMap fun line =>
    line ++ [Bytes.newline]

end Scriptlet
