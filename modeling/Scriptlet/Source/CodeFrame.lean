import Scriptlet.Source.Position

/-!
# Code frames

An error message shows the line it is about with a caret under the column: the **code
frame**. It has three lines: where, the source line after its number, and the caret. A
position outside the source has no code frame, and a column past the end of its line is
moved to just after the end.
-/

namespace Scriptlet

/-- The code frame of a line's text. -/
def frameOfLine (line column : Nat) (text : Bytes) : Bytes :=
  let number := Bytes.ofNat line
  Bytes.ofString "  --> line " ++ number ++ Bytes.ofString ", column " ++ Bytes.ofNat column ++
    Bytes.ofString "\n " ++ number ++ Bytes.ofString " | " ++ text ++
    Bytes.ofString "\n " ++ Bytes.spaces number.length ++ Bytes.ofString " | " ++
    Bytes.spaces (column - 1) ++ Bytes.ofString "^"

/-- **The code frame at a position of a source**; nothing when the source is empty or has
no such line. -/
def codeFrame (source : Bytes) (pos : Position) : Bytes :=
  if source.isEmpty || pos.line == 0 then []
  else match (Bytes.lines source)[pos.line - 1]? with
    | none => []
    | some text => frameOfLine pos.line (min (max pos.column 1) (Bytes.glyphCount text + 1)) text

end Scriptlet
