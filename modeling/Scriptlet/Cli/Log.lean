import Scriptlet.Run.Engine
import Scriptlet.Text.Blank

/-!
# The log

A run that is watched writes a **log**: a line for each record, made of names with values. A value
stands as it is when it cannot be mistaken, and in its quoted form otherwise.
-/

namespace Scriptlet

namespace Log

/-- Whether a value with this glyph in it has to be quoted. -/
def isDelicate : Glyph → Bool
  | .stray _ => true
  | .char c =>
    if c.toNat < 0x80 then c.toNat < 0x20 || c == ' ' || c == '=' || c == '"'
    else c == Glyph.replacement || isBlank c || !isPrintable c

/-- A value in the log. -/
def value (s : Bytes) : Bytes :=
  if s.isEmpty || (Bytes.glyphs s).any isDelicate then Bytes.quoted s else s

/-- A name with its value. -/
def field (f : String × Bytes) : Bytes :=
  Bytes.ofString f.1 ++ Bytes.ofString "=" ++ value f.2

/-- A line of the log. -/
def line (message : String) (fields : List (String × Bytes)) : Bytes :=
  Bytes.join [Bytes.space]
    ((("level", Bytes.ofString "DEBUG") :: ("msg", Bytes.ofString message) :: fields).map field) ++
    [Bytes.newline]

/-- The line for the limits of a run, before it starts. -/
def configured (limits : Limits) : Bytes :=
  line "engine configured" [("limits", limits.summary)]

/-- The line for a record of a run of some source. -/
def ofRecord (source : Bytes) : Record → Bytes
  | .started n => line "run started" [("statements", Bytes.ofNat n)]
  | .called c => line "call" [("function", c.function), ("depth", Bytes.ofNat c.depth)]
  | .stopped n s =>
    line "run failed" [("steps", Bytes.ofNat n), ("error", (ScriptError.ofStop source s).text)]
  | .finished n v =>
    line "run finished" [("steps", Bytes.ofNat n), ("variables", Bytes.ofNat v)]

end Log

end Scriptlet
