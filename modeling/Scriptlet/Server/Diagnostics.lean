import Scriptlet.Json.Basic
import Scriptlet.Lint
import Scriptlet.Script.Grammar
import Scriptlet.Text.Utf16

/-!
# Diagnostics

What an editor underlines in a document: the syntax error if the document is not a script, and
otherwise the warnings of the analysis. A **diagnostic** covers one character; its place is
counted in lines from zero and in UTF-16 units, as editors do.
-/

namespace Scriptlet

/-- How serious a diagnostic is. -/
inductive Severity where
  | error
  | warning
  deriving DecidableEq, Repr

/-- The number of a severity. -/
def Severity.number : Severity → Nat
  | error => 1
  | warning => 2

/-- A message about a place in a document. -/
structure Diagnostic where
  /-- The line, counted from zero. -/
  line : Nat
  /-- The UTF-16 unit in the line. -/
  character : Nat
  /-- How serious it is. -/
  severity : Severity
  /-- What it says. -/
  message : Bytes
  deriving DecidableEq, Repr

/-- The name under which the server speaks. -/
def serverName : String := "tiny-lsp"

/-- A place in a document, as JSON. -/
def placeJson (line character : Nat) : Json :=
  .record [("character", .ofNat character), ("line", .ofNat line)]

/-- A diagnostic, as JSON. -/
def Diagnostic.toJson (d : Diagnostic) : Json :=
  .record
    [("message", .ofText d.message),
     ("range", .record
       [("end", placeJson d.line (d.character + 1)),
        ("start", placeJson d.line d.character)]),
     ("severity", .ofNat d.severity.number),
     ("source", .ofLiteral serverName)]

/-- The diagnostic for a position of a document with the given lines. -/
def Diagnostic.ofPosition (lines : List (List Glyph)) (position : Position) (severity : Severity)
    (message : Bytes) : Diagnostic :=
  let line := position.line - 1
  ⟨line, unitsOnLine lines line (position.column - 1), severity, message⟩

/-- **The diagnostics of a document.** The line feed at its end does not count. -/
def diagnostics (document : Bytes) : List Diagnostic :=
  let source := Bytes.dropFinalNewline document
  let lines := (Bytes.lines source).map Bytes.glyphs
  match parse source with
  | .error e => [.ofPosition lines e.position .error e.message]
  | .ok script =>
    script.warnings.map fun w => .ofPosition lines w.position .warning w.finding.message

end Scriptlet
