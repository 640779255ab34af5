import Scriptlet.Proofs.Lint.Alarms
import Scriptlet.Proofs.Parsing.Footholds
import Scriptlet.Server.Diagnostics

/-!
# Diagnostics point at the right place

A place goes a long way before an editor underlines it. The parser notes an offset in bytes; the
syntax error, or the node that a warning is about, has the position of that offset, with its column
in glyphs of the line up to there; and the diagnostic has a column in UTF-16 units of the whole
line. The editor goes the way back: from units to glyphs, and from glyphs to bytes
(`offsetOfPlace`).

The way back ends where the way there began, for any document, whatever bytes are in it
(`diagnostics_point`). The reason is that all offsets that the parser notes are footholds.
-/

namespace Scriptlet

/-- The offset of a place in a source: of the glyph that begins at a UTF-16 unit of a line, or that
is the next one to begin. Lines and units are counted from zero. -/
def offsetOfPlace (source : Bytes) (line character : Nat) : Nat :=
  let glyphs := Bytes.glyphs ((Bytes.lines source)[line]?.getD [])
  sizeOfLines ((Bytes.lines source).take line) +
    sizeOfGlyphs (glyphs.take (glyphsOfUnits glyphs character))

-- A character of two units and four bytes, and the one after it on the second line.
example : offsetOfPlace [0x61, 0x0A, 0xF0, 0x9F, 0x98, 0x80, 0x62] 1 2 = 6 := by decide

/-- **A diagnostic points at a position**, which is that of the offset `k`. -/
structure Diagnostic.PointsAt (d : Diagnostic) (source : Bytes) (position : Position) (k : Nat) :
    Prop where
  /-- It is in the line of the position. -/
  line : d.line + 1 = position.line
  /-- The source has this line, its units go so far, and its glyph there is that of the column. -/
  column : ∃ text, (Bytes.lines source)[d.line]? = some text ∧
    d.character ≤ unitsOfGlyphs (Bytes.glyphs text) (Bytes.glyphCount text) ∧
    glyphsOfUnits (Bytes.glyphs text) d.character + 1 = position.column
  /-- The place is that of the offset. -/
  offset : offsetOfPlace source d.line d.character = k

section Points

variable {source : Bytes} {k : Nat}

/-- The diagnostic for the position of a foothold points at it. -/
theorem Foothold.pointsAt (h : Foothold source k) (severity : Severity) (message : Bytes) :
    (Diagnostic.ofPosition ((Bytes.lines source).map Bytes.glyphs)
      (Position.ofOffset source k) severity message).PointsAt source
      (Position.ofOffset source k) k := by
  obtain ⟨before, pre, post, after, hlines, hk, hposition, hglyphs⟩ := h.exists_line
  have hline := getElem?_lines hlines
  have hcount : Bytes.glyphCount pre ≤ (Bytes.glyphs (pre ++ post)).length := by
    rw [hglyphs, List.length_append]
    exact Nat.le_add_right _ _
  have hcharacter :
      unitsOnLine ((Bytes.lines source).map Bytes.glyphs) before.length (Bytes.glyphCount pre) =
        unitsOfGlyphs (Bytes.glyphs (pre ++ post)) (Bytes.glyphCount pre) := by
    rw [unitsOnLine, List.getElem?_map, hline]
    rfl
  -- the units before a glyph lead back to it
  have hback := glyphsOfUnits_unitsOfGlyphs hcount
  rw [hposition, Diagnostic.ofPosition]
  simp only [Nat.add_sub_cancel, hcharacter]
  have hle := (unitsOfGlyphs_strictMono (Bytes.glyphs (pre ++ post))).monotone hcount
  refine ⟨rfl, ⟨pre ++ post, hline, hle, by rw [hback]⟩, ?_⟩
  rw [offsetOfPlace, hline, Option.getD_some, hback, hk, hlines, List.take_left, hglyphs]
  rw [Bytes.glyphCount, List.take_left, Bytes.sizeOfGlyphs_glyphs]

theorem diagnostics_of_error {document : Bytes} {e : SyntaxError}
    (h : parse document.dropFinalNewline = .error e) :
    diagnostics document = [.ofPosition ((Bytes.lines document.dropFinalNewline).map Bytes.glyphs)
      e.position .error e.message] := by
  rw [diagnostics]
  simp only [h]

theorem diagnostics_of_ok {document : Bytes} {script : Script}
    (h : parse document.dropFinalNewline = .ok script) :
    diagnostics document = script.warnings.map fun w =>
      .ofPosition ((Bytes.lines document.dropFinalNewline).map Bytes.glyphs) w.position .warning
        w.finding.message := by
  rw [diagnostics]
  simp only [h]

end Points

/-- **Diagnostics point at the right place.** Of a document that is not a script, once the line feed
at its end is dropped, there is one diagnostic, which points at the furthest offset at which the
parser missed something. Of a script there is one for every warning, which points at the offset with
which the parser marked the node in question. -/
theorem diagnostics_point (document : Bytes) :
    let source := Bytes.dropFinalNewline document
    (∀ missed, parseMarked source = .error missed →
      ∃ d, diagnostics document = [d] ∧ d.severity = .error ∧
        d.message = (missed.toError source).message ∧
        d.PointsAt source (missed.toError source).position missed.offset) ∧
    ∀ ss, parseMarked source = .ok ss →
      ∃ script, parse source = .ok script ∧
        List.Forall₂ (fun d warning => d.severity = .warning ∧
          d.message = warning.finding.message ∧
          ∃ k ∈ ss.flatMap Stmt.marks, warning.position = Position.ofOffset source k ∧
            d.PointsAt source warning.position k) (diagnostics document) script.warnings := by
  intro source
  constructor
  · intro missed hmissed
    have hparse : parse source = .error (missed.toError source) := by
      simp only [parse, hmissed]
    have hfoothold : Foothold source missed.offset := foothold_of_parseMarked hmissed
    exact ⟨_, diagnostics_of_error hparse, rfl, rfl, hfoothold.pointsAt _ _⟩
  · intro ss hss
    obtain ⟨script, hscript⟩ : ∃ script, parse source = .ok script := by
      simp only [parse, hss, Except.ok.injEq, exists_eq']
    refine ⟨script, hscript, ?_⟩
    rw [diagnostics_of_ok hscript, List.forall₂_map_left_iff, List.forall₂_same]
    intro warning hwarning
    -- a warning is about a node, and its position was that of the offset the node was marked with
    obtain ⟨stmt, hstmt, hmark⟩ := position_mem_marks hwarning
    obtain ⟨k, hk, hfoothold, hposition⟩ := exists_mark_of_parse hss hscript hstmt hmark
    refine ⟨rfl, rfl, k, hk, hposition, ?_⟩
    rw [hposition]
    exact hfoothold.pointsAt _ _

end Scriptlet
