import Scriptlet.Text.BreakClass
import Scriptlet.Text.CellWidth

/-!
# Cells of texts

Characters that are drawn as one make up a **cluster**. A text is cut into clusters from left to
right by a machine that remembers what the cluster so far waits for: after a first consonant a
vowel may come, after half a flag the other half, after a pictograph and a joiner another
pictograph. Everything that joins nothing begins a new cluster.

A cluster takes the cells of its characters together, with three exceptions: a flag and a syllable
are as wide as their first character, and so is a pictograph with all that is joined to it, unless
a selector asks for its narrow or its wide form.
-/

namespace Scriptlet

/-! ### Clusters -/

/-- What a cluster so far waits for. -/
inductive ClusterState where
  /-- Nothing but marks. -/
  | plain
  /-- Nothing at all: it ended with a control character. -/
  | control
  /-- The character that it leads. -/
  | leading
  /-- More of a syllable that has only consonants yet. -/
  | begun
  /-- More of a syllable without final consonant. -/
  | voiced
  /-- More of a syllable with final consonant. -/
  | ended
  /-- A joiner, after a pictograph. -/
  | pictograph
  /-- A pictograph, after a joiner. -/
  | joined
  /-- The second half of a flag. -/
  | halfFlag
  /-- Nothing but marks, after a whole flag. -/
  | flag
  deriving DecidableEq, Repr

namespace ClusterState

/-- The state after the first character of a cluster. -/
def start : BreakClass → ClusterState
  | .control => control
  | .leading => leading
  | .firstConsonant => begun
  | .vowel | .openSyllable => voiced
  | .lastConsonant | .closedSyllable => ended
  | .pictograph => pictograph
  | .regional => halfFlag
  | .other | .mark | .spacing | .joiner => plain

/-- Whether a character of a class joins the cluster so far. -/
def joins : ClusterState → BreakClass → Bool
  | control, _ => false
  | _, .control => false
  | leading, _ => true
  | _, .mark | _, .joiner | _, .spacing => true
  | begun, .firstConsonant | begun, .vowel | begun, .openSyllable | begun, .closedSyllable => true
  | voiced, .vowel | voiced, .lastConsonant => true
  | ended, .lastConsonant => true
  | joined, .pictograph => true
  | halfFlag, .regional => true
  | _, _ => false

/-- The state after a further character, of this cluster or of the next. -/
def next : ClusterState → BreakClass → ClusterState
  | pictograph, .mark => pictograph
  | pictograph, .joiner => joined
  | halfFlag, .regional => flag
  | _, k => start k

end ClusterState

/-! ### Widths -/

/-- Wide pictographs that are drawn as text, and narrow. -/
def textPictographs : CodeRanges :=
  [(0x3030, 0x3030), (0x303d, 0x303d), (0x3297, 0x3297), (0x3299, 0x3299), (0x1f202, 0x1f202),
   (0x1f237, 0x1f237), (0x1f260, 0x1f265)]

/-- How many cells a character of a class takes in a cluster. There are two very long dashes. -/
def BreakClass.cells (k : BreakClass) (c : Char) : Nat :=
  match k with
  | .control | .mark | .joiner => 0
  | .regional => 2
  | .pictograph => if isWide c && !textPictographs.has c then 2 else 1
  | _ => if c = '\u2e3a' then 3 else if c = '\u2e3b' then 4 else if isWide c then 2 else 1

/-- The width of a cluster with a given first character and `width` so far, after a further
character. -/
def joinedWidth (first : BreakClass) (width : Nat) (k : BreakClass) (c : Char) : Nat :=
  match first with
  | .pictograph => if c = '\ufe0e' then 1 else if c = '\ufe0f' then 2 else width
  | .regional | .firstConsonant => width
  | _ => width + k.cells c

/-- The width of what is left of a text, and of the cluster before it, of which the state, the
class of the first character and the width so far are given. -/
def widthAfter : ClusterState → (first : BreakClass) → (width : Nat) → List Char → Nat
  | _, _, width, [] => width
  | state, first, width, c :: cs =>
    let k := breakClass c
    if state.joins k then widthAfter (state.next k) first (joinedWidth first width k c) cs
    else width + widthAfter (state.next k) k (k.cells c) cs

/-- **How many cells a text takes.** -/
def displayWidth : List Char → Nat
  | [] => 0
  | c :: cs => widthAfter (.start (breakClass c)) (breakClass c) ((breakClass c).cells c) cs

end Scriptlet
