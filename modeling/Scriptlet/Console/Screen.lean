import Scriptlet.Console.Basic

/-!
# What the console shows

The screen is plain text: a header, as much of the transcript as there is room for, the panels
that are switched on, the input line, and a footer with the most important keys.

Texts are set in **blocks**: a text of several lines is filled up with blanks so that all its lines
are as wide as the widest. A panel is a block in a frame with one blank on each side.
-/

namespace Scriptlet

namespace Screen

/-! ### Blocks -/

/-- A text with four blanks for each tab. -/
def expandTabs (s : Bytes) : Bytes :=
  s.flatMap fun b => if b = Bytes.tab then Bytes.spaces 4 else [b]

/-- The number of cells that a line takes. -/
def lineWidth (line : Bytes) : Nat :=
  displayWidth (Bytes.chars line)

/-- The width of the widest of some lines. -/
def widest (lines : List Bytes) : Nat :=
  lines.foldl (fun w line => max w (lineWidth line)) 0

/-- A line filled up with blanks to a width. -/
def fill (width : Nat) (line : Bytes) : Bytes :=
  line ++ Bytes.spaces (width - lineWidth line)

/-- The lines of a text, all filled up to the widest. -/
def blockLines (s : Bytes) : List Bytes :=
  let lines := Bytes.lines (expandTabs s)
  lines.map (fill (widest lines))

/-- A text as a block. -/
def block (s : Bytes) : Bytes :=
  Bytes.join [Bytes.newline] (blockLines s)

/-- A horizontal line. -/
def rule (n : Nat) : Bytes :=
  (List.replicate n (Bytes.ofString "─")).flatten

/-- A block in a frame. -/
def panel (lines : List Bytes) : Bytes :=
  let content := blockLines (Bytes.join [Bytes.newline] lines)
  let edge := rule (widest content + 2)
  Bytes.join [Bytes.newline]
    ([Bytes.ofString "╭" ++ edge ++ Bytes.ofString "╮"] ++
      content.map (fun line => Bytes.ofString "│ " ++ line ++ Bytes.ofString " │") ++
      [Bytes.ofString "╰" ++ edge ++ Bytes.ofString "╯"])

/-! ### The parts of the screen -/

/-- The header. -/
def header (width : Int64) : Bytes :=
  Bytes.ofString " TinyScript REPL  type \\n for a new line\n" ++
    rule (min (width - 2).toInt 60).toNat ++ Bytes.ofString "\n\n"

/-- One item of the transcript. -/
def item (s : Shown) : Bytes :=
  (if s.input.isEmpty then [] else Bytes.ofString "  › " ++ s.input ++ [Bytes.newline]) ++
    Bytes.ofString "  " ++
    block (Bytes.ofString (if s.result.failed then "✗ " else "→ ") ++ s.result.text) ++
    Bytes.ofString "\n\n"

/-- How many lines are not for the transcript. -/
def reserved (c : Console) : Int :=
  8 + (if c.showHelp then 10 else 0) +
    (if c.showVariables then (c.session.bindings.size : Int) + 3 else 0)

/-- The end of the transcript that there is room for, one line counted for each item. -/
def visible (c : Console) (height : Int64) : List Shown :=
  c.transcript.drop (c.transcript.length - (height - Int64.ofInt (reserved c)).toInt).toNat

/-- The panel with variables and functions. -/
def variablePanel (s : Session) : Bytes :=
  let bindings := s.bindings.entries.map fun (x, v) =>
    Bytes.ofString "  " ++ x ++ Bytes.ofString " = " ++ v.inspect
  let functions := s.functions.map fun f => Bytes.ofString "  func " ++ f
  panel (match bindings ++ functions with
    | [] => [Bytes.ofString "No variables defined"]
    | lines => Bytes.ofString "Variables" :: lines)

/-- The help, as keys with what they do. -/
def topics : List (String × String) :=
  [("↑/↓", "Navigate entry history"), ("Tab", "Autocomplete"), ("Enter", "Execute entry"),
   ("\\n", "Line break inside an entry"), (":help", "Toggle this help"),
   (":vars", "Toggle variables panel"), (":clear", "Clear history"),
   (":reset", "Forget variables and functions"), (":quit", "Exit REPL")]

/-- The panel with the help. -/
def helpPanel : Bytes :=
  panel (Bytes.ofString "Help" :: topics.map fun (key, purpose) =>
    Bytes.ofString "  " ++ fill 8 (Bytes.ofString key) ++ Bytes.ofString "  " ++
      Bytes.ofString purpose)

/-- What stands in an empty line. -/
def placeholder : Bytes :=
  Bytes.ofString "a = 1   or   func f()\\n    return 2"

/-- The input field with its prompt. What is shown of the line, and the cursor, take one cell more
than there is room for; a stretch that is wider than the room is not filled up. -/
def prompt (f : InputField) : Bytes :=
  let places := f.room.toNat + 1
  Bytes.ofString "tiny> " ++
    if f.line.text.isEmpty then fill places (placeholder.take places)
    else if 0 < f.room ∧ displayWidth f.visible ≤ f.room then
      fill places (Bytes.ofChars f.visible)
    else Bytes.ofChars f.visible ++ (if f.cursorAtEnd then [Bytes.space] else [])

/-- The footer. -/
def footer : Bytes :=
  Bytes.ofString "ctrl+k help  ctrl+v vars  ctrl+l clear  ctrl+c quit"

end Screen

/-- **What a console shows.** -/
def Console.view (c : Console) : Bytes :=
  match c.window with
  | none => Bytes.ofString "Loading..."
  | some w =>
    if c.quitting then Screen.block (Bytes.ofString "Goodbye!\n")
    else
      Screen.header w.width ++
        (Screen.visible c w.height).flatMap Screen.item ++
        (if c.showVariables then Screen.variablePanel c.session ++ [Bytes.newline] else []) ++
        (if c.showHelp then Screen.helpPanel ++ [Bytes.newline] else []) ++
        Screen.prompt c.field ++ Bytes.ofString "\n\n" ++ Screen.footer

end Scriptlet
