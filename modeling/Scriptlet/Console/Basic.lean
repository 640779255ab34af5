import Scriptlet.Console.Completion
import Scriptlet.Console.Entry
import Scriptlet.Console.InputField

/-!
# The console

The **console** is where a session is used by hand: a line to type in, a transcript of what was
entered and what came of it, the entries to call up again, and two panels that can be shown.
It is a state machine: every key, typed text or change of the window takes one state to the next.

Keys have names, and a text that is typed in one go and happens to be the name of a key counts as
that key.
-/

namespace Scriptlet

/-! ### Keys -/

/-- What a key can be for. -/
inductive Key where
  | quit
  | clear
  | listVariables
  | help
  | older
  | newer
  | complete
  | submit
  | edit (e : InputLine.Edit)
  /-- A key that changes nothing in the line. -/
  | idle
  deriving DecidableEq, Repr

namespace Key

/-- The keys by name. -/
def bindings : List (String × Key) :=
  [("ctrl+c", quit), ("ctrl+d", quit), ("ctrl+l", clear), ("ctrl+v", listVariables),
   ("ctrl+k", help), ("up", older), ("down", newer), ("tab", complete), ("enter", submit),
   ("left", edit .left), ("ctrl+b", edit .left), ("right", edit .right), ("ctrl+f", edit .right),
   ("home", edit .home), ("ctrl+a", edit .home), ("end", edit .toEnd), ("ctrl+e", edit .toEnd),
   ("alt+left", edit .wordLeft), ("ctrl+left", edit .wordLeft), ("alt+b", edit .wordLeft),
   ("alt+right", edit .wordRight), ("ctrl+right", edit .wordRight), ("alt+f", edit .wordRight),
   ("backspace", edit .eraseBack), ("ctrl+h", edit .eraseBack), ("delete", edit .eraseHere),
   ("ctrl+u", edit .eraseToStart), ("ctrl+w", edit .eraseWordBack),
   ("alt+backspace", edit .eraseWordBack), ("alt+d", edit .eraseWordHere),
   ("alt+delete", edit .eraseWordHere), ("ctrl+n", idle), ("ctrl+p", idle)]

/-- The key with a name. -/
def ofName? (name : List Char) : Option Key :=
  (bindings.find? fun b => b.1.toList == name).map Prod.snd

end Key

/-! ### The state -/

/-- One item of the transcript. -/
structure Shown where
  /-- What was entered; nothing for a notice. -/
  input : Bytes
  /-- What came of it. -/
  result : EntryResult
  deriving DecidableEq, Repr

/-- The size of the window, in characters. -/
structure Window where
  width : Int64
  height : Int64
  deriving DecidableEq

/-- The room for the input line in a window, which prompt and margins leave. -/
def Window.room (w : Window) : Int :=
  (w.width - 10).toInt

/-- **The state of a console.** -/
structure Console where
  /-- The field with the line being edited. -/
  field : InputField
  /-- The session. -/
  session : Session
  /-- What was shown so far, oldest first. -/
  transcript : List Shown
  /-- The entries that were run, oldest first. -/
  entries : List (List Char)
  /-- The place of the entry that is called up, if one is. -/
  recalled : Option Nat
  /-- The window, once it is known. -/
  window : Option Window
  /-- Whether the help panel is shown. -/
  showHelp : Bool
  /-- Whether the variables are shown. -/
  showVariables : Bool
  /-- Whether the console was told to quit. -/
  quitting : Bool

namespace Console

/-- The number of steps that an entry may take. -/
def quota : Int := 1000000

/-- A console as it is when it starts. -/
def new : Console where
  field := .empty
  session := .new (.ofRequest quota 0 false)
  transcript := []
  entries := []
  recalled := none
  window := none
  showHelp := false
  showVariables := false
  quitting := false

/-- The line being edited. -/
def line (c : Console) : InputLine :=
  c.field.line

/-- The console with another text in its line and the cursor at the end. -/
def setLine (c : Console) (s : List Char) : Console :=
  { c with field := c.field.set s }

/-- The console with one more item in its transcript. -/
def display (c : Console) (input output : Bytes) (failed : Bool) : Console :=
  { c with transcript := c.transcript ++ [⟨input, output, failed⟩] }

/-! ### Calling up entries -/

/-- The console with the entry at a place called up in its line. -/
def callUp (c : Console) (place : Nat) : Console :=
  { c with recalled := some place }.setLine (c.entries[place]?.getD [])

/-- Calls up the last entry or, when one is called up already, the entry before it. -/
def callUpOlder (c : Console) : Console :=
  if c.entries.isEmpty then c
  else match c.recalled with
    | none => c.callUp (c.entries.length - 1)
    | some place => c.callUp (place - 1)

/-- Calls up the entry after the one that is called up; after the last, the empty line. -/
def callUpNewer (c : Console) : Console :=
  match c.recalled with
  | none => c
  | some place =>
    if place + 1 < c.entries.length then c.callUp (place + 1)
    else { c with recalled := none }.setLine []

/-! ### Completing -/

/-- Completes the word at the end of the line when only one name begins with it; lists the names
when there are several. -/
def completeWord (c : Console) : Console :=
  match c.session.complete c.line.text with
  | .none => c
  | .one before name => c.setLine (before ++ Bytes.chars name)
  | .many names =>
    c.display [] (Bytes.ofString "Completions: " ++ Bytes.join (Bytes.ofString ", ") names) false

/-! ### Submitting -/

/-- What a line that begins with a colon can ask for. -/
inductive Command where
  | help
  | clear
  | listVariables
  | reset
  | quit
  deriving DecidableEq, Repr

/-- The command with a name. -/
def Command.ofName? (name : Bytes) : Option Command :=
  if name = Bytes.ofString ":help" ∨ name = Bytes.ofString ":h" then some .help
  else if name = Bytes.ofString ":clear" ∨ name = Bytes.ofString ":c" then some .clear
  else if name = Bytes.ofString ":vars" ∨ name = Bytes.ofString ":v" then some .listVariables
  else if name = Bytes.ofString ":reset" ∨ name = Bytes.ofString ":r" then some .reset
  else if name = Bytes.ofString ":quit" ∨ name = Bytes.ofString ":q" then some .quit
  else none

/-- Shows or hides the help panel. -/
def toggleHelp (c : Console) : Console := { c with showHelp := !c.showHelp }

/-- Shows or hides the variables. -/
def toggleVariables (c : Console) : Console := { c with showVariables := !c.showVariables }

/-- Forgets the transcript. -/
def clear (c : Console) : Console := { c with transcript := [] }

/-- Tells the console to quit. -/
def quit (c : Console) : Console := { c with quitting := true }

/-- Carries out a command line; its first word is the command. -/
def command (c : Console) (input : Bytes) : Console :=
  let name := Bytes.firstWord input
  match Command.ofName? name with
  | some .help => c.toggleHelp
  | some .clear => c.clear
  | some .listVariables => c.toggleVariables
  | some .reset =>
    { c with session := c.session.reset }.display input (Bytes.ofString "Session reset") false
  | some .quit => c.quit
  | none => c.display input (Bytes.ofString "Unknown command: " ++ name) true

/-- The console with an empty line and nothing called up. -/
def newLine (c : Console) : Console :=
  { c with recalled := none }.setLine []

/-- Runs an entry. -/
def runEntry (c : Console) (entry : List Char) : Console :=
  let input := Bytes.ofChars entry
  let (session, result) := c.session.evaluate input
  { c with session, entries := c.entries ++ [entry] }.display input result.text result.failed

/-- The entry in a line: blanks at its end do not count, those at its beginning do. -/
def entryOf (line : List Char) : List Char :=
  (line.reverse.dropWhile fun c => c == ' ' || c == '\t').reverse

/-- Submits the line: as a command when it begins with a colon, else as an entry. A blank line is
not submitted. -/
def submit (c : Console) : Console :=
  let entry := entryOf c.line.text
  if entry.all isBlank then c
  else if entry.head? = some ':' then (c.command (Bytes.ofChars entry)).newLine
  else (c.runEntry entry).newLine

/-! ### Events -/

/-- What can happen to a console. -/
inductive Event where
  /-- A key was pressed. -/
  | key (k : Key)
  /-- A text was typed. -/
  | text (s : List Char)
  /-- The window got a size. -/
  | resize (w : Window)

/-- The event of typing a text in one go. -/
def Event.typing (s : List Char) : Event :=
  match Key.ofName? s with
  | some k => key k
  | none => text s

/-- The console after a key. -/
def press (c : Console) : Key → Console
  | .quit => c.quit
  | .clear => c.clear
  | .listVariables => c.toggleVariables
  | .help => c.toggleHelp
  | .older => c.callUpOlder
  | .newer => c.callUpNewer
  | .complete => c.completeWord
  | .submit => c.submit
  | .edit e => { c with field := c.field.edit e }
  | .idle => { c with field := c.field.follow c.line }

/-- **The console after an event.** -/
def update (c : Console) : Event → Console
  | .key k => c.press k
  | .text s => { c with field := c.field.insert s }
  | .resize w => { c with window := some w, field := c.field.resize w.room }

/-- Whether an event asks for the end of the console: whether one that goes on would quit. -/
def quits (c : Console) (e : Event) : Bool :=
  ({ c with quitting := false }.update e).quitting

end Console

end Scriptlet
