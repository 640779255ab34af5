import Scriptlet.Run.Session

/-!
# Entries

An **entry** is what is submitted at the prompt: a source on one line, in which the two characters
`\n` stand for a line end. Running it in a session gives a report that names what the entry
changed: the functions that are new, and the variables whose values are not equal to what
they were.
-/

namespace Scriptlet

/-- The source that an entry stands for. -/
def entrySource (entry : Bytes) : Bytes :=
  Bytes.replacePair Bytes.backslash 0x6e Bytes.newline entry

/-- One thing that an entry changed in a session. -/
inductive Change where
  /-- A function is new. -/
  | defined (function : Bytes)
  /-- A variable has a new value. -/
  | assigned (name : Bytes) (value : Value)

namespace Change

/-- A change in words. -/
def text : Change → Bytes
  | defined f => Bytes.ofString "func " ++ f
  | assigned x v => x ++ Bytes.ofString " = " ++ v.inspect

/-- The functions of `after` that `before` does not have. -/
def definitions (before after : Session) : List Change :=
  (after.functions.filter fun f => !before.functions.contains f).map defined

/-- Whether a variable has a value already. -/
def isKept (before : Bindings) (name : Bytes) (v : Value) : Bool :=
  match before.get? name with
  | some w => w.equal v
  | none => false

/-- The variables of `after` that `before` does not have, or not with an equal value. -/
def assignments (before after : Bindings) : List Change :=
  (after.entries.filter fun (x, v) => !isKept before x v).map fun (x, v) => assigned x v

/-- What changed from one session to the next, functions first. -/
def between (before after : Session) : List Change :=
  definitions before after ++ assignments before.bindings after.bindings

/-- Changes in one line. -/
def report : List Change → Bytes
  | [] => Bytes.ofString "ok"
  | changes => Bytes.join (Bytes.ofString ", ") (changes.map text)

end Change

/-- What came of an entry. -/
structure EntryResult where
  /-- What is shown. -/
  text : Bytes
  /-- Whether something went wrong. -/
  failed : Bool
  deriving DecidableEq, Repr

/-- **Runs an entry in a session**: the session after it, and what to show. -/
def Session.evaluate (s : Session) (entry : Bytes) : Session × EntryResult :=
  match s.exec none (entrySource entry) with
  | (after, .ok _) => (after, ⟨Change.report (Change.between s after), false⟩)
  | (after, .error e) => (after, ⟨e.text, true⟩)

end Scriptlet
