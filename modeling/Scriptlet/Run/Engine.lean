import Scriptlet.Run.Eval
import Scriptlet.Run.Report
import Scriptlet.Script.Grammar

/-!
# Complete runs

A complete run starts with the variables and functions it is given, runs all statements of a
script, and ends with a world or with a reason for stopping. Its **records** tell what
happened: that it started, each call in order, and how it ended.
-/

namespace Scriptlet

/-- A record of a run, for whoever watches it. -/
inductive Record where
  /-- The run starts, with so many statements. -/
  | started (statements : Nat)
  /-- A function was called. -/
  | called (call : CallRecord)
  /-- The run stopped early after so many steps. -/
  | stopped (steps : Nat) (stop : Stop)
  /-- The run ended after so many steps and left so many variables. -/
  | finished (steps bound : Nat)

/-- A run that is over. -/
structure Run where
  /-- What the run left behind, or why it stopped. -/
  result : Except Stop World
  /-- What it used. -/
  meter : Meter

/-- **Runs a script** from a world on. -/
def runScript (settings : Settings) (w : World) (script : Script) : Run :=
  match runStatements loop settings w script.statements ⟨0, []⟩ with
  | .done w m => ⟨.ok w, m⟩
  | .stopped s m => ⟨.error s, m⟩

/-- The records of a run, in the order of events. -/
def Run.records (r : Run) (script : Script) : List Record :=
  .started script.statements.length :: r.meter.calls.reverse.map .called ++
    [match r.result with
    | .ok w => .finished r.meter.steps w.bindings.size
    | .error s => .stopped r.meter.steps s]

/-! ### What can go wrong -/

/-- Why a source did not run to its end. -/
inductive ScriptError where
  /-- There was no script to run. -/
  | absent
  /-- The source is not a script. -/
  | invalid (e : SyntaxError)
  /-- The run failed. -/
  | failed (e : RunError)
  /-- The run was interrupted from outside. -/
  | cancelled
  /-- A loop goes on for good. -/
  | unfinished

namespace ScriptError

/-- The error for a run of a script that stopped. -/
def ofStop (source : Bytes) : Stop → ScriptError
  | .failed f => .failed (f.toError source)
  | .cancelled => .cancelled
  | .unfinished => .unfinished

/-- **The report of an error.** -/
def text : ScriptError → Bytes
  | absent => Bytes.ofString "tiny: nil program"
  | invalid e => e.text
  | failed e => e.text
  | cancelled => Bytes.ofString "context canceled"
  | unfinished => Bytes.ofString "run not finished"

/-- The words for the kinds of error that an error is of. -/
def words : ScriptError → List String
  | invalid _ => [syntaxWords]
  | failed e => e.kind?.toList.map FaultKind.words
  | absent | cancelled | unfinished => []

end ScriptError

/-- Runs a source from a world on: the world it leaves behind. -/
def runSource (settings : Settings) (w : World) (source : Bytes) : Except ScriptError World :=
  match parse source with
  | .error e => .error (.invalid e)
  | .ok script =>
    match (runScript settings w script).result with
    | .ok w => .ok w
    | .error s => .error (.ofStop source s)

end Scriptlet
