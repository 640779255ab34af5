import Scriptlet.Run.Engine

/-!
# Sessions

A **session** runs one source after another and keeps what they define. A source that fails, for
whatever reason, leaves the session as it was.
-/

namespace Scriptlet

/-- A session: its limits, and what its sources have defined so far. -/
structure Session where
  /-- The limits of every run. -/
  limits : Limits
  /-- The variables and functions defined so far. -/
  world : World

namespace Session

/-- A session in which nothing is defined. -/
def new (limits : Limits) : Session := ⟨limits, .empty⟩

/-- Forgets all variables and functions. -/
def reset (s : Session) : Session := .new s.limits

/-- **Runs a source in a session**: the session after it, and the bindings or an error. -/
def exec (s : Session) (cancelAt : Option Nat) (source : Bytes) :
    Session × Except ScriptError Bindings :=
  match runSource ⟨s.limits, cancelAt⟩ s.world source with
  | .ok w => ({ s with world := w }, .ok w.bindings)
  | .error e => (s, .error e)

/-- The variables of a session. -/
def bindings (s : Session) : Bindings := s.world.bindings

/-- The names of the functions of a session, in order. -/
def functions (s : Session) : List Bytes := s.world.functions.names

end Session

end Scriptlet
