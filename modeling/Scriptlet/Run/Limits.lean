import Scriptlet.Bytes

/-!
# Limits of a run

A run may be given a **quota** of steps and a greatest **depth** of nested calls, and it may be
asked to run functions in *isolation*, where a body knows no functions and so cannot call
any. There need not be a quota, but the depth is always bounded.
-/

namespace Scriptlet

/-- What a run may use. -/
structure Limits where
  /-- The number of steps allowed, if it is limited. -/
  quota : Option Nat
  /-- How many calls may be open at once. -/
  depth : Nat
  /-- Whether function bodies know no functions. -/
  isolated : Bool
  deriving DecidableEq, Repr

namespace Limits

/-- The depth of calls allowed when nothing else is asked for. -/
def defaultDepth : Nat := 1000

/-- The limits for numbers as a user gives them: a quota that is not positive is none, and a
depth that is not positive is the default. -/
def ofRequest (steps depth : Int) (isolated : Bool) : Limits where
  quota := if 0 < steps then some steps.toNat else none
  depth := if 0 < depth then depth.toNat else defaultDepth
  isolated := isolated

/-- The limits when nothing is asked for. -/
def standard : Limits :=
  ofRequest 0 0 false

/-- The limits in one line. -/
def summary (l : Limits) : Bytes :=
  Bytes.ofString "steps=" ++
    (match l.quota with
    | some q => Bytes.ofNat q
    | none => Bytes.ofString "unlimited") ++
    Bytes.ofString " recursion=" ++ Bytes.ofNat l.depth ++
    Bytes.ofString " isolated_calls=" ++
    Bytes.ofString (if l.isolated then "true" else "false")

end Limits

end Scriptlet
