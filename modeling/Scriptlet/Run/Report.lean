import Scriptlet.Run.Fault

/-!
# Error reports

What a user reads when a source is no script or a run fails: a first line with the kind of the
error and its message, the code frame if there is one, and for a run the stack trace. Long
traces are cut in the middle, with a line that says how many frames are left out.
-/

namespace Scriptlet

/-- A first line with a code frame below it, if there is one. -/
def withFrame (heading frame : Bytes) : Bytes :=
  if frame.isEmpty then heading else heading ++ Bytes.newline :: frame

/-- The report of a syntax error at a line and a column. -/
def syntaxReport (line column : Int) (message frame : Bytes) : Bytes :=
  withFrame
    (Bytes.ofString "parse error at " ++ Bytes.ofInt line ++ Bytes.colon :: Bytes.ofInt column ++
      Bytes.ofString ": " ++ message)
    frame

/-- The report of a syntax error. -/
def SyntaxError.text (e : SyntaxError) : Bytes :=
  syntaxReport e.position.line e.position.column e.message e.frame

/-- The words for a syntax error. -/
def syntaxWords : String := "syntax error"

/-- One line of a stack trace, with as much of the position as there is. -/
def Frame.text (f : Frame) : Bytes :=
  let place :=
    if f.position.line = 0 then []
    else if f.position.column = 0 then
      Bytes.ofString " (line " ++ Bytes.ofNat f.position.line ++ Bytes.ofString ")"
    else
      Bytes.ofString " (" ++ Bytes.ofNat f.position.line ++
        Bytes.colon :: Bytes.ofNat f.position.column ++ Bytes.ofString ")"
  Bytes.ofString "\n  at " ++ f.function ++ place

/-- How many frames a trace shows at either end when it is cut. -/
def traceEnd : Nat := 8

/-- A stack trace, cut in the middle when it is long. -/
def traceText (frames : List Frame) : Bytes :=
  if frames.length ≤ 2 * traceEnd then frames.flatMap Frame.text
  else
    (frames.take traceEnd).flatMap Frame.text ++
      Bytes.ofString "\n  ... " ++ Bytes.ofNat (frames.length - 2 * traceEnd) ++
      Bytes.ofString " frames omitted ..." ++
      (frames.drop (frames.length - traceEnd)).flatMap Frame.text

/-- An error of a run, ready to be shown. -/
structure RunError where
  /-- The label of its kind. -/
  label : Bytes
  /-- What went wrong. -/
  message : Bytes
  /-- Where it went wrong. -/
  position : Position
  /-- The code frame, or nothing. -/
  frame : Bytes
  /-- The stack trace. -/
  trace : List Frame
  deriving DecidableEq

namespace RunError

/-- **The report of an error of a run.** -/
def text (e : RunError) : Bytes :=
  withFrame (e.label ++ Bytes.ofString ": " ++ e.message) e.frame ++ traceText e.trace

/-- The kind of an error, if its label is that of a kind. -/
def kind? (e : RunError) : Option FaultKind :=
  FaultKind.ofLabel? e.label

end RunError

/-- A failure with the code frame of the script that was running. -/
def Failure.toError (source : Bytes) (f : Failure) : RunError where
  label := f.fault.kind.label
  message := f.fault.message
  position := f.position
  frame := codeFrame source f.position
  trace := f.trace

end Scriptlet
